import Pomade.Lib.Prog

/-! # Two runs of one program

A program runs twice, on two states and in one environment.  As long as its calls are answered
alike the two runs stay in step, and what holds of the pair of states is shown as for one run: the
pair is the state of a world, in which a call is allowed if both sides answer it alike.
-/

namespace Pomade.Lib

variable {Op : Type} {Ans : Op → Type} {α : Type} {σ ε : Type*}

/-- The world of the two runs. -/
def World.lockstep (exec : (o : Op) → ε → σ → Ans o × σ) : World Op Ans (σ × σ) where
  allowed o p := ∀ e, (exec o e p.1).1 = (exec o e p.2).1
  step o p answer p' := ∃ e, exec o e p.1 = (answer, p'.1) ∧ (exec o e p.2).2 = p'.2

namespace Prog

variable {exec : (o : Op) → ε → σ → Ans o × σ} {Q : Option α → σ × σ → Prop} {s s' : σ}

/-- A call that is answered alike. -/
theorem wp_lockstep {o : Op} {f : Ans o → Prog Op Ans α}
    (alike : ∀ e, (exec o e s).1 = (exec o e s').1)
    (rest : ∀ e, wp (World.lockstep exec) (f (exec o e s).1) Q ((exec o e s).2, (exec o e s').2)) :
    wp (World.lockstep exec) (Prog.op o >>= f) Q (s, s') := by
  refine ⟨alike, fun answer p' step => ?_⟩
  obtain ⟨e, first, second⟩ := step
  have rest := rest e
  rw [first, second] at rest
  exact rest

/-- The two runs return the same. -/
theorem run_lockstep {p : Prog Op Ans α} (holds : wp (World.lockstep exec) p Q (s, s'))
    (env : Nat → ε) (calls calls' : List (Call Op Ans)) :
    (run exec p env s' calls').result = (run exec p env s calls).result ∧
      Q (run exec p env s calls).result
        ((run exec p env s calls).state, (run exec p env s' calls').state) := by
  induction p generalizing env s s' calls calls' with
  | pure value => exact ⟨rfl, holds⟩
  | abort => exact ⟨rfl, holds⟩
  | call o next ih =>
    obtain ⟨alike, rest⟩ := holds
    have later := rest (exec o (env 0) s).1 ((exec o (env 0) s).2, (exec o (env 0) s').2)
      ⟨env 0, rfl, rfl⟩
    simp only [run]
    rw [← show (exec o (env 0) s).1 = (exec o (env 0) s').1 from alike (env 0)]
    exact ih _ later _ _ _

end Prog

end Pomade.Lib
