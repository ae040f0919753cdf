import Pomade.Lib.Pool

/-! # One interface on top of another

The same programs run on two interfaces, for instance on a database and on the tables that it
stands for.  If every call that a program makes can be answered alike on the other side, the
programs cannot tell the two apart, whatever the order in which their calls come.

Not every call need be answered alike.  `World.honest` says what calls a program makes when the
answers that it gets are such as the two interfaces give.
-/

namespace Pomade.Lib

variable {J Op : Type} {Ans : Op → Type} {α : Type} {σ τ : Type*}

/-- The world of a program that makes good calls and gets fitting answers. -/
def World.honest (good : Op → Prop) (fits : (o : Op) → Ans o → Prop) : World Op Ans Unit where
  allowed o _ := good o
  step o _ answer _ := fits o answer

section Honest

variable {good : Op → Prop} {fits : (o : Op) → Ans o → Prop}

/-- The program makes good calls as long as the answers fit. -/
def Prog.Honest (good : Op → Prop) (fits : (o : Op) → Ans o → Prop) (p : Prog Op Ans α) : Prop :=
  p.wp (World.honest good fits) (fun _ _ => True) ()

theorem Prog.honest_op_bind {o : Op} {f : Ans o → Prog Op Ans α} :
    (Prog.op o >>= f).Honest good fits ↔
      good o ∧ ∀ answer, fits o answer → (f answer).Honest good fits := by
  constructor
  · intro honest
    exact ⟨honest.1, fun answer fitting => honest.2 answer () fitting⟩
  · intro honest
    exact ⟨honest.1, fun answer _ fitting => honest.2 answer fitting⟩

theorem Prog.honest_of_only {p : Prog Op Ans α} (only : p.Only good) : p.Honest good fits := by
  induction p with
  | pure value => trivial
  | abort => trivial
  | call o next ih => exact ⟨only.1, fun answer _ _ => ih answer (only.2 answer)⟩

/-- What a program does by itself is good if it is good for all calls that got fitting answers. -/
theorem Prog.honest_of_thread {allowed : Op → List (Call Op Ans) → Prop}
    (permits : ∀ o seen, (∀ call ∈ seen, fits call.op call.ans) → allowed o seen → good o)
    {p : Prog Op Ans α} {Q : Option α → List (Call Op Ans) → Prop} {seen : List (Call Op Ans)}
    (fitting : ∀ call ∈ seen, fits call.op call.ans) (holds : p.wp (World.thread allowed) Q seen) :
    p.Honest good fits := by
  induction p generalizing seen with
  | pure value => trivial
  | abort => trivial
  | call o next ih =>
    refine ⟨permits o seen fitting holds.1, fun answer _ fits' => ?_⟩
    refine ih answer ?_ (holds.2 answer _ rfl)
    intro call member
    cases List.mem_cons.mp member with
    | inl new =>
      rw [new]
      exact fits'
    | inr old => exact fitting call old

end Honest

/-- Two calls of two histories are the same call of the same thread, made in states that match. -/
structure Entry.Matches (sim : σ → τ → Prop) (e : Entry J Op Ans σ) (e' : Entry J Op Ans τ) :
    Prop where
  tid : e.tid = e'.tid
  job : e.job = e'.job
  call : e.call = e'.call
  before : sim e.before e'.before

namespace Pool

/-- The two pools run the same threads, which have made the same calls, in states that match. -/
structure Matches (sim : σ → τ → Prop) (p : Pool J Op Ans α σ) (p' : Pool J Op Ans α τ) :
    Prop where
  state : sim p.state p'.state
  threads : p.threads = p'.threads
  history : List.Forall₂ (Entry.Matches sim) p.history p'.history

/-- Every good call is answered alike on the other side, and the answer fits. -/
def Answers (W : World Op Ans σ) (W' : World Op Ans τ) (sim : σ → τ → Prop) (good : Op → Prop)
    (fits : (o : Op) → Ans o → Prop) : Prop :=
  ∀ o s t answer s', good o → sim s t → W.step o s answer s' →
    fits o answer ∧ ∃ t', W'.step o t answer t' ∧ sim s' t'

/-- What happens by itself happens alike on the other side. -/
def Follows (sim : σ → τ → Prop) (passes : σ → σ → Prop) (passes' : τ → τ → Prop) : Prop :=
  ∀ s t s', sim s t → passes s s' → ∃ t', passes' t t' ∧ sim s' t'

section Simulation

variable {W : World Op Ans σ} {W' : World Op Ans τ} {sim : σ → τ → Prop} {good : Op → Prop}
variable {fits : (o : Op) → Ans o → Prop} {program : J → Prog Op Ans α}
variable {passes : σ → σ → Prop} {passes' : τ → τ → Prop} {init : σ → Prop} {init' : τ → Prop}

/-- A pool whose actions are not restricted. -/
abbrev Free (_ : Pool J Op Ans α σ) (_ : Action J Op Ans σ) : Prop := True

/-- What one interface can do with the programs the other one can do with them. -/
theorem Reach.simulate (answers : Answers W W' sim good fits) (follows : Follows sim passes passes')
    (programs : ∀ job, (program job).Honest good fits)
    (starts : ∀ s, init s → ∃ t, init' t ∧ sim s t) {p : Pool J Op Ans α σ}
    (reach : Reach W program passes init Free p) :
    ∃ p' : Pool J Op Ans α τ, Reach W' program passes' init' Free p' ∧ p.Matches sim p' := by
  -- Every thread still makes good calls only, so that its next one is answered alike.
  suffices (∀ thread ∈ p.threads, thread.rest.Honest good fits) ∧
      ∃ p' : Pool J Op Ans α τ, Reach W' program passes' init' Free p' ∧ p.Matches sim p' from this.2
  induction reach with
  | start s initial =>
    obtain ⟨t, initial', match_⟩ := starts s initial
    exact ⟨by simp, ⟨t, [], []⟩, .start t initial', match_, rfl, .nil⟩
  | @spawn p job _ _ ih =>
    obtain ⟨honest, p', reach', match_⟩ := ih
    refine ⟨fun thread member => ?_, p'.spawn program job, .spawn job reach' trivial, ?_⟩
    · cases List.mem_append.mp member with
      | inl old => exact honest thread old
      | inr new =>
        rw [List.mem_singleton.mp new]
        exact programs job
    · refine ⟨match_.state, ?_, match_.history⟩
      rw [Pool.spawn, Pool.spawn, match_.threads]
  | pass _ passed _ ih =>
    obtain ⟨honest, p', reach', match_⟩ := ih
    obtain ⟨t', passed', still⟩ := follows _ _ _ match_.state passed
    exact ⟨honest, { p' with state := t' }, .pass reach' passed' trivial, still, match_.threads,
      match_.history⟩
  | @call p tid job seen o next answer s' _ found step _ ih =>
    obtain ⟨honest, p', reach', match_⟩ := ih
    have caller := honest _ (List.mem_of_getElem? found)
    obtain ⟨fitting, t', step', still⟩ :=
      answers o p.state p'.state answer s' caller.1 match_.state step
    have found' : p'.threads[tid]? = some ⟨job, seen, .call o next⟩ := by
      rw [← match_.threads]
      exact found
    refine ⟨fun thread member => ?_, p'.called tid job seen ⟨o, answer⟩ (next answer) t',
      .call reach' found' step' trivial, ?_⟩
    · cases List.mem_or_eq_of_mem_set member with
      | inl old => exact honest thread old
      | inr new =>
        rw [new]
        exact caller.2 answer () fitting
    · refine ⟨still, ?_, .cons ⟨rfl, rfl, rfl, match_.state⟩ match_.history⟩
      rw [Pool.called, Pool.called, match_.threads]

/-! ## Lifetimes

A process ends, with whatever threads it has, and another one starts on what it leaves behind.
-/

/-- What a process reaches that runs after some others; `restarts` says what is left to it. -/
inductive Lifetimes (W : World Op Ans σ) (program : J → Prog Op Ans α) (passes : σ → σ → Prop)
    (init : σ → Prop) (restarts : σ → σ → Prop) : Pool J Op Ans α σ → Prop where
  | first {p : Pool J Op Ans α σ} (reach : Reach W program passes init Free p) :
      Lifetimes W program passes init restarts p
  | next {p p' : Pool J Op Ans α σ} (earlier : Lifetimes W program passes init restarts p)
      (reach : Reach W program passes (restarts p.state) Free p') :
      Lifetimes W program passes init restarts p'

theorem Lifetimes.simulate {restarts : σ → σ → Prop} {restarts' : τ → τ → Prop}
    (answers : Answers W W' sim good fits) (follows : Follows sim passes passes')
    (again : Follows sim restarts restarts') (programs : ∀ job, (program job).Honest good fits)
    (starts : ∀ s, init s → ∃ t, init' t ∧ sim s t) {p : Pool J Op Ans α σ}
    (lived : Lifetimes W program passes init restarts p) :
    ∃ p' : Pool J Op Ans α τ, Lifetimes W' program passes' init' restarts' p' ∧ p.Matches sim p' := by
  induction lived with
  | first reach =>
    obtain ⟨p', reach', match_⟩ := reach.simulate answers follows programs starts
    exact ⟨p', .first reach', match_⟩
  | next _ reach ih =>
    obtain ⟨p', lived', match_⟩ := ih
    have starts' := fun s left => again _ _ s match_.state left
    obtain ⟨p₁, reach', match₁⟩ := reach.simulate answers follows programs starts'
    exact ⟨p₁, .next lived' reach', match₁⟩

end Simulation

end Pool

end Pomade.Lib
