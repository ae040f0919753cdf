import Mathlib.Data.List.Basic

/-! # Limiters that restart after a quiet window

A limiter counts events until a whole window passes without one, and then starts over.
`Chain` says which sequences of times (newest first) it lets through, and the bound on
every interval of the window's width follows.
-/

namespace Pomade.Lib

/-- The times a limiter has let through; the last `n` of them are counted together. -/
inductive Chain (width most : Nat) : List Nat → Nat → Prop where
  | start : Chain width most [] 0
  | join {time last : Nat} {rest : List Nat} {n : Nat} (chain : Chain width most (last :: rest) n)
      (later : last ≤ time) (room : n + 1 ≤ most) :
      Chain width most (time :: last :: rest) (n + 1)
  | fresh {time : Nat} {times : List Nat} {n : Nat} (chain : Chain width most times n)
      (apart : ∀ t ∈ times, t + width < time) (room : 1 ≤ most) :
      Chain width most (time :: times) 1

/-- How many of the times lie between two bounds. -/
def countIn (first last : Nat) (times : List Nat) : Nat :=
  times.countP fun t => decide (first ≤ t ∧ t ≤ last)

namespace Chain

variable {width most n : Nat} {times rest : List Nat} {first last time : Nat}

theorem room_left (chain : Chain width most times n) : n ≤ most := by
  cases chain with
  | start => exact Nat.zero_le _
  | join _ _ room => exact room
  | fresh _ _ room => exact room

/-- The newest time comes first. -/
theorem newest (chain : Chain width most (time :: rest) n) : ∀ t ∈ rest, t ≤ time := by
  generalize same : time :: rest = times at chain
  induction chain generalizing time rest with
  | start => cases same
  | @join new last _ _ _ later _ ih =>
    cases same
    intro t member
    obtain here | older := List.mem_cons.mp member
    · rw [here]
      exact later
    · exact Nat.le_trans (ih rfl t older) later
  | fresh _ apart _ =>
    cases same
    intro t member
    have := apart t member
    omega

theorem countIn_eq_zero (out : ∀ t ∈ times, t < first) : countIn first last times = 0 := by
  apply List.countP_eq_zero.mpr
  intro t member
  have := out t member
  simp
  omega

/-- The invariant of the count: at most `most` times, and at most the current chain as
soon as the newest time is inside. -/
theorem countIn_le (chain : Chain width most times n) (short : last ≤ first + width) :
    countIn first last times ≤ most ∧
      ∀ time, times.head? = some time → first ≤ time → time ≤ last →
        countIn first last times ≤ n := by
  induction chain with
  | start => simp [countIn]
  | @join time newest rest n chain later room ih =>
    have count : countIn first last (time :: newest :: rest) =
        countIn first last (newest :: rest) + if first ≤ time ∧ time ≤ last then 1 else 0 := by
      simp [countIn, List.countP_cons]
    by_cases inside : first ≤ time ∧ time ≤ last
    · -- The new time counts; the older ones count only if the previous newest one does.
      have older : countIn first last (newest :: rest) ≤ n := by
        by_cases reached : first ≤ newest
        · exact ih.2 newest rfl reached (Nat.le_trans later inside.2)
        · rw [countIn_eq_zero]
          · exact Nat.zero_le _
          · intro t member
            obtain here | earlier := List.mem_cons.mp member
            · omega
            · have := chain.newest t earlier
              omega
      simp only [count, inside, and_self, if_true]
      exact ⟨by omega, fun _ _ _ _ => by omega⟩
    · simp only [count, inside, if_false]
      refine ⟨ih.1, ?_⟩
      intro t same before after
      cases same
      exact absurd ⟨before, after⟩ inside
  | @fresh time times n chain apart room ih =>
    have count : countIn first last (time :: times) =
        countIn first last times + if first ≤ time ∧ time ≤ last then 1 else 0 := by
      simp [countIn, List.countP_cons]
    by_cases inside : first ≤ time ∧ time ≤ last
    · have older : countIn first last times = 0 := by
        apply countIn_eq_zero
        intro t member
        have := apart t member
        omega
      simp only [count, inside, and_self, if_true, older]
      exact ⟨by omega, fun _ _ _ _ => by omega⟩
    · simp only [count, inside, if_false]
      refine ⟨ih.1, ?_⟩
      intro t same before after
      cases same
      exact absurd ⟨before, after⟩ inside

end Chain

end Pomade.Lib
