import Mathlib.Data.List.Basic
import Mathlib.Logic.Function.Basic

/-! # A memo table whose values come later

A call looks its key up and returns what it finds.  If there is nothing it can use, it waits for
its value, and writes it into the table when it comes.  Any number of calls may wait at a time,
also under one key.  The key need not determine the input.
-/

namespace Pomade.Lib

structure Memo (I K V : Type) where
  table : K → Option V
  pending : List I
  /-- The calls that have written to the table, newest first. -/
  finished : List I
  returned : List (I × V)

namespace Memo

inductive Event (I : Type) where
  | call (input : I)
  | resolve (i : Nat)
  | reject (i : Nat)

variable {I K V : Type}

def start : Memo I K V := { table := fun _ => none, pending := [], finished := [], returned := [] }

section Step

variable [DecidableEq K] (key : I → K) (value : I → V) (usable : V → Bool)

def step (m : Memo I K V) : Event I → Memo I K V
  | .call input =>
    match (m.table (key input)).filter usable with
    | some found => { m with returned := (input, found) :: m.returned }
    | none => { m with pending := m.pending ++ [input] }
  | .resolve i =>
    match m.pending[i]? with
    | some input =>
      { table := Function.update m.table (key input) (some (value input))
        pending := m.pending.eraseIdx i
        finished := input :: m.finished
        returned := (input, value input) :: m.returned }
    | none => m
  | .reject i => { m with pending := m.pending.eraseIdx i }

/-- The call that wrote the entry of a key. -/
def last (m : Memo I K V) (k : K) : Option I := m.finished.find? fun input => key input = k

/-- Every call so far has returned its own value. -/
def Correct (m : Memo I K V) : Prop := ∀ result ∈ m.returned, result.2 = value result.1

/-- A call that would use an entry has the value of the call that wrote it. -/
def Safe (m : Memo I K V) : Event I → Prop
  | .call input => ∀ earlier, m.last key (key input) = some earlier →
      usable (value earlier) = true → value earlier = value input
  | _ => True

/-! ## The entries -/

/-- An entry is the value of the call that wrote it. -/
def Filled (m : Memo I K V) : Prop := ∀ k, m.table k = (m.last key k).map value

theorem filled_start : Filled key value (start : Memo I K V) := fun _ => rfl

variable {key value usable}

variable (usable) in
theorem filled_step {m : Memo I K V} (filled : Filled key value m) (e : Event I) :
    Filled key value (step key value usable m e) := by
  intro k
  cases e with
  | call input =>
    simp only [step]
    cases (m.table (key input)).filter usable with
    | some found => exact filled k
    | none => exact filled k
  | reject i => exact filled k
  | resolve i =>
    simp only [step]
    cases m.pending[i]? with
    | none => exact filled k
    | some input =>
      by_cases same : key input = k
      · subst same
        simp [last]
      · have other : k ≠ key input := fun equal => same equal.symm
        simp only [last, List.find?_cons_of_neg, decide_eq_true_eq, same, not_false_eq_true,
          Function.update_of_ne other]
        exact filled k

/-! ## One step -/

theorem step_found {m : Memo I K V} {input : I} {found : V}
    (entry : (m.table (key input)).filter usable = some found) :
    step key value usable m (.call input) =
      { m with returned := (input, found) :: m.returned } := by
  simp only [step, entry]

theorem step_missing {m : Memo I K V} {input : I}
    (entry : (m.table (key input)).filter usable = none) :
    step key value usable m (.call input) = { m with pending := m.pending ++ [input] } := by
  simp only [step, entry]

/-- What a call returns at once is the value of the call that wrote the entry. -/
theorem correct_call {m : Memo I K V} (filled : Filled key value m) (input : I) :
    Correct value (step key value usable m (.call input)) ↔
      Correct value m ∧ Safe key value usable m (.call input) := by
  have entry := filled (key input)
  cases wrote : m.last key (key input) with
  | none =>
    rw [wrote] at entry
    rw [step_missing (by rw [entry]; rfl)]
    simp [Correct, Safe, wrote]
  | some earlier =>
    rw [wrote] at entry
    cases use : usable (value earlier) with
    | false =>
      rw [step_missing (by simp [entry, use])]
      simp [Correct, Safe, wrote, use]
    | true =>
      have hit : (m.table (key input)).filter usable = some (value earlier) := by
        simp [entry, use]
      rw [step_found hit]
      simp [Correct, Safe, wrote, use, and_comm]

variable (usable) in
theorem correct_step {m : Memo I K V} (filled : Filled key value m) (e : Event I) :
    Correct value (step key value usable m e) ↔
      Correct value m ∧ Safe key value usable m e := by
  cases e with
  | call input => exact correct_call filled input
  | reject i => simp [step, Correct, Safe]
  | resolve i =>
    simp only [step, Safe]
    cases m.pending[i]? with
    | none => simp
    | some input => simp [Correct]

end Step

end Memo

end Pomade.Lib
