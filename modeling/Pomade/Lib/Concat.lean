import Mathlib.Data.List.Basic
import Mathlib.Tactic.TypeStar

/-! # Taking concatenations apart

A hash input is mostly a concatenation without delimiters.  It can be taken apart as far as
the lengths of the pieces are known: here, of the encodings of the items of a list.
-/

namespace Pomade.Lib

variable {α β γ : Type*}

/-- Encodings of the same lengths, one by one, can be told apart whatever follows them. -/
theorem flatMap_append_inj {encode : α → List β} (injective : Function.Injective encode)
    {xs ys : List α} {rest rest' : List β}
    (same : xs.map (fun x => (encode x).length) = ys.map fun y => (encode y).length)
    (joined : xs.flatMap encode ++ rest = ys.flatMap encode ++ rest') : xs = ys ∧ rest = rest' := by
  induction xs generalizing ys with
  | nil =>
    cases ys with
    | nil => exact ⟨rfl, joined⟩
    | cons y ys => cases same
  | cons x xs ih =>
    cases ys with
    | nil => cases same
    | cons y ys =>
      rw [List.map_cons, List.map_cons, List.cons.injEq] at same
      rw [List.flatMap_cons, List.flatMap_cons, List.append_assoc, List.append_assoc] at joined
      obtain ⟨head, tail⟩ := List.append_inj joined same.1
      obtain ⟨items, after⟩ := ih same.2 tail
      exact ⟨by rw [injective head, items], after⟩

/-- Encodings of one length can be told apart if their number is known. -/
theorem flatMap_append_inj_of_length {encode : α → List β} (injective : Function.Injective encode)
    {width : Nat} (fixed : ∀ a, (encode a).length = width) {xs ys : List α} {rest rest' : List β}
    (count : xs.length = ys.length)
    (joined : xs.flatMap encode ++ rest = ys.flatMap encode ++ rest') : xs = ys ∧ rest = rest' := by
  refine flatMap_append_inj injective ?_ joined
  simp only [fixed, List.map_const', count]

theorem length_flatMap_of_fixed {encode : α → List β} {width : Nat}
    (fixed : ∀ a, (encode a).length = width) (xs : List α) :
    (xs.flatMap encode).length = xs.length * width := by
  induction xs with
  | nil => simp
  | cons x xs ih =>
    rw [List.flatMap_cons, List.length_append, ih, fixed, List.length_cons, Nat.succ_mul, Nat.add_comm]

/-- Nonempty encodings of one length can be told apart if nothing follows them. -/
theorem flatMap_inj_of_fixed {encode : α → List β} (injective : Function.Injective encode)
    {width : Nat} (positive : 0 < width) (fixed : ∀ a, (encode a).length = width) {xs ys : List α}
    (joined : xs.flatMap encode = ys.flatMap encode) : xs = ys := by
  have count : xs.length = ys.length := by
    have lengths := congrArg List.length joined
    rw [length_flatMap_of_fixed fixed, length_flatMap_of_fixed fixed] at lengths
    exact Nat.eq_of_mul_eq_mul_right positive lengths
  have ended : xs.flatMap encode ++ [] = ys.flatMap encode ++ [] := by rw [joined]
  exact (flatMap_append_inj_of_length injective fixed count ended).1

end Pomade.Lib
