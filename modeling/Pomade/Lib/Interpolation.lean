import Mathlib.Algebra.Module.BigOperators
import Mathlib.LinearAlgebra.Lagrange

/-! # Interpolation at a list of places

Mathlib interpolates over a finite set of nodes.  Programs hold their nodes in a list, skip
the node they are at, and multiply numerators and denominators as they go.  `weight` is
that computation, and `sum_weight` says what the weighted sum of the values of a
polynomial is, at any place.
-/

namespace Pomade.Lib

open Polynomial

section Polynomials

variable {K : Type*} [CommRing K]

/-- Horner's rule, the coefficients in ascending order. -/
def horner (coeffs : List K) (x : K) : K :=
  coeffs.foldr (fun coeff value => value * x + coeff) 0

/-- The polynomial of a list of coefficients. -/
noncomputable def listPolynomial (coeffs : List K) : K[X] :=
  coeffs.foldr (fun coeff p => p * X + C coeff) 0

theorem eval_listPolynomial (coeffs : List K) (x : K) :
    (listPolynomial coeffs).eval x = horner coeffs x := by
  induction coeffs with
  | nil => simp [listPolynomial, horner]
  | cons coeff coeffs ih =>
    have step : listPolynomial (coeff :: coeffs) = listPolynomial coeffs * X + C coeff := rfl
    rw [step, eval_add, eval_mul, eval_X, eval_C, ih]
    rfl

theorem degree_listPolynomial (coeffs : List K) :
    (listPolynomial coeffs).degree < coeffs.length := by
  induction coeffs with
  | nil => simp [listPolynomial]
  | cons coeff coeffs ih =>
    have step : listPolynomial (coeff :: coeffs) = listPolynomial coeffs * X + C coeff := rfl
    rw [step]
    refine lt_of_le_of_lt (degree_add_le _ _) (max_lt ?_ ?_)
    · refine lt_of_le_of_lt (degree_mul_le _ _) ?_
      refine lt_of_le_of_lt (add_le_add le_rfl degree_X_le) ?_
      rw [List.length_cons, Nat.cast_add, Nat.cast_one]
      exact WithBot.add_lt_add_right (by simp) ih
    · refine lt_of_le_of_lt degree_C_le ?_
      rw [List.length_cons]
      exact_mod_cast Nat.succ_pos _

theorem horner_zero (coeffs : List K) : horner coeffs 0 = coeffs.head?.getD 0 := by
  cases coeffs <;> simp [horner]

end Polynomials

section Weights

variable {K : Type*} [Field K] [DecidableEq K]

/-- The places of a list but for one. -/
def others (places : List K) (p : K) : List K := places.filter fun q => decide (q ≠ p)

/-- The Lagrange weight of a place `p` among `places`, at `x`. -/
def weight (places : List K) (p x : K) : K :=
  ((others places p).map fun q => x - q).prod * (((others places p).map fun q => p - q).prod)⁻¹

variable {places : List K} {p x : K}

omit [Field K] in
theorem mem_others {q : K} : q ∈ others places p ↔ q ∈ places ∧ q ≠ p := by
  simp [others]

omit [DecidableEq K] in
theorem prod_map_ne_zero (l : List K) (f : K → K) (nonzero : ∀ q ∈ l, f q ≠ 0) :
    (l.map f).prod ≠ 0 := by
  rw [Ne, List.prod_eq_zero_iff, List.mem_map]
  rintro ⟨q, member, zero⟩
  exact nonzero q member zero

theorem denominator_ne_zero : ((others places p).map fun q => p - q).prod ≠ 0 := by
  apply prod_map_ne_zero
  intro q member
  exact sub_ne_zero.mpr (mem_others.mp member).2.symm

theorem weight_ne_zero (outside : ∀ q ∈ places, q ≠ p → q ≠ x) : weight places p x ≠ 0 := by
  apply mul_ne_zero
  · apply prod_map_ne_zero
    intro q member
    obtain ⟨here, other⟩ := mem_others.mp member
    exact sub_ne_zero.mpr (outside q here other).symm
  · exact inv_ne_zero denominator_ne_zero

/-- The weight vanishes at the other places only. -/
theorem weight_eq_zero_iff : weight places p x = 0 ↔ x ∈ others places p := by
  rw [weight, mul_eq_zero, or_iff_left (inv_ne_zero denominator_ne_zero), List.prod_eq_zero_iff,
    List.mem_map]
  constructor
  · rintro ⟨q, member, zero⟩
    rwa [sub_eq_zero.mp zero]
  · intro member
    exact ⟨x, member, sub_self x⟩

theorem weight_perm {places' : List K} (perm : places.Perm places') :
    weight places p x = weight places' p x := by
  have same : (others places p).Perm (others places' p) := perm.filter _
  rw [weight, weight, (same.map _).prod_eq, (same.map _).prod_eq]

/-- A place that is left out makes no difference to its own weight. -/
theorem weight_others : weight (others places p) p x = weight places p x := by
  have same : others (others places p) p = others places p := by simp [others]
  rw [weight, weight, same]

/-- Both products may be taken with the opposite sign. -/
theorem weight_neg :
    ((others places p).map fun q => q - x).prod * (((others places p).map fun q => q - p).prod)⁻¹ =
      weight places p x := by
  have flip : ∀ (l : List K) (y : K), (l.map fun q => q - y).prod =
      (-1) ^ l.length * (l.map fun q => y - q).prod := by
    intro l y
    induction l with
    | nil => simp
    | cons q l ih =>
      simp only [List.map_cons, List.prod_cons, List.length_cons, pow_succ, ih]
      ring
  have unit : ((-1 : K) ^ (others places p).length) ≠ 0 := pow_ne_zero _ (neg_ne_zero.mpr one_ne_zero)
  rw [flip, flip, mul_inv, weight]
  field_simp

theorem weight_eq_basis (nodup : places.Nodup) :
    weight places p x = (Lagrange.basis places.toFinset id p).eval x := by
  have set : (others places p).toFinset = places.toFinset.erase p := by
    ext q
    simp [others, and_comm]
  have listed : (others places p).Nodup := nodup.filter _
  rw [Lagrange.basis, eval_prod, ← set, List.prod_toFinset _ listed, weight]
  have factor : (fun q => (Lagrange.basisDivisor (id p) (id q)).eval x) =
      fun q => (x - q) * (p - q)⁻¹ := by
    funext q
    simp [Lagrange.basisDivisor, mul_comm]
  rw [factor, List.prod_map_mul, List.prod_inv, List.map_map]
  rfl

/-- The value of a polynomial anywhere is the weighted sum of its values at enough
places. -/
theorem sum_weight {f : K[X]} (nodup : places.Nodup) (small : f.degree < places.length) (x : K) :
    (places.map fun p => weight places p x * f.eval p).sum = f.eval x := by
  have size : f.degree < (places.toFinset.card : WithBot ℕ) := by
    rwa [List.toFinset_card_of_nodup nodup]
  have interpolated := Lagrange.eq_interpolate_of_eval_eq (v := id) (s := places.toFinset)
    (fun p => f.eval p) (Set.injOn_id _) size (fun _ _ => rfl)
  conv_rhs => rw [interpolated, Lagrange.interpolate_apply, eval_finsetSum,
    List.sum_toFinset _ nodup]
  congr 1
  apply List.map_congr_left
  intro p _
  rw [eval_mul, eval_C, weight_eq_basis nodup, mul_comm]

end Weights

section Exponent

variable {K M : Type*} [Field K] [DecidableEq K] [AddCommGroup M] [Module K M]

/-- The value at `x` of the polynomial whose coefficients are vectors, in ascending order. -/
def evalVectors (vectors : List M) (x : K) : M := (vectors.mapIdx fun j C => x ^ j • C).sum

omit [DecidableEq K] in
theorem evalVectors_concat (vectors : List M) (C : M) (x : K) :
    evalVectors (vectors ++ [C]) x = evalVectors vectors x + x ^ vectors.length • C := by
  simp [evalVectors, List.mapIdx_append]

omit [DecidableEq K] in
theorem evalVectors_zero (vectors : List M) :
    evalVectors vectors (0 : K) = vectors.head?.getD 0 := by
  induction vectors using List.reverseRecOn with
  | nil => simp [evalVectors]
  | append_singleton vectors C ih =>
    rw [evalVectors_concat, ih]
    cases vectors with
    | nil => simp
    | cons first vectors => simp

/-- Interpolating vectors goes as interpolating their coordinates. -/
theorem sum_weight_smul {places : List K} (nodup : places.Nodup) {vectors : List M}
    (small : vectors.length ≤ places.length) (x : K) :
    (places.map fun p => weight places p x • evalVectors vectors p).sum = evalVectors vectors x := by
  induction vectors using List.reverseRecOn with
  | nil => simp [evalVectors]
  | append_singleton vectors C ih =>
    rw [List.length_append, List.length_singleton] at small
    have power : (places.map fun p => weight places p x * p ^ vectors.length).sum =
        x ^ vectors.length := by
      have degree : (X ^ vectors.length : K[X]).degree < places.length := by
        rw [degree_X_pow]
        exact_mod_cast small
      simpa using sum_weight nodup degree x
    have last : (places.map fun p => weight places p x • p ^ vectors.length • C).sum =
        x ^ vectors.length • C := by
      rw [← power, List.sum_smul, List.map_map]
      simp only [Function.comp_def, mul_smul]
    simp only [evalVectors_concat, smul_add, List.sum_map_add]
    rw [ih (by omega), last]

end Exponent

end Pomade.Lib
