import Mathlib.FieldTheory.Finite.Basic
import Pomade.Lib.Lucas

/-! # Square roots modulo a prime

Modulo a prime that is three modulo four a root of a square is a power of it, and every number
has at most two roots, each the negative of the other.
-/

namespace Pomade.Lib

/-- A root of `x` modulo a prime that is three modulo four, if there is one. -/
def modSqrt (x p : Nat) : Option Nat :=
  if powMod p x ((p + 1) / 4) * powMod p x ((p + 1) / 4) % p = x % p then
    some (powMod p x ((p + 1) / 4))
  else none

variable {p : Nat}

/-- Numbers are equal modulo `p` if their classes are. -/
theorem mod_eq_iff (a b : Nat) : a % p = b % p ↔ (a : ZMod p) = b :=
  (ZMod.natCast_eq_natCast_iff' a b p).symm

theorem opposite_square {y : Nat} (less : y ≤ p) : (p - y) * (p - y) % p = y * y % p := by
  rw [mod_eq_iff, Nat.cast_mul, Nat.cast_mul, Nat.cast_sub less, ZMod.natCast_self, zero_sub,
    neg_mul_neg]

theorem modSqrt_some (positive : 0 < p) {x y : Nat} (root : modSqrt x p = some y) :
    y < p ∧ y * y % p = x % p := by
  rw [modSqrt] at root
  by_cases square : powMod p x ((p + 1) / 4) * powMod p x ((p + 1) / 4) % p = x % p
  · rw [if_pos square] at root
    cases root
    refine ⟨?_, square⟩
    rw [powMod_eq]
    exact Nat.mod_lt _ positive
  · rw [if_neg square] at root
    cases root

variable [Fact p.Prime]

/-- The power of a square is a root of it. -/
theorem root_of_square (shape : p % 4 = 3) (y : ZMod p) :
    (y * y) ^ ((p + 1) / 4) * (y * y) ^ ((p + 1) / 4) = y * y := by
  have exponent : 4 * ((p + 1) / 4) = p + 1 := by omega
  calc (y * y) ^ ((p + 1) / 4) * (y * y) ^ ((p + 1) / 4)
      = y ^ (4 * ((p + 1) / 4)) := by ring
    _ = y ^ p * y := by rw [exponent, pow_succ]
    _ = y * y := by rw [ZMod.pow_card]

/-- Nothing is returned for what has no root. -/
theorem modSqrt_none (shape : p % 4 = 3) {x : Nat} (missing : modSqrt x p = none) (y : Nat) :
    y * y % p ≠ x % p := by
  intro square
  rw [modSqrt] at missing
  by_cases found : powMod p x ((p + 1) / 4) * powMod p x ((p + 1) / 4) % p = x % p
  · rw [if_pos found] at missing
    cases missing
  · apply found
    rw [mod_eq_iff, Nat.cast_mul] at square
    rw [mod_eq_iff, powMod_eq, Nat.cast_mul, ZMod.natCast_mod, Nat.cast_pow, ← square,
      root_of_square shape]

/-- Two roots of a number other than zero are equal or opposite. -/
theorem eq_or_opposite {y z : Nat} (less : y < p) (less' : z < p) (nonzero : 0 < y)
    (same : y * y % p = z * z % p) : y = z ∨ y + z = p := by
  rw [mod_eq_iff, Nat.cast_mul, Nat.cast_mul, mul_self_eq_mul_self_iff] at same
  cases same with
  | inl equal =>
    rw [← mod_eq_iff, Nat.mod_eq_of_lt less, Nat.mod_eq_of_lt less'] at equal
    exact .inl equal
  | inr opposite =>
    rw [eq_neg_iff_add_eq_zero, ← Nat.cast_add, ZMod.natCast_eq_zero_iff] at opposite
    -- The sum is below twice the prime.
    have whole : (y + z) / p = 1 := Nat.div_eq_of_lt_le (by
      have := Nat.le_of_dvd (by omega) opposite
      omega) (by omega)
    have sum := Nat.div_mul_cancel opposite
    rw [whole, one_mul] at sum
    exact .inr sum.symm

end Pomade.Lib
