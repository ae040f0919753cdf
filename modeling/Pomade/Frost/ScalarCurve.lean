import Mathlib.Algebra.Field.ZMod
import Mathlib.Logic.Equiv.Basic
import Pomade.Frost.Curve

/-! # A curve and a hash to compute with

The scalars are a curve over themselves: the abscissa of a point is the smaller of
the point and its negative, except that the abscissa of the generator of secp256k1 is
given to the generator.  All that `Curve` asks for holds, so what is proved for every
curve is not vacuous, and a run of the signer can be evaluated.  The hash keeps the last
bytes of what it hashes, and so tells any two inputs apart that differ there.
-/

namespace Pomade.Frost

open Pomade.Lib

/-- The x-coordinate of the generator of secp256k1. -/
def generatorAbscissa : Nat := 0x79be667ef9dcbbac55a06295ce870b07029bfcdb2dce28d959f2815b16f81798

/-- A point up to sign. -/
def fold (k : Scalar) : Nat := min k.val (N - k.val)

def abscissa (k : Scalar) : Nat := Equiv.swap 1 generatorAbscissa (fold k)

def upperHalf (k : Scalar) : Bool := decide (N < 2 * k.val)

theorem val_neg {k : Scalar} (nonzero : k ≠ 0) : (-k).val = N - k.val := by
  rw [ZMod.neg_val, if_neg nonzero]

theorem val_pos {k : Scalar} (nonzero : k ≠ 0) : 0 < k.val :=
  Nat.pos_of_ne_zero fun zero => nonzero ((ZMod.val_eq_zero k).mp zero)

theorem fold_eq_iff (P Q : Scalar) : fold P = fold Q ↔ P = Q ∨ P = -Q := by
  have boundP := ZMod.val_lt P
  have boundQ := ZMod.val_lt Q
  constructor
  · intro same
    have cases : P.val = Q.val ∨ P.val = N - Q.val ∨ Q.val = N - P.val := by
      unfold fold at same
      omega
    by_cases zero : Q = 0
    · subst zero
      have zeroVal : (0 : Scalar).val = 0 := ZMod.val_zero
      refine .inl (ZMod.val_injective N ?_)
      omega
    · rcases cases with same | same | same
      · exact .inl (ZMod.val_injective N same)
      · exact .inr (ZMod.val_injective N (by rw [val_neg zero, same]))
      · exact .inr (ZMod.val_injective N (by rw [val_neg zero]; omega))
  · rintro (rfl | rfl)
    · rfl
    · by_cases zero : Q = 0
      · rw [zero, neg_zero]
      · unfold fold
        rw [val_neg zero]
        omega

theorem fold_cast (k : Scalar) : ((fold k : Nat) : Scalar) = k ∨ ((fold k : Nat) : Scalar) = -k := by
  unfold fold
  rcases min_choice k.val (N - k.val) with same | same
  · rw [same]
    exact .inl (ZMod.natCast_zmod_val k)
  · rw [same, Nat.cast_sub (ZMod.val_lt k).le, ZMod.natCast_zmod_val, ZMod.natCast_self, zero_sub]
    exact .inr rfl

theorem abscissa_lt_order (k : Scalar) : abscissa k < N := by
  have bound : fold k < N := lt_of_le_of_lt (min_le_left _ _) (ZMod.val_lt k)
  have generator : generatorAbscissa < N := by norm_num [generatorAbscissa, N]
  have one_lt : 1 < N := by norm_num [N]
  unfold abscissa
  by_cases one : fold k = 1
  · rw [one, Equiv.swap_apply_left]
    exact generator
  by_cases gen : fold k = generatorAbscissa
  · rw [gen, Equiv.swap_apply_right]
    exact one_lt
  · rw [Equiv.swap_apply_of_ne_of_ne one gen]
    exact bound

theorem abscissa_lt (k : Scalar) : abscissa k < 256 ^ 32 := (abscissa_lt_order k).trans N_lt

theorem upperHalf_neg (P : Scalar) (nonzero : P ≠ 0) : upperHalf (-P) = !upperHalf P := by
  have bound := ZMod.val_lt P
  have positive := val_pos nonzero
  have odd : N % 2 = 1 := by norm_num [N]
  unfold upperHalf
  rw [val_neg nonzero, ← decide_not]
  congr 1
  exact propext ⟨fun h => by omega, fun h => by omega⟩

/-- The point that has an abscissa, if there is one, with the wanted sign. -/
def pointAt (x : Bytes 32) (odd : Bool) : Option Scalar :=
  let k : Scalar := (Equiv.swap 1 generatorAbscissa x.toNat : Nat)
  if k ≠ 0 ∧ Bytes.ofNat 32 (abscissa k) = x then
    some (if upperHalf k = odd then k else -k)
  else none

theorem abscissa_eq_iff (P Q : Scalar) :
    Bytes.ofNat 32 (abscissa P) = Bytes.ofNat 32 (abscissa Q) ↔ P = Q ∨ P = -Q := by
  rw [← fold_eq_iff]
  constructor
  · intro same
    have same := congrArg Bytes.toNat same
    rw [Bytes.toNat_ofNat (abscissa_lt P), Bytes.toNat_ofNat (abscissa_lt Q)] at same
    exact (Equiv.swap 1 generatorAbscissa).injective same
  · intro same
    rw [abscissa, abscissa, same]

theorem abscissa_neg (k : Scalar) : abscissa (-k) = abscissa k := by
  rw [abscissa, abscissa, (fold_eq_iff (-k) k).mpr (Or.inr rfl)]

theorem pointAt_eq_some (x : Bytes 32) (odd : Bool) (P : Scalar) :
    pointAt x odd = some P ↔ P ≠ 0 ∧ Bytes.ofNat 32 (abscissa P) = x ∧ upperHalf P = odd := by
  unfold pointAt
  dsimp only
  constructor
  · split
    next found =>
      rintro same
      cases same
      split
      next sign => exact ⟨found.1, found.2, sign⟩
      next sign =>
        refine ⟨neg_ne_zero.mpr found.1, ?_, ?_⟩
        · rw [abscissa_neg, found.2]
        · rw [upperHalf_neg _ found.1]
          exact Bool.not_eq.mpr sign
    · nofun
  · rintro ⟨nonzero, rfl, sign⟩
    rw [Bytes.toNat_ofNat (abscissa_lt P), abscissa, Equiv.swap_apply_self]
    rcases fold_cast P with same | same
    · rw [same, if_pos ⟨nonzero, rfl⟩, if_pos sign]
    · have known : -P ≠ 0 ∧ Bytes.ofNat 32 (abscissa (-P)) =
          Bytes.ofNat 32 (Equiv.swap 1 generatorAbscissa (fold P)) :=
        ⟨neg_ne_zero.mpr nonzero, by rw [abscissa_neg]; rfl⟩
      rw [same, if_pos known, upperHalf_neg _ nonzero, sign, if_neg (by simp), neg_neg]

instance : Curve Scalar where
  generator := 1
  affineX k := Bytes.ofNat 32 (abscissa k)
  yIsOdd := upperHalf
  decompress := pointAt
  isIdentity k := decide (k = 0)
  isIdentity_iff _ := decide_eq_true_iff
  generator_ne_zero := one_ne_zero
  affineX_eq_iff := abscissa_eq_iff
  yIsOdd_neg := upperHalf_neg
  decompress_eq_some := pointAt_eq_some

/-- The digest of a text is its last bytes. -/
@[reducible] def lastBytes : Sha2 where
  sha256 message := Bytes.ofNat 32 (bytesToNat message)
  expandMessage message _ := Bytes.ofNat 48 (bytesToNat message)

end Pomade.Frost
