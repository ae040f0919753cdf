import Mathlib.Tactic.NormNum.Prime
import Mathlib.FieldTheory.Finite.Basic
import Pomade.Lib.Bytes
import Pomade.Lib.Lucas

/-! # The scalar field of secp256k1

The scalar half of `ecc/util.rs` and `ecc/group.rs`.  A `k256::Scalar` is an
integer modulo the group order `N`, so the type here is `ZMod N`, and the field
structure comes from a primality certificate for `N`.
-/

namespace Pomade.Frost

open Pomade.Lib

/-- Secp256k1 group order N. -/
def N : Nat := 0xfffffffffffffffffffffffffffffffebaaedce6af48a03bbfd25e8cd0364141

/-! ## The order is prime -/

theorem prime_545358713 : Nat.Prime 545358713 := by
  have certificate : LucasCertificate 545358713 5 [2, 2, 2, 41, 59, 28181] := by
    decide +kernel
  refine certificate.prime ?_
  simp only [List.forall_mem_cons, List.not_mem_nil, false_implies, implies_true, and_true]
  norm_num

theorem prime_297159362677 : Nat.Prime 297159362677 := by
  have certificate : LucasCertificate 297159362677 2 [2, 2, 3, 3, 11, 461, 1627771] := by
    decide +kernel
  refine certificate.prime ?_
  simp only [List.forall_mem_cons, List.not_mem_nil, false_implies, implies_true, and_true]
  norm_num

theorem prime_29047611873442575647497758179 : Nat.Prime 29047611873442575647497758179 := by
  have certificate : LucasCertificate 29047611873442575647497758179 2
      [2, 293, 305873, 545358713, 297159362677] := by
    decide +kernel
  refine certificate.prime ?_
  simp only [List.forall_mem_cons, List.not_mem_nil, false_implies, implies_true, and_true,
    prime_545358713, prime_297159362677]
  norm_num

theorem prime_341948486974166000522343609283189 :
    Nat.Prime 341948486974166000522343609283189 := by
  have certificate : LucasCertificate 341948486974166000522343609283189 2
      [2, 2, 3, 3, 3, 109, 29047611873442575647497758179] := by
    decide +kernel
  refine certificate.prime ?_
  simp only [List.forall_mem_cons, List.not_mem_nil, false_implies, implies_true, and_true,
    prime_29047611873442575647497758179]
  norm_num

theorem prime_174723607534414371449 : Nat.Prime 174723607534414371449 := by
  have certificate : LucasCertificate 174723607534414371449 3
      [2, 2, 2, 17, 59, 4051, 120233, 44706919] := by
    decide +kernel
  refine certificate.prime ?_
  simp only [List.forall_mem_cons, List.not_mem_nil, false_implies, implies_true, and_true]
  norm_num

theorem prime_107361793816595537 : Nat.Prime 107361793816595537 := by
  have certificate : LucasCertificate 107361793816595537 3
      [2, 2, 2, 2, 16699, 85831, 4681609] := by
    decide +kernel
  refine certificate.prime ?_
  simp only [List.forall_mem_cons, List.not_mem_nil, false_implies, implies_true, and_true]
  norm_num

theorem N_prime : Nat.Prime N := by
  have certificate : LucasCertificate N 7
      [2, 2, 2, 2, 2, 2, 3, 149, 631, 107361793816595537, 174723607534414371449,
        341948486974166000522343609283189] := by
    decide +kernel
  refine certificate.prime ?_
  simp only [List.forall_mem_cons, List.not_mem_nil, false_implies, implies_true, and_true,
    prime_107361793816595537, prime_174723607534414371449,
    prime_341948486974166000522343609283189]
  norm_num

instance : Fact N.Prime := ⟨N_prime⟩

abbrev Scalar : Type := ZMod N

/-! ## Scalar operations -/

/-- Reduce a 256-bit integer mod N into a Scalar. -/
def modN (value : Nat) : Scalar := value

/-- Scalar from raw bytes, reduced mod N. -/
def scalarFromBytes (bytes : Bytes 32) : Scalar := modN bytes.toNat

/-- Scalar to big-endian bytes. -/
def scalarToBytes (s : Scalar) : Bytes 32 := Bytes.ofNat 32 s.val

/-- Serialize a scalar index (u32) as a 32-byte big-endian value. -/
def serializeScalarU32 (idx : UInt32) : Bytes 32 := Bytes.ofNat 32 idx.toNat

/-- Convert a u32 participant index to a Scalar. -/
def indexToScalar (idx : UInt32) : Scalar := scalarFromBytes (serializeScalarU32 idx)

/-- The loop of `pow_n`: `result *= b` on odd exponents, then square and halve. -/
def powNLoop (result b : Scalar) (e : Nat) : Scalar :=
  if e = 0 then result
  else powNLoop (if e % 2 = 1 then result * b else result) (b * b) (e / 2)
termination_by e
decreasing_by omega

/-- Compute base^exp mod N using repeated squaring. -/
def powN (base exp : Nat) : Scalar := powNLoop 1 (modN base) exp

/-! ## What the operations compute -/

theorem N_lt : N < 256 ^ 32 := by norm_num [N]

theorem u32_lt_N (idx : UInt32) : idx.toNat < N :=
  lt_trans idx.toNat_lt (by norm_num [N])

@[simp] theorem scalarFromBytes_scalarToBytes (s : Scalar) :
    scalarFromBytes (scalarToBytes s) = s := by
  have bound : s.val < 256 ^ 32 := lt_trans (ZMod.val_lt s) N_lt
  rw [scalarFromBytes, scalarToBytes, Bytes.toNat_ofNat bound, modN, ZMod.natCast_zmod_val]

theorem indexToScalar_eq (idx : UInt32) : indexToScalar idx = (idx.toNat : Scalar) := by
  rw [indexToScalar, scalarFromBytes, serializeScalarU32,
    Bytes.toNat_ofNat (lt_trans (u32_lt_N idx) N_lt), modN]

theorem indexToScalar_injective : Function.Injective indexToScalar := by
  intro a b h
  rw [indexToScalar_eq, indexToScalar_eq, ZMod.natCast_eq_natCast_iff',
    Nat.mod_eq_of_lt (u32_lt_N a), Nat.mod_eq_of_lt (u32_lt_N b)] at h
  exact UInt32.toNat_inj.mp h

theorem indexToScalar_eq_zero {idx : UInt32} : indexToScalar idx = 0 ↔ idx = 0 := by
  have zero : indexToScalar 0 = 0 := by rw [indexToScalar_eq]; rfl
  rw [← zero, indexToScalar_injective.eq_iff]

theorem powNLoop_eq (result b : Scalar) (e : Nat) : powNLoop result b e = result * b ^ e := by
  induction e using Nat.strong_induction_on generalizing result b with
  | h e ih =>
    by_cases zero : e = 0
    · rw [powNLoop, if_pos zero, zero, pow_zero, mul_one]
    have square : (b * b) ^ (e / 2) = b ^ (2 * (e / 2)) := by rw [← pow_two, ← pow_mul]
    rw [powNLoop, if_neg zero, ih (e / 2) (by omega), square]
    rcases Nat.mod_two_eq_zero_or_one e with even | odd
    · have split : 2 * (e / 2) = e := by omega
      rw [if_neg (by omega), split]
    · have split : e = 2 * (e / 2) + 1 := by omega
      rw [if_pos odd]
      conv_rhs => rw [split, pow_succ', ← mul_assoc]

theorem powN_eq (base exp : Nat) : powN base exp = (base : Scalar) ^ exp := by
  rw [powN, powNLoop_eq, one_mul, modN]

theorem powN_index (idx : UInt32) (exp : Nat) : powN idx.toNat exp = indexToScalar idx ^ exp := by
  rw [powN_eq, indexToScalar_eq]

end Pomade.Frost
