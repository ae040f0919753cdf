import Mathlib.Tactic.NormNum.Prime
import Pomade.Go.Session
import Pomade.Lib.SquareRoot

/-! # The field of secp256k1

The field prime is prime and three modulo four, so that a root is a power, and minus seven is
not a cube, so that no point has the y-coordinate zero.
-/

namespace Pomade.Go

open Pomade.Lib

/-! ## The prime -/

theorem prime_173378833005251801 : Nat.Prime 173378833005251801 := by
  have certificate : LucasCertificate 173378833005251801 6
      [2, 2, 2, 5, 5, 2621, 24809, 13331831] := by
    decide +kernel
  refine certificate.prime ?_
  simp only [List.forall_mem_cons, List.not_mem_nil, false_implies, implies_true, and_true]
  norm_num

theorem prime_22149492674086928081353 : Nat.Prime 22149492674086928081353 := by
  have certificate : LucasCertificate 22149492674086928081353 5
      [2, 2, 2, 3, 5323, 173378833005251801] := by
    decide +kernel
  refine certificate.prime ?_
  simp only [List.forall_mem_cons, List.not_mem_nil, false_implies, implies_true, and_true,
    prime_173378833005251801]
  norm_num

theorem prime_132896956044521568488119 : Nat.Prime 132896956044521568488119 := by
  have certificate : LucasCertificate 132896956044521568488119 6
      [2, 3, 22149492674086928081353] := by
    decide +kernel
  refine certificate.prime ?_
  simp only [List.forall_mem_cons, List.not_mem_nil, false_implies, implies_true, and_true,
    prime_22149492674086928081353]
  norm_num

theorem prime_255515944373312847190720520512484175977 :
    Nat.Prime 255515944373312847190720520512484175977 := by
  have certificate : LucasCertificate 255515944373312847190720520512484175977 3
      [2, 2, 2, 7, 7, 11, 1627, 2657, 4423, 41201, 96557, 7240687, 107590001] := by
    decide +kernel
  refine certificate.prime ?_
  simp only [List.forall_mem_cons, List.not_mem_nil, false_implies, implies_true, and_true]
  norm_num

theorem prime_205115282021455665897114700593932402728804164701536103180137503955397371 :
    Nat.Prime 205115282021455665897114700593932402728804164701536103180137503955397371 := by
  have certificate : LucasCertificate
      205115282021455665897114700593932402728804164701536103180137503955397371 10
      [2, 3, 5, 29, 29, 31, 7723, 132896956044521568488119,
        255515944373312847190720520512484175977] := by
    decide +kernel
  refine certificate.prime ?_
  simp only [List.forall_mem_cons, List.not_mem_nil, false_implies, implies_true, and_true,
    prime_132896956044521568488119, prime_255515944373312847190720520512484175977]
  norm_num

theorem secp256k1P_prime : Nat.Prime secp256k1P := by
  have certificate : LucasCertificate secp256k1P 3
      [2, 3, 7, 13441,
        205115282021455665897114700593932402728804164701536103180137503955397371] := by
    decide +kernel
  refine certificate.prime ?_
  simp only [List.forall_mem_cons, List.not_mem_nil, false_implies, implies_true, and_true,
    prime_205115282021455665897114700593932402728804164701536103180137503955397371]
  norm_num

instance : Fact secp256k1P.Prime := ⟨secp256k1P_prime⟩

/-! ## Roots -/

theorem secp256k1P_shape : secp256k1P % 4 = 3 := by simp [secp256k1P]

/-- Minus seven is not a cube. -/
theorem cube_add_seven_ne_zero (x : Nat) : (x ^ 3 + 7) % secp256k1P ≠ 0 := by
  intro zero
  have cube : (x : ZMod secp256k1P) ^ 3 = ((secp256k1P - 7 : Nat) : ZMod secp256k1P) := by
    have seven : 7 ≤ secp256k1P := by decide +kernel
    have sum : ((x ^ 3 + 7 : Nat) : ZMod secp256k1P) = 0 := by
      rw [ZMod.natCast_eq_zero_iff]
      exact Nat.dvd_of_mod_eq_zero zero
    rw [Nat.cast_sub seven, ZMod.natCast_self, zero_sub, eq_neg_iff_add_eq_zero]
    exact_mod_cast sum
  have nonzero : (x : ZMod secp256k1P) ≠ 0 := by
    intro none
    rw [none, zero_pow (by simp), eq_comm, ZMod.natCast_eq_zero_iff] at cube
    exact absurd cube (by decide +kernel)
  have exponent : secp256k1P - 1 = 3 * ((secp256k1P - 1) / 3) := by decide +kernel
  have one := ZMod.pow_card_sub_one_eq_one nonzero
  rw [exponent, pow_mul, cube, natCast_pow_eq_one_iff secp256k1P_prime.two_le] at one
  exact absurd one (by decide +kernel)

end Pomade.Go
