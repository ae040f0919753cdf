import Mathlib.Data.List.Prime
import Mathlib.NumberTheory.LucasPrimality

/-! # Primality by Lucas certificates

A number `p` is prime as soon as some `a` has order exactly `p - 1` modulo `p`.
`LucasCertificate` is the executable form of that test: the prime factors of
`p - 1` are listed, and the powers are computed by squaring, so a 256-bit prime
costs a few hundred products per factor.
-/

namespace Pomade.Lib

/-- Square-and-multiply with an accumulator; `fuel` bounds the bits of `exp`. -/
def powModLoop (modulus : Nat) : Nat → Nat → Nat → Nat → Nat
  | 0, acc, _, _ => acc % modulus
  | fuel + 1, acc, base, exp =>
    powModLoop modulus fuel (if exp % 2 = 1 then acc * base % modulus else acc)
      (base * base % modulus) (exp / 2)

theorem powModLoop_eq (modulus fuel acc base exp : Nat) (bound : exp < 2 ^ fuel) :
    powModLoop modulus fuel acc base exp = acc * base ^ exp % modulus := by
  induction fuel generalizing acc base exp with
  | zero =>
    have : exp = 0 := by simpa using bound
    simp [powModLoop, this]
  | succ fuel ih =>
    have half : exp / 2 < 2 ^ fuel := by rw [pow_succ] at bound; omega
    have square : ∀ x, x * (base * base % modulus) ^ (exp / 2) % modulus =
        x * base ^ (2 * (exp / 2)) % modulus := by
      intro x
      rw [Nat.mul_mod, ← Nat.pow_mod, ← Nat.mul_mod, pow_mul, pow_two]
    rw [powModLoop, ih _ _ _ half, square]
    rcases Nat.mod_two_eq_zero_or_one exp with even | odd
    · have split : exp = 2 * (exp / 2) := by omega
      rw [if_neg (by omega), ← split]
    · have split : exp = 2 * (exp / 2) + 1 := by omega
      rw [if_pos odd]
      conv_rhs => rw [split, pow_succ', ← mul_assoc]
      exact Nat.mod_mul_mod _ _ _

def powMod (modulus base exp : Nat) : Nat := powModLoop modulus (exp.log2 + 1) 1 base exp

theorem powMod_eq (modulus base exp : Nat) : powMod modulus base exp = base ^ exp % modulus := by
  rw [powMod, powModLoop_eq _ _ _ _ _ Nat.lt_log2_self, one_mul]

/-- The conditions of Lucas' test for `p` with base `a`, where `factors` lists the
prime factors of `p - 1` with repetition. -/
structure LucasCertificate (p a : Nat) (factors : List Nat) : Prop where
  two_le : 2 ≤ p
  product : factors.prod = p - 1
  full_power : powMod p a (p - 1) = 1
  partial_powers : ∀ q ∈ factors, powMod p a ((p - 1) / q) ≠ 1

instance (p a : Nat) (factors : List Nat) : Decidable (LucasCertificate p a factors) :=
  decidable_of_iff
    (2 ≤ p ∧ factors.prod = p - 1 ∧ powMod p a (p - 1) = 1 ∧
      ∀ q ∈ factors, powMod p a ((p - 1) / q) ≠ 1)
    ⟨fun h => ⟨h.1, h.2.1, h.2.2.1, h.2.2.2⟩, fun h => ⟨h.1, h.2, h.3, h.4⟩⟩

theorem natCast_pow_eq_one_iff {p : Nat} (two_le : 2 ≤ p) (a n : Nat) :
    (a : ZMod p) ^ n = 1 ↔ powMod p a n = 1 := by
  rw [powMod_eq, ← Nat.cast_pow, ← Nat.cast_one, ZMod.natCast_eq_natCast_iff',
    Nat.mod_eq_of_lt (show 1 < p by omega)]

/-- A certified number is prime once its listed factors are. -/
theorem LucasCertificate.prime {p a : Nat} {factors : List Nat}
    (certificate : LucasCertificate p a factors) (primes : ∀ q ∈ factors, q.Prime) :
    p.Prime := by
  refine lucas_primality p (a : ZMod p) ?_ ?_
  · exact (natCast_pow_eq_one_iff certificate.two_le _ _).mpr certificate.full_power
  · intro q prime divides
    rw [← certificate.product] at divides
    obtain ⟨factor, member, divides⟩ := (Prime.dvd_prod_iff prime.prime).mp divides
    have same : q = factor := (Nat.prime_dvd_prime_iff_eq prime (primes factor member)).mp divides
    rw [ne_eq, natCast_pow_eq_one_iff certificate.two_le, same]
    exact certificate.partial_powers factor member

end Pomade.Lib
