import Pomade.Go.Taproot
import Pomade.Lib.Bits

/-! # Constant-time arithmetic on secrets

`ecc/secp_ct.go` beside the plain arithmetic of `ecc/util.go`.  The functions on secret keys are
libsecp256k1's.  They refuse a key that is zero or not below the group order, and the code then
falls back to plain arithmetic; the inversion is a power that is computed with them.  Both ways
come to the same bytes, whatever the operands are.
-/

namespace Pomade.Go

open Pomade.Lib Pomade.Frost

namespace Ecc

/-! ## Plain arithmetic -/

/-- `ModInverse` of `math/big`, which returns nil where there is no inverse. -/
def modInverse (g n : Int) : Option Int :=
  if Int.gcd g n = 1 then some (Int.gcdA g n % n) else none

/-- Reduces a big.Int modulo N. -/
def modN (x : Int) : Int := x % N

/-- Creates a scalar from 32 bytes, reduced mod N. -/
def scalarFromBytes (b : Bytes 32) : Int := modN b.toNat

/-- Converts a scalar to 32 bytes. -/
def scalarToBytes (s : Int) : Bytes 32 := Bytes.ofNat 32 (s % N).toNat

def scalarAdd (a b : Int) : Int := modN (a + b)

def scalarMul (a b : Int) : Int := modN (a * b)

def scalarNeg (a : Int) : Int := modN (-a)

/-- Computes the modular inverse of a scalar mod N. -/
def scalarInvert (a : Int) : Except String (Option Int) :=
  if a.sign = 0 then .error "scalar inversion failed: zero scalar" else .ok (modInverse a N)

end Ecc

/-! ## The library -/

/-- The functions of libsecp256k1 on secret keys.  A call that does not return 1 leaves nothing. -/
class Libsecp256k1 where
  ecSeckeyTweakMul : (seckey tweak : Bytes 32) → Option (Bytes 32)
  ecSeckeyTweakAdd : (seckey tweak : Bytes 32) → Option (Bytes 32)
  ecSeckeyNegate : (seckey : Bytes 32) → Option (Bytes 32)

/-- What `secp256k1_ec_seckey_verify` accepts. -/
def ValidSeckey (seckey : Bytes 32) : Prop := 0 < seckey.toNat ∧ seckey.toNat < N

instance (seckey : Bytes 32) : Decidable (ValidSeckey seckey) := inferInstanceAs (Decidable (_ ∧ _))

/-- The documented contract.  A tweak that is added may be zero, and the sum may not. -/
structure Documented [Libsecp256k1] : Prop where
  tweakMul (seckey tweak : Bytes 32) : Libsecp256k1.ecSeckeyTweakMul seckey tweak =
    if ValidSeckey seckey ∧ ValidSeckey tweak then
      some (Bytes.ofNat 32 (seckey.toNat * tweak.toNat % N))
    else none
  tweakAdd (seckey tweak : Bytes 32) : Libsecp256k1.ecSeckeyTweakAdd seckey tweak =
    if ValidSeckey seckey ∧ tweak.toNat < N ∧ (seckey.toNat + tweak.toNat) % N ≠ 0 then
      some (Bytes.ofNat 32 ((seckey.toNat + tweak.toNat) % N))
    else none
  negate (seckey : Bytes 32) : Libsecp256k1.ecSeckeyNegate seckey =
    if ValidSeckey seckey then some (Bytes.ofNat 32 (N - seckey.toNat)) else none

/-! ## Constant-time wrappers -/

namespace Ecc

section Wrappers

variable [Libsecp256k1]

/-- Returns base*tweak mod N, constant time. -/
def seckeyTweakMulCT (base tweak : Bytes 32) : Option (Bytes 32) :=
  Libsecp256k1.ecSeckeyTweakMul base tweak

/-- Returns base+tweak mod N, constant time. -/
def seckeyTweakAddCT (base tweak : Bytes 32) : Option (Bytes 32) :=
  Libsecp256k1.ecSeckeyTweakAdd base tweak

/-- Returns -base mod N, constant time. -/
def seckeyNegateCT (base : Bytes 32) : Option (Bytes 32) := Libsecp256k1.ecSeckeyNegate base

/-- Returns (secret * mult) mod N. -/
def scalarMulCT (secret mult : Bytes 32) : Bytes 32 :=
  (seckeyTweakMulCT secret mult).getD
    (scalarToBytes (scalarMul (scalarFromBytes secret) (scalarFromBytes mult)))

/-- Returns (secret + addend) mod N. -/
def scalarAddCT (secret addend : Bytes 32) : Bytes 32 :=
  (seckeyTweakAddCT secret addend).getD
    (scalarToBytes (scalarAdd (scalarFromBytes secret) (scalarFromBytes addend)))

/-- Returns (-secret) mod N. -/
def scalarNegCT (secret : Bytes 32) : Bytes 32 :=
  (seckeyNegateCT secret).getD (scalarToBytes (scalarNeg (scalarFromBytes secret)))

/-- The bytes of N-2, the exponent of `scalarInvertCT`. -/
def nMinus2 : Bytes 32 := Bytes.ofNat 32 (N - 2)

/-- One round of the loop of `ScalarInvertCT`, with the result and whether it is still one. -/
def invertRound (secret : Bytes 32) (acc : Bytes 32 × Bool) (bit : Bool) : Bytes 32 × Bool :=
  let (result, resultIsOne) := acc
  -- the first squaring is skipped while the result is one
  let result := if resultIsOne then result else scalarMulCT result result
  if bit then
    if resultIsOne then (secret, false) else (scalarMulCT result secret, resultIsOne)
  else (result, resultIsOne)

/-- Returns the modular inverse of secret mod N. -/
def scalarInvertCT (secret : Bytes 32) : Except String (Bytes 32) :=
  if (scalarFromBytes secret).sign = 0 then .error "scalar inversion failed: zero scalar"
  else .ok (forBits (invertRound secret) (Bytes.ofNat 32 1, true) nMinus2.data).1

end Wrappers

end Ecc

/-! ## Numbers and scalars -/

theorem modN_cast (x : Int) : ((Ecc.modN x : Int) : Scalar) = x := ZMod.intCast_mod x N

/-- A reduced number is the value of its scalar. -/
theorem modN_eq_val (x : Int) : Ecc.modN x = ((x : Scalar).val : Int) := (ZMod.val_intCast x).symm

theorem scalarFromBytes_cast (b : Bytes 32) :
    ((Ecc.scalarFromBytes b : Int) : Scalar) = scalarFromBytes b := by
  rw [Ecc.scalarFromBytes, modN_cast, Int.cast_natCast]
  rfl

theorem scalarFromBytes_eq_zero {b : Bytes 32} :
    Ecc.scalarFromBytes b = 0 ↔ scalarFromBytes b = 0 := by
  rw [Ecc.scalarFromBytes, modN_eq_val, Int.natCast_eq_zero, ZMod.val_eq_zero, Int.cast_natCast]
  rfl

theorem scalarToBytes_cast (x : Int) : Ecc.scalarToBytes x = scalarToBytes (x : Scalar) := by
  have value : ((x : Scalar).val : Int) = x % N := ZMod.val_intCast x
  rw [Ecc.scalarToBytes, ← value, Int.toNat_natCast, scalarToBytes]

theorem scalarToBytes_natCast (n : Nat) : scalarToBytes (n : Scalar) = Bytes.ofNat 32 (n % N) := by
  rw [scalarToBytes, ZMod.val_natCast]

/-- A fallback makes no difference where a call that is not refused returns the same. -/
theorem guarded_getD {α : Type} {valid : Prop} [Decidable valid] {value plain : α}
    (same : valid → value = plain) : (if valid then some value else none).getD plain = plain := by
  by_cases accepted : valid
  · rw [if_pos accepted, Option.getD_some, same accepted]
  · rw [if_neg accepted, Option.getD_none]

/-! ## One operation -/

theorem plain_mul (a b : Bytes 32) :
    Ecc.scalarToBytes (Ecc.scalarMul (Ecc.scalarFromBytes a) (Ecc.scalarFromBytes b)) =
      scalarToBytes (scalarFromBytes a * scalarFromBytes b) := by
  rw [scalarToBytes_cast, Ecc.scalarMul, modN_cast, Int.cast_mul, scalarFromBytes_cast,
    scalarFromBytes_cast]

theorem plain_add (a b : Bytes 32) :
    Ecc.scalarToBytes (Ecc.scalarAdd (Ecc.scalarFromBytes a) (Ecc.scalarFromBytes b)) =
      scalarToBytes (scalarFromBytes a + scalarFromBytes b) := by
  rw [scalarToBytes_cast, Ecc.scalarAdd, modN_cast, Int.cast_add, scalarFromBytes_cast,
    scalarFromBytes_cast]

theorem plain_neg (a : Bytes 32) :
    Ecc.scalarToBytes (Ecc.scalarNeg (Ecc.scalarFromBytes a)) =
      scalarToBytes (-scalarFromBytes a) := by
  rw [scalarToBytes_cast, Ecc.scalarNeg, modN_cast, Int.cast_neg, scalarFromBytes_cast]

section Operations

variable [Libsecp256k1]

theorem scalarMulCT_eq (documented : Documented) (a b : Bytes 32) :
    Ecc.scalarMulCT a b =
      Ecc.scalarToBytes (Ecc.scalarMul (Ecc.scalarFromBytes a) (Ecc.scalarFromBytes b)) := by
  rw [Ecc.scalarMulCT, Ecc.seckeyTweakMulCT, documented.tweakMul]
  apply guarded_getD
  intro _
  rw [plain_mul, scalarFromBytes, scalarFromBytes, modN, modN, ← Nat.cast_mul,
    scalarToBytes_natCast]

theorem scalarAddCT_eq (documented : Documented) (a b : Bytes 32) :
    Ecc.scalarAddCT a b =
      Ecc.scalarToBytes (Ecc.scalarAdd (Ecc.scalarFromBytes a) (Ecc.scalarFromBytes b)) := by
  rw [Ecc.scalarAddCT, Ecc.seckeyTweakAddCT, documented.tweakAdd]
  apply guarded_getD
  intro _
  rw [plain_add, scalarFromBytes, scalarFromBytes, modN, modN, ← Nat.cast_add,
    scalarToBytes_natCast]

theorem scalarNegCT_eq (documented : Documented) (a : Bytes 32) :
    Ecc.scalarNegCT a = Ecc.scalarToBytes (Ecc.scalarNeg (Ecc.scalarFromBytes a)) := by
  rw [Ecc.scalarNegCT, Ecc.seckeyNegateCT, documented.negate]
  apply guarded_getD
  intro valid
  obtain ⟨positive, less⟩ := valid
  have opposite : -scalarFromBytes a = ((N - a.toNat : Nat) : Scalar) := by
    rw [Nat.cast_sub less.le, ZMod.natCast_self, zero_sub, scalarFromBytes, modN]
  have bound : N - a.toNat < N := by omega
  rw [plain_neg, opposite, scalarToBytes_natCast, Nat.mod_eq_of_lt bound]

/-! The signer is modelled with what the wrappers return. -/

theorem scalarMulCT_taproot (documented : Documented) (a b : Bytes 32) :
    Ecc.scalarMulCT a b = Taproot.scalarMulCT a b := by
  rw [scalarMulCT_eq documented, plain_mul, Taproot.scalarMulCT]

theorem scalarAddCT_taproot (documented : Documented) (a b : Bytes 32) :
    Ecc.scalarAddCT a b = Taproot.scalarAddCT a b := by
  rw [scalarAddCT_eq documented, plain_add, Taproot.scalarAddCT]

theorem scalarNegCT_taproot (documented : Documented) (a : Bytes 32) :
    Ecc.scalarNegCT a = Taproot.scalarNegCT a := by
  rw [scalarNegCT_eq documented, plain_neg, Taproot.scalarNegCT]

end Operations

/-! ## The inversion -/

/-- What the loop has after the bits of an exponent: the secret as it came after a first set bit,
and from then on a reduced power of it. -/
inductive PowerOf (secret : Bytes 32) : Bytes 32 × Bool → Nat → Prop where
  | one (result : Bytes 32) : PowerOf secret (result, true) 0
  | secret : PowerOf secret (secret, false) 1
  | power (e : Nat) (several : 2 ≤ e) :
      PowerOf secret (scalarToBytes (scalarFromBytes secret ^ e), false) e

theorem PowerOf.result_eq {secret : Bytes 32} {acc : Bytes 32 × Bool} {e : Nat}
    (holds : PowerOf secret acc e) (several : 2 ≤ e) :
    acc.1 = scalarToBytes (scalarFromBytes secret ^ e) := by
  cases holds with
  | one result => omega
  | secret => omega
  | power e _ => rfl

theorem nMinus2_value : bytesToNat Ecc.nMinus2.data = N - 2 := by
  have bound : N - 2 < 256 ^ 32 := lt_of_le_of_lt (Nat.sub_le N 2) N_lt
  exact Bytes.toNat_ofNat bound

/-- Fermat's little theorem. -/
theorem pow_order_sub_two {s : Scalar} (nonzero : s ≠ 0) : s ^ (N - 2) = s⁻¹ := by
  have two : 2 ≤ N := N_prime.two_le
  have exponent : N - 2 + 1 = N - 1 := by omega
  have one : s ^ (N - 2) * s = 1 := by
    rw [← pow_succ, exponent]
    exact ZMod.pow_card_sub_one_eq_one nonzero
  exact eq_inv_of_mul_eq_one_left one

/-- `math/big` finds the inverse of what is not zero modulo the order. -/
theorem modInverse_spec {x : Int} (nonzero : (x : Scalar) ≠ 0) :
    ∃ inverse, Ecc.modInverse x N = some inverse ∧ (inverse : Scalar) = (x : Scalar)⁻¹ := by
  have coprime : Int.gcd x N = 1 := by
    apply Nat.Coprime.symm
    apply (Nat.Prime.coprime_iff_not_dvd N_prime).mpr
    intro divides
    exact nonzero ((ZMod.intCast_zmod_eq_zero_iff_dvd x N).mpr (Int.natCast_dvd.mpr divides))
  have combined := Int.gcd_eq_gcd_ab x N
  rw [coprime] at combined
  have product : ((Int.gcdA x N : Int) : Scalar) * x = 1 := by
    have image := congrArg (Int.cast : Int → Scalar) combined
    simpa [mul_comm] using image.symm
  refine ⟨_, if_pos coprime, ?_⟩
  rw [ZMod.intCast_mod]
  exact eq_inv_of_mul_eq_one_left product

section Inversion

variable [Libsecp256k1]

/-- A round on a result that is not one squares it, and multiplies it on a set bit. -/
theorem invertRound_power (documented : Documented) {secret result : Bytes 32} {e : Nat}
    (power : scalarFromBytes result = scalarFromBytes secret ^ e) (bit : Bool) :
    Ecc.invertRound secret (result, false) bit =
      (scalarToBytes (scalarFromBytes secret ^ appendBit e bit), false) := by
  have squared : Ecc.scalarMulCT result result =
      scalarToBytes (scalarFromBytes secret ^ (2 * e)) := by
    rw [scalarMulCT_taproot documented, Taproot.scalarMulCT, power, ← pow_add, two_mul]
  cases bit with
  | false => simp [Ecc.invertRound, appendBit, squared]
  | true =>
    have multiplied : Ecc.scalarMulCT (scalarToBytes (scalarFromBytes secret ^ (2 * e))) secret =
        scalarToBytes (scalarFromBytes secret ^ (2 * e + 1)) := by
      rw [scalarMulCT_taproot documented, Taproot.scalarMulCT,
        scalarFromBytes_scalarToBytes, ← pow_succ]
    simp [Ecc.invertRound, appendBit, squared, multiplied]

theorem powerOf_step (documented : Documented) (secret : Bytes 32) (acc : Bytes 32 × Bool)
    (e : Nat) (bit : Bool) (holds : PowerOf secret acc e) :
    PowerOf secret (Ecc.invertRound secret acc bit) (appendBit e bit) := by
  cases holds with
  | one result =>
    cases bit with
    | false => exact .one result
    | true => exact .secret
  | secret =>
    rw [invertRound_power documented (pow_one _).symm]
    exact .power _ (by simp [appendBit])
  | power e several =>
    rw [invertRound_power documented (scalarFromBytes_scalarToBytes _)]
    exact .power _ (by simp [appendBit]; omega)

/-- The loop computes the power with the exponent N-2. -/
theorem invert_loop (documented : Documented) (secret : Bytes 32) :
    (forBits (Ecc.invertRound secret) (Bytes.ofNat 32 1, true) Ecc.nMinus2.data).1 =
      scalarToBytes (scalarFromBytes secret ^ (N - 2)) := by
  have holds := forBits_of_step (powerOf_step documented secret) (.one (Bytes.ofNat 32 1))
    Ecc.nMinus2.data
  rw [nMinus2_value] at holds
  have several : 2 ≤ N - 2 := by norm_num [N]
  exact holds.result_eq several


/-- What is not zero modulo the order is inverted, by the loop as by `math/big`. -/
theorem scalarInvertCT_eq (documented : Documented) {secret : Bytes 32}
    (nonzero : Ecc.scalarFromBytes secret ≠ 0) :
    ∃ inverse, Ecc.scalarInvert (Ecc.scalarFromBytes secret) = .ok (some inverse) ∧
      Ecc.scalarInvertCT secret = .ok (Ecc.scalarToBytes inverse) ∧
      Ecc.scalarMul inverse (Ecc.scalarFromBytes secret) = 1 := by
  have regular : scalarFromBytes secret ≠ 0 := fun zero => nonzero (scalarFromBytes_eq_zero.mpr zero)
  have signed : ¬ (Ecc.scalarFromBytes secret).sign = 0 := fun zero =>
    nonzero (Int.sign_eq_zero_iff_zero.mp zero)
  have image := scalarFromBytes_cast secret
  obtain ⟨inverse, found, value⟩ := modInverse_spec (x := Ecc.scalarFromBytes secret)
    (by rwa [image])
  rw [image] at value
  refine ⟨inverse, ?_, ?_, ?_⟩
  · rw [Ecc.scalarInvert, if_neg signed, found]
  · rw [Ecc.scalarInvertCT, if_neg signed, invert_loop documented, pow_order_sub_two regular,
      scalarToBytes_cast, value]
  · rw [Ecc.scalarMul, modN_eq_val, Int.cast_mul, image, value, inv_mul_cancel₀ regular,
      ZMod.val_one, Nat.cast_one]

/-- Zero modulo the order has no inverse, and both say so. -/
theorem scalarInvertCT_zero {secret : Bytes 32} (zero : Ecc.scalarFromBytes secret = 0) :
    Ecc.scalarInvertCT secret = .error "scalar inversion failed: zero scalar" ∧
      Ecc.scalarInvert (Ecc.scalarFromBytes secret) =
        .error "scalar inversion failed: zero scalar" := by
  rw [Ecc.scalarInvertCT, Ecc.scalarInvert, zero]
  exact ⟨rfl, rfl⟩

/-! ## All operands -/

/-- The wrappers compute what the plain functions compute of the reduced operands, whichever of
them the library refuses, and every nonzero scalar is inverted. -/
theorem constant_time_agrees (documented : Documented) (a b : Bytes 32) :
    Ecc.scalarAddCT a b =
      Ecc.scalarToBytes (Ecc.scalarAdd (Ecc.scalarFromBytes a) (Ecc.scalarFromBytes b)) ∧
    Ecc.scalarMulCT a b =
      Ecc.scalarToBytes (Ecc.scalarMul (Ecc.scalarFromBytes a) (Ecc.scalarFromBytes b)) ∧
    Ecc.scalarNegCT a = Ecc.scalarToBytes (Ecc.scalarNeg (Ecc.scalarFromBytes a)) ∧
    (Ecc.scalarFromBytes a = 0 → ∃ message, Ecc.scalarInvertCT a = .error message ∧
      Ecc.scalarInvert (Ecc.scalarFromBytes a) = .error message) ∧
    (Ecc.scalarFromBytes a ≠ 0 → ∃ inverse,
      Ecc.scalarInvert (Ecc.scalarFromBytes a) = .ok (some inverse) ∧
      Ecc.scalarInvertCT a = .ok (Ecc.scalarToBytes inverse) ∧
      Ecc.scalarMul inverse (Ecc.scalarFromBytes a) = 1) :=
  ⟨scalarAddCT_eq documented a b, scalarMulCT_eq documented a b, scalarNegCT_eq documented a,
    fun zero => ⟨_, scalarInvertCT_zero zero⟩, fun nonzero => scalarInvertCT_eq documented nonzero⟩

end Inversion

/-- The library as it is documented. -/
@[reducible] def documentedLibrary : Libsecp256k1 where
  ecSeckeyTweakMul seckey tweak :=
    if ValidSeckey seckey ∧ ValidSeckey tweak then
      some (Bytes.ofNat 32 (seckey.toNat * tweak.toNat % N))
    else none
  ecSeckeyTweakAdd seckey tweak :=
    if ValidSeckey seckey ∧ tweak.toNat < N ∧ (seckey.toNat + tweak.toNat) % N ≠ 0 then
      some (Bytes.ofNat 32 ((seckey.toNat + tweak.toNat) % N))
    else none
  ecSeckeyNegate seckey :=
    if ValidSeckey seckey then some (Bytes.ofNat 32 (N - seckey.toNat)) else none

theorem documentedLibrary_documented :
    let _ := documentedLibrary
    Documented := by
  intro library
  exact ⟨fun _ _ => rfl, fun _ _ => rfl, fun _ => rfl⟩

/-- Two operands whose sum is zero, and the inverse of one of them. -/
theorem constant_time_agrees_opposite :
    let _ := documentedLibrary
    Ecc.scalarAddCT (Bytes.ofNat 32 5) (Bytes.ofNat 32 (N - 5)) =
      Ecc.scalarToBytes (Ecc.scalarAdd (Ecc.scalarFromBytes (Bytes.ofNat 32 5))
        (Ecc.scalarFromBytes (Bytes.ofNat 32 (N - 5)))) ∧
    ∃ inverse, Ecc.scalarInvertCT (Bytes.ofNat 32 5) = .ok (Ecc.scalarToBytes inverse) ∧
      Ecc.scalarMul inverse (Ecc.scalarFromBytes (Bytes.ofNat 32 5)) = 1 := by
  intro library
  have nonzero : Ecc.scalarFromBytes (Bytes.ofNat 32 5) ≠ 0 := by decide +kernel
  obtain ⟨added, _, _, _, inverted⟩ := constant_time_agrees documentedLibrary_documented
    (Bytes.ofNat 32 5) (Bytes.ofNat 32 (N - 5))
  obtain ⟨inverse, _, returned, product⟩ := inverted nonzero
  exact ⟨added, inverse, returned, product⟩

end Pomade.Go
