import Pomade.Lib.Bytes

/-! # Bits of a byte string

The bits of a big-endian number, the highest one first, in the order in which a loop over the bytes
and in each byte over the bits goes through them.  What such a loop computes follows from what one
round does with a bit.
-/

namespace Pomade.Lib

/-- The bits of a byte below a position, the highest one first. -/
def bitsBelow (byte : UInt8) : Nat → List Bool
  | 0 => []
  | bit + 1 => ((byte >>> UInt8.ofNat bit) &&& 1 == 1) :: bitsBelow byte bit

/-- The number after one more bit. -/
def appendBit (value : Nat) (bit : Bool) : Nat := 2 * value + bit.toNat

/-- The loop over the bytes and their bits. -/
def forBits {S : Type} (round : S → Bool → S) (start : S) (bytes : List UInt8) : S :=
  bytes.foldl (fun acc byte => (bitsBelow byte 8).foldl round acc) start

/-- The code shifts the bit down and masks it. -/
theorem shifted_bit (byte : UInt8) {bit : Nat} (inside : bit < 8) :
    ((byte >>> UInt8.ofNat bit) &&& 1 == 1) = byte.toNat.testBit bit := by
  have shift : (UInt8.ofNat bit).toNat % 8 = bit := by
    rw [UInt8.toNat_ofNat']
    omega
  rw [Bool.eq_iff_iff, beq_iff_eq, ← UInt8.toNat_inj, UInt8.toNat_and, UInt8.toNat_shiftRight,
    shift, Nat.testBit_eq_decide_div_mod_eq, decide_eq_true_iff, ← Nat.shiftRight_eq_div_pow]
  simp [Nat.and_one_is_mod]

theorem foldl_bitsBelow (byte : UInt8) {count : Nat} (inside : count ≤ 8) (value : Nat) :
    (bitsBelow byte count).foldl appendBit value =
      2 ^ count * value + byte.toNat % 2 ^ count := by
  induction count generalizing value with
  | zero => simp [bitsBelow, Nat.mod_one]
  | succ count ih =>
    have digits := Nat.mod_pow_succ (b := 2) (k := count) (x := byte.toNat)
    rw [bitsBelow, List.foldl_cons, ih (by omega), appendBit, shifted_bit byte inside,
      Nat.toNat_testBit, digits, pow_succ]
    ring

/-- The bits make up the number. -/
theorem forBits_appendBit (bytes : List UInt8) (value : Nat) :
    forBits appendBit value bytes =
      bytes.foldl (fun value byte => value * 256 + byte.toNat) value := by
  induction bytes generalizing value with
  | nil => rfl
  | cons byte bytes ih =>
    have whole : byte.toNat % 2 ^ 8 = byte.toNat := Nat.mod_eq_of_lt byte.toNat_lt
    have first := foldl_bitsBelow byte (le_refl 8) value
    rw [whole, Nat.mul_comm] at first
    rw [forBits, List.foldl_cons, first]
    exact ih _

section Loops

variable {S : Type} {round : S → Bool → S} {holds : S → Nat → Prop}

theorem foldl_bits
    (step : ∀ acc value bit, holds acc value → holds (round acc bit) (appendBit value bit))
    {acc : S} {value : Nat} (start : holds acc value) (bits : List Bool) :
    holds (bits.foldl round acc) (bits.foldl appendBit value) := by
  induction bits generalizing acc value with
  | nil => exact start
  | cons bit bits ih => exact ih (step acc value bit start)

/-- What holds of the bits read so far, round by round, holds of the number in the end. -/
theorem forBits_of_step
    (step : ∀ acc value bit, holds acc value → holds (round acc bit) (appendBit value bit))
    {acc : S} (start : holds acc 0) (bytes : List UInt8) :
    holds (forBits round acc bytes) (bytesToNat bytes) := by
  have all : ∀ (acc : S) (value : Nat), holds acc value →
      holds (forBits round acc bytes) (forBits appendBit value bytes) := by
    induction bytes with
    | nil => exact fun _ _ start => start
    | cons byte bytes ih =>
      intro acc value start
      exact ih _ _ (foldl_bits step start (bitsBelow byte 8))
  have done := all acc 0 start
  rwa [forBits_appendBit] at done

end Loops

end Pomade.Lib
