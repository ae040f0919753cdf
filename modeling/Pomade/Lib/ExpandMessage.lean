import Mathlib.Algebra.Order.Floor.Div
import Mathlib.Algebra.BigOperators.Group.List.Basic
import Pomade.Lib.Bytes

/-! # Message expansion

`expand_message_xmd` over any hash function: a message and a domain tag are hashed to any number of
uniform bytes.  The digests are chained, each one hiding the one before it with the first; the
lengths and the numbers of the digests are written on as many bytes as the limits allow for.
-/

namespace Pomade.Lib

/-- A hash function with digests of `size` bytes, which reads its input in blocks. -/
structure BlockHash (size : Nat) where
  blockSize : Nat
  hash : List UInt8 → Bytes size

/-- A number on `length` bytes, most significant byte first. -/
def i2osp (value length : Nat) : List UInt8 := natToBytes length value

def strxor (a b : List UInt8) : List UInt8 := List.zipWith (fun x y => x ^^^ y) a b

theorem i2osp_one (value : Nat) : i2osp value 1 = [UInt8.ofNat value] := rfl

theorem i2osp_zero (length : Nat) : i2osp 0 length = List.replicate length 0 := by
  rw [i2osp]
  induction length with
  | zero => rfl
  | succ length ih =>
    rw [natToBytes, Nat.zero_div, ih, List.replicate_succ']
    rfl

namespace BlockHash

variable {size : Nat} (H : BlockHash size) (message dst : List UInt8) (length : Nat)

/-- The domain tag with its length. -/
def dstPrime : List UInt8 := dst ++ i2osp dst.length 1

def msgPrime : List UInt8 :=
  i2osp 0 H.blockSize ++ message ++ i2osp length 2 ++ i2osp 0 1 ++ dstPrime dst

/-- The digest of the message, which hides the others. -/
def firstDigest : Bytes size := H.hash (H.msgPrime message dst length)

/-- The digests that are given out, from the one with the number 1 on. -/
def digest : Nat → Bytes size
  | 0 => H.firstDigest message dst length
  | 1 => H.hash ((H.firstDigest message dst length).data ++ i2osp 1 1 ++ dstPrime dst)
  | i + 2 =>
    H.hash (strxor (H.firstDigest message dst length).data (digest (i + 1)).data ++
      i2osp (i + 2) 1 ++ dstPrime dst)

def uniformBytes : List UInt8 :=
  ((List.range' 1 (length ⌈/⌉ size)).flatMap fun i => (H.digest message dst length i).data).take
    length

/-- The lengths that fit in the bytes they are written on. -/
structure WithinLimits (size length : Nat) (dst : List UInt8) : Prop where
  digests : length ⌈/⌉ size ≤ 255
  length : length ≤ 65535
  tag : dst.length ≤ 255

instance : Decidable (WithinLimits size length dst) :=
  decidable_of_iff (length ⌈/⌉ size ≤ 255 ∧ length ≤ 65535 ∧ dst.length ≤ 255)
    ⟨fun limits => ⟨limits.1, limits.2.1, limits.2.2⟩,
      fun limits => ⟨limits.digests, limits.length, limits.tag⟩⟩

/-- The uniform bytes, or nothing beyond the limits. -/
def expandMessage : Option (List UInt8) :=
  if WithinLimits size length dst then some (H.uniformBytes message dst length) else none

/-- A loop that makes each digest from the one before it makes them in their order. -/
theorem flatMap_digest_of_loop {run : Nat → Nat → Bytes size → List UInt8}
    (done : ∀ i last, run 0 i last = [])
    (round : ∀ count i last, run (count + 1) i last =
      (H.hash (strxor (H.firstDigest message dst length).data last.data ++ i2osp i 1 ++
        dstPrime dst)).data ++
      run count (i + 1) (H.hash (strxor (H.firstDigest message dst length).data last.data ++
        i2osp i 1 ++ dstPrime dst)))
    (count i : Nat) :
    run count (i + 2) (H.digest message dst length (i + 1)) =
      (List.range' (i + 2) count).flatMap fun i => (H.digest message dst length i).data := by
  induction count generalizing i with
  | zero => rw [done, List.range'_zero, List.flatMap_nil]
  | succ count ih =>
    rw [round, List.range'_succ, List.flatMap_cons]
    exact congrArg _ (ih (i + 1))

variable {H message dst length}

theorem expandMessage_within (limits : WithinLimits size length dst) :
    H.expandMessage message dst length = some (H.uniformBytes message dst length) := if_pos limits

/-- There are as many bytes as were asked for. -/
theorem uniformBytes_length (positive : 0 < size) :
    (H.uniformBytes message dst length).length = length := by
  have all : ∀ numbers : List Nat,
      (numbers.flatMap fun i => (H.digest message dst length i).data).length =
        numbers.length * size := by
    intro numbers
    induction numbers with
    | nil => simp
    | cons i numbers ih =>
      rw [List.flatMap_cons, List.length_append, ih, Bytes.data_length, List.length_cons]
      ring
  have enough : length ≤ (length ⌈/⌉ size) * size := by
    have covered := (ceilDiv_le_iff_le_smul positive).mp (le_refl (length ⌈/⌉ size))
    rwa [smul_eq_mul, mul_comm] at covered
  rw [uniformBytes, List.length_take, all, List.length_range']
  exact Nat.min_eq_left enough

end BlockHash

end Pomade.Lib
