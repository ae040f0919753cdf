import Pomade.Go.Taproot
import Pomade.Lib.ExpandMessage

/-! # Hashing to a scalar

`expandMsgXmd` and `hashToFieldN` of `ecc/hash.go` beside `hash_to_field_n` of the Rust crate.  The
Go library spells the message expansion out; its loop makes the digests of `expand_message_xmd`
with SHA-256 for any length, and both libraries reduce the same 384-bit number.
-/

namespace Pomade.Go

open Pomade.Lib Pomade.Frost

/-! ## Numbers and tags -/

/-- The two parts that the code reduces apart are the high and the low part of one number. -/
theorem reduce_parts {uniform : List UInt8} (length : uniform.length = 48) :
    modN (bytesToNat (uniform.take 16)) * modN 0x14551231950b75fc4402da1732fc9bebf +
        modN (bytesToNat (uniform.drop 16)) =
      modN (bytesToNat uniform) := by
  have power : modN 0x14551231950b75fc4402da1732fc9bebf = ((256 ^ 32 : Nat) : Scalar) := by
    rw [modN, ZMod.natCast_eq_natCast_iff']
    norm_num [N]
  have low : (uniform.drop 16).length = 32 := by simp [length]
  have number := bytesToNat_append (uniform.take 16) (uniform.drop 16)
  rw [List.take_append_drop, low] at number
  rw [number, power, modN, modN, modN, Nat.cast_add, Nat.cast_mul]

/-- The domain tags of the hash functions are short. -/
theorem dst_short : (dst "rho").length ≤ 255 ∧ (dst "nonce").length ≤ 255 := by
  decide +kernel

section Hashes

variable [Sha2]

/-- SHA-256 reads blocks of 64 bytes. -/
def sha256Blocks : BlockHash 32 where
  blockSize := 64
  hash := Sha2.sha256

/-! ## The message expansion -/

/-- The bytes are those of the chained digests, whatever the lengths: where a length does not fit
in its bytes, both keep the low ones. -/
theorem expandMsgXmd_eq (message dstBytes : List UInt8) (length : Nat) :
    Taproot.expandMsgXmd message dstBytes length =
      sha256Blocks.uniformBytes message dstBytes length := by
  have first : Sha2.sha256 (List.replicate 64 0 ++ message ++ natToBytes 2 length ++ [0] ++
      (dstBytes ++ [UInt8.ofNat dstBytes.length])) =
        sha256Blocks.firstDigest message dstBytes length := by
    rw [BlockHash.firstDigest, BlockHash.msgPrime, i2osp_zero, i2osp_one]
    rfl
  have second : Sha2.sha256 ((sha256Blocks.firstDigest message dstBytes length).data ++ [1] ++
      (dstBytes ++ [UInt8.ofNat dstBytes.length])) =
        sha256Blocks.digest message dstBytes length 1 := rfl
  have others : ∀ count i, Taproot.xmdBlocks (sha256Blocks.firstDigest message dstBytes length)
      (dstBytes ++ [UInt8.ofNat dstBytes.length]) count (i + 2)
        (sha256Blocks.digest message dstBytes length (i + 1)) =
      (List.range' (i + 2) count).flatMap fun i =>
        (sha256Blocks.digest message dstBytes length i).data :=
    BlockHash.flatMap_digest_of_loop _ _ _ _ (fun _ _ => rfl) fun _ _ _ => rfl
  rw [Taproot.expandMsgXmd]
  have digests : length ⌈/⌉ 32 = (length + 31) / 32 := rfl
  rw [first, second, others, BlockHash.uniformBytes, digests]
  cases count : (length + 31) / 32 with
  | zero =>
    -- nothing is asked for, and the digest that was made anyway is cut off
    have none : length = 0 := by omega
    simp [none]
  | succ count => rw [List.range'_succ, List.flatMap_cons, Nat.add_sub_cancel]

theorem expandMsgXmd_length (message dstBytes : List UInt8) (length : Nat) :
    (Taproot.expandMsgXmd message dstBytes length).length = length := by
  rw [expandMsgXmd_eq]
  exact BlockHash.uniformBytes_length (by decide)

/-- The message expansion of the Rust crate is the documented one. -/
def Expands : Prop :=
  ∀ message dst : List UInt8, dst.length ≤ 255 →
    sha256Blocks.expandMessage message dst 48 = some (Sha2.expandMessage message dst).data

theorem expandMsgXmd_within {message dst : List UInt8} {length : Nat}
    (limits : BlockHash.WithinLimits 32 length dst) :
    sha256Blocks.expandMessage message dst length =
      some (Taproot.expandMsgXmd message dst length) := by
  rw [BlockHash.expandMessage_within limits, expandMsgXmd_eq]

/-- It is enough that the Rust crate expands to what the Go library expands to. -/
theorem Expands.of_taproot (same : ∀ message dst : List UInt8,
    (Sha2.expandMessage message dst).data = Taproot.expandMsgXmd message dst 48) : Expands := by
  intro message dst short
  rw [same]
  exact expandMsgXmd_within ⟨by decide, by decide, short⟩

/-- The 48 bytes that the two libraries ask for are the same. -/
theorem expandMessage_taproot (expands : Expands) {message dst : List UInt8}
    (short : dst.length ≤ 255) :
    (Sha2.expandMessage message dst).data = Taproot.expandMsgXmd message dst 48 := by
  have limits : BlockHash.WithinLimits 32 48 dst := ⟨by decide, by decide, short⟩
  have both := (expands message dst short).symm.trans (expandMsgXmd_within limits)
  exact Option.some.inj both

/-! ## The scalars -/

theorem hashToFieldN_eq (message dst : List UInt8) :
    Taproot.hashToFieldN message dst =
      modN (bytesToNat (Taproot.expandMsgXmd message dst 48)) := by
  rw [Taproot.hashToFieldN]
  exact reduce_parts (expandMsgXmd_length message dst 48)

theorem hashToFieldN_taproot (expands : Expands) {message dst : List UInt8}
    (short : dst.length ≤ 255) : Taproot.hashToFieldN message dst = hashToFieldN message dst := by
  rw [Taproot.hashToFieldN, hashToFieldN, expandMessage_taproot expands short]

theorem h3_eq (expands : Expands) (message : List UInt8) : Taproot.h3 message = h3 message := by
  rw [Taproot.h3, h3, hashToFieldN_taproot expands dst_short.2]

/-- The Go library returns the documented bytes up to the limits, and reduces them to the scalar
that the Rust crate reduces them to. -/
theorem hash_to_scalar_agrees (expands : Expands) (message dst : List UInt8)
    (short : dst.length ≤ 255) :
    (∀ length ≤ 255 * 32, sha256Blocks.expandMessage message dst length =
      some (Taproot.expandMsgXmd message dst length)) ∧
    Taproot.hashToFieldN message dst = hashToFieldN message dst ∧
    hashToFieldN message dst = modN (bytesToNat (Taproot.expandMsgXmd message dst 48)) := by
  have same : Taproot.hashToFieldN message dst = hashToFieldN message dst :=
    hashToFieldN_taproot expands short
  refine ⟨?_, same, same.symm.trans (hashToFieldN_eq message dst)⟩
  intro length bound
  have digests : length ⌈/⌉ 32 ≤ 255 := by
    rw [Nat.ceilDiv_eq_add_pred_div]
    omega
  exact expandMsgXmd_within ⟨digests, by omega, short⟩

end Hashes

/-- A hash with the documented message expansion. -/
@[reducible] def documented (sha256 : List UInt8 → Bytes 32) : Sha2 where
  sha256 := sha256
  expandMessage message dst :=
    ⟨BlockHash.uniformBytes ⟨64, sha256⟩ message dst 48, BlockHash.uniformBytes_length (by decide)⟩

theorem documented_expands (sha256 : List UInt8 → Bytes 32) :
    let _ := documented sha256
    Expands := by
  intro hash message dst short
  rw [BlockHash.expandMessage_within ⟨by decide, by decide, short⟩]
  rfl

/-- A nonce is hashed from a text of three bytes, where a digest is the last bytes of a text. -/
theorem hash_to_scalar_agrees_nonce :
    let _ := documented fun text => Bytes.ofNat 32 (bytesToNat text)
    sha256Blocks.expandMessage [1, 2, 3] (dst "nonce") 100 =
      some (Taproot.expandMsgXmd [1, 2, 3] (dst "nonce") 100) ∧
    Taproot.hashToFieldN [1, 2, 3] (dst "nonce") = hashToFieldN [1, 2, 3] (dst "nonce") := by
  intro hash
  have agreed := hash_to_scalar_agrees
    (documented_expands fun text => Bytes.ofNat 32 (bytesToNat text)) [1, 2, 3] (dst "nonce")
    dst_short.2
  exact ⟨agreed.1 100 (by decide), agreed.2.1⟩

end Pomade.Go
