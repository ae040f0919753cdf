import Mathlib.Algebra.Module.Defs
import Pomade.Frost.Scalar

/-! # Points and hashes

The point half of `ecc/util.rs` and `ecc/group.rs`, and `ecc/hash.rs`.  The curve
arithmetic itself is the `k256` crate and SHA-256 is the `sha2` crate; `Curve`
and `Sha2` state what the code relies on, and the encodings are built on top of
them the way the code does.
-/

namespace Pomade.Frost

open Pomade.Lib

inductive Error where
  | assertion (message : String)
  | invalidPoint
  | bothPointsNull
  | scalarInversion
  | recordNotFound (idx : UInt32)
deriving DecidableEq

/-- A call either returns an error value or stops the thread. -/
inductive Fault where
  | err (e : Error)
  | panic (reason : String)
deriving DecidableEq

abbrev Result (α : Type) : Type := Except Fault α

/-- The `sha2` crate and the message expansion of `k256`. -/
class Sha2 where
  sha256 : List UInt8 → Bytes 32
  expandMessage : (message dst : List UInt8) → Bytes 48

/-- The `k256` curve: a module over the scalars, affine x-coordinates, the parity
of y, and decompression.  A point is determined by its x-coordinate up to sign. -/
class Curve (Pt : Type) [AddCommGroup Pt] [Module Scalar Pt] where
  generator : Pt
  affineX : Pt → Bytes 32
  yIsOdd : Pt → Bool
  decompress : Bytes 32 → Bool → Option Pt
  isIdentity : Pt → Bool
  isIdentity_iff (P : Pt) : isIdentity P = true ↔ P = 0
  generator_ne_zero : generator ≠ 0
  affineX_eq_iff (P Q : Pt) : affineX P = affineX Q ↔ P = Q ∨ P = -Q
  yIsOdd_neg (P : Pt) : P ≠ 0 → yIsOdd (-P) = !yIsOdd P
  decompress_eq_some (x : Bytes 32) (odd : Bool) (P : Pt) :
    decompress x odd = some P ↔ P ≠ 0 ∧ affineX P = x ∧ yIsOdd P = odd

/-! ## Points -/

section Points

variable {Pt : Type} [AddCommGroup Pt] [Module Scalar Pt] [Curve Pt]

/-- Decode a 33-byte SEC1 point: compressed (`02`, `03`) or compact (`05`, even y). -/
def deserializePoint (bytes : Bytes 33) : Result Pt :=
  let point : Option Pt :=
    match bytes.data.head? with
    | some 0x02 => Curve.decompress bytes.tail false
    | some 0x03 => Curve.decompress bytes.tail true
    | some 0x05 => Curve.decompress bytes.tail false
    | _ => none
  match point with
  | some P => .ok P
  | none => .error (.err .invalidPoint)

/-- Lift an x-only (32-byte) or compressed (33-byte) pubkey to a point. -/
def liftX (bytes : List UInt8) : Result Pt :=
  match Bytes.ofList 32 bytes, Bytes.ofList 33 bytes with
  | some x, _ => deserializePoint (Bytes.cons 0x02 x)
  | none, some encoded => deserializePoint encoded
  | none, none => .error (.err .invalidPoint)

/-- Serialize a point to a 33-byte compressed encoding.  The identity encodes to
one byte, which the copy into the fixed buffer does not take. -/
def serializePoint (pt : Pt) : Result (Bytes 33) :=
  if Curve.isIdentity pt then
    .error (.panic "copy_from_slice: source slice length does not match destination slice length")
  else .ok (Bytes.cons (if Curve.yIsOdd pt then 0x03 else 0x02) (Curve.affineX pt))

/-- Returns true if the point has an even Y coordinate. -/
def hasEvenY (pt : Pt) : Bool := !Curve.isIdentity pt && !Curve.yIsOdd pt

def negatePoint (pt : Pt) : Pt := -pt

/-- Add two points.  Either may be absent. -/
def elementAdd (a b : Option Pt) : Result Pt :=
  match a, b with
  | none, none => .error (.err .bothPointsNull)
  | none, some b => .ok b
  | some a, none => .ok a
  | some a, some b => .ok (a + b)

def scalarMulti (a : Pt) (k : Scalar) : Pt := k • a

variable (Pt) in
def scalarBaseMulti (k : Scalar) : Pt := k • (Curve.generator : Pt)

end Points

/-! ## Hash functions H1–H5 -/

section Hashes

variable [Sha2]

def domain : String := "FROST-secp256k1-SHA256-v1"

def utf8 (text : String) : List UInt8 := text.toUTF8.toList

/-- Build the DST for a given sub-tag. -/
def dst (sub : String) : List UInt8 := utf8 (domain ++ sub)

/-- `hash_to_field`: 48 uniform bytes, read as high 16 and low 32 bytes, mod N. -/
def hashToFieldN (message dstBytes : List UInt8) : Scalar :=
  let uniform := (Sha2.expandMessage message dstBytes).data
  let hi16 := uniform.take 16
  let lo32 := uniform.drop 16
  let two256ModN := modN 0x14551231950b75fc4402da1732fc9bebf
  modN (bytesToNat hi16) * two256ModN + modN (bytesToNat lo32)

/-- H1: rho — binding factor hash. -/
def h1 (message : List UInt8) : Bytes 32 := scalarToBytes (hashToFieldN message (dst "rho"))

/-- H3: nonce — nonce generation hash. -/
def h3 (message : List UInt8) : Bytes 32 := scalarToBytes (hashToFieldN message (dst "nonce"))

/-- H4: msg — plain SHA-256 with domain prefix. -/
def h4 (message : List UInt8) : Bytes 32 := Sha2.sha256 (dst "msg" ++ message)

/-- H5: com — plain SHA-256 with domain prefix. -/
def h5 (message : List UInt8) : Bytes 32 := Sha2.sha256 (dst "com" ++ message)

/-- BIP340-style tagged hash prefix: SHA256(tag) || SHA256(tag). -/
def taghash (tag : String) : List UInt8 :=
  (Sha2.sha256 (utf8 tag)).data ++ (Sha2.sha256 (utf8 tag)).data

/-- BIP340 tagged hash: SHA256(SHA256(tag) || SHA256(tag) || data...). -/
def hash340 (tag : String) (data : List (List UInt8)) : Bytes 32 :=
  Sha2.sha256 (taghash tag ++ data.flatten)

end Hashes

/-! ## Keys -/

section Keys

variable (Pt : Type) [AddCommGroup Pt] [Module Scalar Pt] [Curve Pt]

/-- Derive a compressed public key from a secret key. -/
def getPubkey (secret : Bytes 32) : Result (Bytes 33) :=
  serializePoint (scalarBaseMulti Pt (scalarFromBytes secret))

/-- Tweak a secret key by adding a tweak scalar: (seckey + tweak) mod N. -/
def tweakSeckey (seckey tweak : Bytes 32) : Bytes 32 :=
  scalarToBytes (scalarFromBytes seckey + scalarFromBytes tweak)

/-- Tweak a public key by adding tweak*G: pubkey_point + tweak*G. -/
def tweakPubkey (pubkey : List UInt8) (tweak : Bytes 32) : Result (Bytes 33) := do
  let point : Pt ← liftX pubkey
  let tweaked ← elementAdd (some point) (some (scalarBaseMulti Pt (scalarFromBytes tweak)))
  serializePoint tweaked

/-- Generate a secret nonce by hashing (aux || secret) through H3. -/
def generateNonce [Sha2] (secret aux : Bytes 32) : Bytes 32 := h3 (aux.data ++ secret.data)

/-- Convert a pubkey to BIP340 format (x-only, 32 bytes). -/
def convertPubkeyToBip340 (pubkey : List UInt8) : Result (List UInt8) :=
  if pubkey.length = 33 then .ok pubkey.tail
  else if pubkey.length = 32 then .ok pubkey
  else .error (.err .invalidPoint)

/-- Compute a BIP340-compatible challenge hash. -/
def getChallenge [Sha2] (pnonce pubkey message : List UInt8) : Result Scalar := do
  let grpPn ← convertPubkeyToBip340 pnonce
  let grpPk ← convertPubkeyToBip340 pubkey
  if grpPn.length ≠ 32 then
    throw (.err (.assertion "pnonce must be 32 bytes after conversion"))
  if grpPk.length ≠ 32 then
    throw (.err (.assertion "pubkey must be 32 bytes after conversion"))
  return modN (hash340 "BIP0340/challenge" [grpPn, grpPk, message]).toNat

end Keys

end Pomade.Frost
