import Pomade.Signer.Store

/-! # The bridge to FROST

`session.rs`: the hex records of the schema are decoded, and the session logic
(group id, session id, per-message nonces, partial signature, ECDH package) is
computed from the bytes.
-/

namespace Pomade.Signer

open Pomade.Lib Pomade.Frost

/-- Encodes n as the minimum number of big-endian bytes needed (1, 2, or 4). -/
def numToBytesBeVarwidth (n : UInt32) : List UInt8 :=
  if n ≤ 0xFF then natToBytes 1 n.toNat
  else if n ≤ 0xFFFF then natToBytes 2 n.toNat
  else natToBytes 4 n.toNat

def decode32 (s : Str) : Option (Bytes 32) := (hexDecode s).bind (Bytes.ofList 32)

def decode33 (s : Str) : Option (Bytes 33) := (hexDecode s).bind (Bytes.ofList 33)

/-- The bytes of a text that decodes, nothing for one that does not. -/
def decodedOrEmpty (s : Str) : List UInt8 := (hexDecode s).getD []

/-- `map_err(|_| Error::InvalidPoint)`. -/
def orInvalidPoint {α : Type} : Option α → Result α
  | some value => .ok value
  | none => .error (.err .invalidPoint)

/-- `.ok()`: an error becomes `none`, a panic stays a panic. -/
def okOnly {α : Type} : Result α → Result (Option α)
  | .ok value => .ok (some value)
  | .error (.err _) => .ok none
  | .error (.panic reason) => .error (.panic reason)

section GroupMember

variable (Pt : Type) [AddCommGroup Pt] [Module Scalar Pt] [Curve Pt]

/-- Check if a share belongs to a group. -/
def isGroupMember (group : Group) (share : Share) : Result Bool :=
  match decode32 share.seckey with
  | none => .ok false
  | some seckey => do
    let pubkey ← getPubkey Pt seckey
    let pubkeyHex := hexEncode pubkey.data
    return group.commits.any fun c => c.idx == share.idx && c.pubkey == pubkeyHex

end GroupMember

/-! ## Session packages -/

section Packages

variable [Sha2]

/-- SHA-256(session_id || member_idx_be32 || sighash_vec_concat). -/
def getSighashBinder (sessionId : Bytes 32) (memberIdx : UInt32) (sigvec : List Str) : Bytes 32 :=
  Sha2.sha256 (sessionId.data ++ natToBytes 4 memberIdx.toNat ++ sigvec.flatMap decodedOrEmpty)

/-- Compute the group ID from a group package: SHA-256(commits_prefix || group_pk). -/
def computeGroupId (group : Group) : Bytes 32 :=
  let sorted := group.commits.insertionSort fun a b => a.idx ≤ b.idx
  let commitsPrefix := sorted.flatMap fun c =>
    (serializeScalarU32 c.idx).data ++ decodedOrEmpty c.hiddenPn ++ decodedOrEmpty c.binderPn
  Sha2.sha256 (commitsPrefix ++ decodedOrEmpty group.groupPk)

/-- Compute the session ID from the group ID and session template fields. -/
def computeSessionId (group : Group) (request : SignCompleteRequestInner) : Bytes 32 :=
  let content := match request.content with
    | some content => decodedOrEmpty content
    | none => [0x00]
  Sha2.sha256 ((computeGroupId group).data ++ request.members.flatMap numToBytesBeVarwidth ++
    request.hash.flatMap decodedOrEmpty ++ content ++ utf8 (String.ofList request.kind) ++
    natToBytes 4 request.stamp.toNat)

/-- Verify that the request's gid/sid match what we'd compute from the group. -/
def verifySessionPkg (group : Group) (request : SignCompleteRequestInner) : Bool :=
  hexEncode (computeGroupId group).data == request.gid &&
    hexEncode (computeSessionId group request).data == request.sid

end Packages

/-! ## Signing -/

section Psig

variable (Pt : Type) [AddCommGroup Pt] [Module Scalar Pt] [Curve Pt] [Sha2]

/-- Tweak a raw pair of hex public nonces for a given sighash vector. -/
def tweakPnonce (pn : PublicNonceItem) (sessionId : Bytes 32) (sigvec : List Str) :
    Result PublicNonce := do
  let bindHash := getSighashBinder sessionId pn.idx sigvec
  let hidden ← orInvalidPoint (decode33 pn.hiddenPn)
  let hiddenPn ← tweakPubkey Pt hidden.data bindHash
  let binder ← orInvalidPoint (decode33 pn.binderPn)
  let binderPn ← tweakPubkey Pt binder.data bindHash
  return { idx := pn.idx, hiddenPn, binderPn }

/-- Build the signing context of the request's single sighash vector from an explicit
set of base public nonces.  Nonces that do not tweak are left out. -/
def buildSighashContextFromPnonces (group : Group) (request : SignCompleteRequestInner)
    (sessionId : Bytes 32) (base : List PublicNonceItem) :
    Result (Bytes 32 × GroupSigningCtx Pt) := do
  let groupPk ← orInvalidPoint (decode33 group.groupPk)
  match request.hash with
  | [] => throw (.panic "index out of bounds")
  | first :: rest =>
    let sighash ← orInvalidPoint (decode32 first)
    let tweaks := rest.filterMap decode32
    let pnonces ← base.filterMapM fun pn => okOnly (tweakPnonce Pt pn sessionId request.hash)
    let ctx ← getGroupSigningCtx Pt groupPk.data pnonces sighash.data tweaks
    return (sighash, ctx)

/-- Tweak a fresh round-1 secret nonce for a given sighash vector. -/
def tweakSecretNonce (secret : SecretNonce) (sessionId : Bytes 32) (sigvec : List Str) :
    SecretNonce :=
  let bindHash := getSighashBinder sessionId secret.idx sigvec
  { idx := secret.idx
    hiddenSn := tweakSeckey secret.hiddenSn bindHash
    binderSn := tweakSeckey secret.binderSn bindHash }

/-- Create a partial signature package for the two-round flow: signs with a fresh
round-1 secret nonce and builds contexts from the request's fresh `pnonces`. -/
def createPsigPkgWithNonce (input : SigningInput) : Result SignCompleteResult := do
  let sessionId := computeSessionId input.group input.request
  let (sighash, ctx) ←
    buildSighashContextFromPnonces Pt input.group input.request sessionId input.pnonces
  let seckey ← orInvalidPoint (decode32 input.share.seckey)
  let pubkey ← getPubkey Pt seckey
  let snonce := tweakSecretNonce input.secret sessionId input.request.hash
  let sig ← signMsg ctx { idx := input.share.idx, seckey } snonce
  return { idx := input.share.idx
           psig := (hexEncode sighash.data, hexEncode sig.psig.data)
           pubkey := hexEncode pubkey.data
           sid := hexEncode sessionId.data }

end Psig

/-! ## ECDH -/

section Ecdh

variable (Pt : Type) [AddCommGroup Pt] [Module Scalar Pt] [Curve Pt]

def generatorX : Str := "79be667ef9dcbbac55a06295ce870b07029bfcdb2dce28d959f2815b16f81798".toList

/-- Create an ECDH package. -/
def createEcdhPkg (request : EcdhRequest) (share : Share) : Result EcdhResult := do
  if request.ecdhPk == generatorX then throw (.err .invalidPoint)
  let seckey ← orInvalidPoint (decode32 share.seckey)
  let ecdhPk ← orInvalidPoint (decode32 request.ecdhPk)
  let ecdhShare ← createEcdhShare Pt request.members { idx := share.idx, seckey } ecdhPk.data
  return { idx := ecdhShare.idx
           keyshare := hexEncode ecdhShare.pubkey.data
           members := request.members
           ecdhPk := request.ecdhPk }

end Ecdh

end Pomade.Signer
