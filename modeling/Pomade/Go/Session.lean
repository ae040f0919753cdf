import Pomade.Signer.Session

/-! # The bridge to FROST, Go signer

`session.go`.  A Go string is a sequence of bytes, so here a text lists bytes, one
character each, and `len` and slicing are those of lists.  A function that returns a
value and `ok` returns a `Result` here, `ok = false` being an error value.
-/

namespace Pomade.Go

open Pomade.Lib Pomade.Frost Pomade.Signer

/-- The functions of `frost-taproot-go` that the signer calls. -/
class FrostTaproot where
  /-- `types.GroupSigningCtx`. -/
  Ctx : Type
  /-- `helpers.GetPubkey`. -/
  getPubkey : (secret : Bytes 32) → Bytes 33
  /-- `helpers.GenerateNonce` with the auxiliary bytes it draws. -/
  generateNonce : (secret aux : Bytes 32) → Bytes 32
  /-- `helpers.TweakSeckey`. -/
  tweakSeckey : (seckey tweak : Bytes 32) → Bytes 32
  /-- `helpers.TweakPubkey`. -/
  tweakPubkey : (pubkey : Bytes 33) → (tweak : Bytes 32) → Result (Bytes 33)
  /-- `context.GetGroupSigningCtx`. -/
  getGroupSigningCtx : (groupPk : Bytes 33) → (pnonces : List PublicNonce) →
    (message : Bytes 32) → (tweaks : List (Bytes 32)) → Result Ctx
  /-- `sign.SignMsg`. -/
  signMsg : Ctx → SecretShare → SecretNonce → Result ShareSignature
  /-- `ecdh.CreateEcdhShare`. -/
  createEcdhShare : (members : List UInt32) → SecretShare → (pubkey : Bytes 32) →
    Result PublicShare

/-- The bytes of a Go string. -/
def stringBytes (s : Str) : List UInt8 := s.map fun c => UInt8.ofNat c.toNat

def decodeHex32 (s : Str) : Option (Bytes 32) := (hexDecode s).bind (Bytes.ofList 32)

def decodeHex33 (s : Str) : Option (Bytes 33) := (hexDecode s).bind (Bytes.ofList 33)

/-- An `ok` that is false. -/
def orFail {α : Type} : Option α → Result α
  | some value => .ok value
  | none => .error (.err .invalidPoint)

section Packages

variable [Sha2]

/-- The inner loop of the sort: the smallest index moves to the front. -/
def smallestFirst (head : Commit) : List Commit → Commit × List Commit
  | [] => (head, [])
  | c :: rest =>
    if c.idx < head.idx then
      let (least, others) := smallestFirst c rest
      (least, head :: others)
    else
      let (least, others) := smallestFirst head rest
      (least, c :: others)

/-- The exchange sort of `computeGroupID`, one round for each position. -/
def exchangeSort : (rounds : Nat) → List Commit → List Commit
  | rounds + 1, c :: rest =>
    let (least, others) := smallestFirst c rest
    least :: exchangeSort rounds others
  | _, commits => commits

def computeGroupID (group : Group) : Bytes 32 :=
  let commits := exchangeSort group.commits.length group.commits
  let written := commits.flatMap fun c =>
    natToBytes 32 c.idx.toNat ++ decodedOrEmpty c.hiddenPn ++ decodedOrEmpty c.binderPn
  Sha2.sha256 (written ++ decodedOrEmpty group.groupPk)

def numToBytesVarWidth (n : UInt32) : List UInt8 :=
  if n ≤ 0xFF then natToBytes 1 n.toNat
  else if n ≤ 0xFFFF then natToBytes 2 n.toNat
  else natToBytes 4 n.toNat

def computeSessionID (group : Group) (request : SignCompleteRequestInner) : Bytes 32 :=
  let content := match request.content with
    | none => [0x00]
    | some content => decodedOrEmpty content
  Sha2.sha256 ((computeGroupID group).data ++ request.members.flatMap numToBytesVarWidth ++
    request.hash.flatMap decodedOrEmpty ++ content ++ stringBytes request.kind ++
    natToBytes 4 request.stamp.toUInt32.toNat)

def getSighashBinder (sessionID : Bytes 32) (memberIdx : UInt32) (sigvec : List Str) : Bytes 32 :=
  Sha2.sha256 (sessionID.data ++ natToBytes 4 memberIdx.toNat ++ sigvec.flatMap decodedOrEmpty)

def verifySessionPkg (group : Group) (request : SignCompleteRequestInner) : Bool :=
  let gid := computeGroupID group
  let sid := computeSessionID group request
  hexEncode gid.data == request.gid && hexEncode sid.data == request.sid

end Packages

section Frost

variable [FrostTaproot]

def isGroupMember (group : Group) (share : Share) : Bool :=
  match decodeHex32 share.seckey with
  | none => false
  | some seckey =>
    let pubkeyHex := hexEncode (FrostTaproot.getPubkey seckey).data
    group.commits.any fun c => c.idx == share.idx && c.pubkey == pubkeyHex

variable [Sha2]

def tweakPnonceItem (pn : PublicNonceItem) (sessionID : Bytes 32) (sigvec : List Str) :
    Result PublicNonce := do
  let binder := getSighashBinder sessionID pn.idx sigvec
  let hidden ← orFail (decodeHex33 pn.hiddenPn)
  let hiddenPn ← FrostTaproot.tweakPubkey hidden binder
  let binderPoint ← orFail (decodeHex33 pn.binderPn)
  let binderPn ← FrostTaproot.tweakPubkey binderPoint binder
  return { idx := pn.idx, hiddenPn, binderPn }

/-- The single signing context of a request, with its sighash. -/
def buildSighashContextsFromPnonces (group : Group) (request : SignCompleteRequestInner)
    (sessionID : Bytes 32) (pnonces : List PublicNonceItem) :
    Result (Bytes 32 × FrostTaproot.Ctx) := do
  let groupPk ← orFail (decodeHex33 group.groupPk)
  match request.hash with
  | [] => orFail none
  | first :: rest =>
    let sighash ← orFail (decodeHex32 first)
    let tweaks := rest.filterMap decodeHex32
    let chosen := request.members.flatMap fun id => pnonces.filter fun pn => pn.idx == id
    let tweaked ← chosen.mapM fun pn => tweakPnonceItem pn sessionID request.hash
    let ctx ← FrostTaproot.getGroupSigningCtx groupPk tweaked sighash tweaks
    return (sighash, ctx)

def createPsigPkgWithNonce (input : SigningInput) : Result SignCompleteResult := do
  let sessionID := computeSessionID input.group input.request
  let (sighash, ctx) ←
    buildSighashContextsFromPnonces input.group input.request sessionID input.pnonces
  let seckey ← orFail (decodeHex32 input.share.seckey)
  let binder := getSighashBinder sessionID input.share.idx input.request.hash
  let snonce : SecretNonce :=
    { idx := input.share.idx
      hiddenSn := FrostTaproot.tweakSeckey input.secret.hiddenSn binder
      binderSn := FrostTaproot.tweakSeckey input.secret.binderSn binder }
  let sig ← FrostTaproot.signMsg ctx { idx := input.share.idx, seckey } snonce
  return { idx := input.share.idx
           psig := (hexEncode sighash.data, hexEncode sig.psig.data)
           pubkey := hexEncode (FrostTaproot.getPubkey seckey).data
           sid := hexEncode sessionID.data }

end Frost

section Ecdh

variable [FrostTaproot]

def secp256k1P : Nat := 0xFFFFFFFFFFFFFFFFFFFFFFFFFFFFFFFFFFFFFFFFFFFFFFFFFFFFFFFEFFFFFC2F

def secp256k1Gx : Nat := 0x79BE667EF9DCBBAC55A06295CE870B07029BFCDB2DCE28D959F2815B16F81798

def createEcdhPkg (request : EcdhRequest) (share : Share) : Result EcdhResult := do
  let ecdhPk ← orFail (decodeHex32 request.ecdhPk)
  -- x-coordinates outside [1, P-1] would be reduced mod P by the library, and the
  -- generator would reveal the share
  let x := ecdhPk.toNat
  if x = 0 ∨ secp256k1P ≤ x then throw (.err .invalidPoint)
  if x = secp256k1Gx then throw (.err .invalidPoint)
  let seckey ← orFail (decodeHex32 share.seckey)
  let ecdhShare ← FrostTaproot.createEcdhShare request.members { idx := share.idx, seckey } ecdhPk
  return { idx := ecdhShare.idx
           keyshare := hexEncode ecdhShare.pubkey.data
           members := request.members
           ecdhPk := request.ecdhPk }

end Ecdh

end Pomade.Go
