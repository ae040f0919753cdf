import Pomade.Go.Session

/-! # The Go FROST library

`ecc/util.go`, `ecc/secp_ct.go`, `ecc/hash.go`, `helpers.go`, `poly.go`, `commit.go`,
`context.go`, `SignMsg` and `CreateEcdhShare`.  The curve arithmetic itself is decred's and
libsecp256k1's and the square root is that of `math/big`; `Curve` states what the code relies
on, as it does for the Rust crate.
-/

namespace Pomade.Go.Taproot

open Pomade.Lib Pomade.Frost

/-! ## Points -/

/-- A point with its x-coordinate as a number, which `LiftX` does not reduce.  The identity has
the coordinates 0 and 0. -/
structure Point (Pt : Type) where
  x : Nat
  pt : Pt

section Points

variable {Pt : Type} [AddCommGroup Pt] [Module Scalar Pt] [Curve Pt]

def fromSecpPoint (P : Pt) : Point Pt where
  x := if Curve.isIdentity P then 0 else (Curve.affineX P).toNat
  pt := P

/-- The lowest bit of the y-coordinate. -/
def yBit (p : Point Pt) : Bool := !Curve.isIdentity p.pt && Curve.yIsOdd p.pt

/-- The point with an x-coordinate modulo the field prime and a parity of y. -/
def liftCoordinate (x : Nat) (odd : Bool) : Result (Point Pt) :=
  match (Curve.decompress (Bytes.ofNat 32 (x % secp256k1P)) odd : Option Pt) with
  | some pt => .ok { x, pt }
  | none => .error (.err .invalidPoint)

/-- Lifts an x-only or compressed pubkey to a point. -/
def liftX (bytes : List UInt8) : Result (Point Pt) :=
  if bytes.length = 32 then liftCoordinate (bytesToNat bytes) false
  else if bytes.length = 33 then
    match bytes.head? with
    | some 0x02 => liftCoordinate (bytesToNat bytes.tail) false
    | some 0x03 => liftCoordinate (bytesToNat bytes.tail) true
    | _ => .error (.err .invalidPoint)
  else .error (.err .invalidPoint)

/-- Serializes a point to 33-byte compressed format. -/
def serializePoint (p : Point Pt) : Bytes 33 :=
  Bytes.cons (if yBit p then 0x03 else 0x02) (Bytes.ofNat 32 p.x)

def hasEvenY (p : Point Pt) : Bool := !yBit p

def negatePoint (p : Point Pt) : Point Pt where
  x := p.x
  pt := -p.pt

/-- Adds two points.  Either may be nil. -/
def elementAdd (a b : Option (Point Pt)) : Result (Point Pt) :=
  match a, b with
  | none, none => .error (.err .bothPointsNull)
  | none, some b => .ok b
  | some a, none => .ok a
  | some a, some b =>
    -- for one x there are two points, and each is the negative of the other
    if a.x = b.x ∧ Curve.isIdentity (a.pt + b.pt) then .error (.err .invalidPoint)
    else .ok (fromSecpPoint (a.pt + b.pt))

variable (Pt) in
def scalarBaseMulti (k : Scalar) : Point Pt := fromSecpPoint (k • Curve.generator)

def scalarMulti (p : Point Pt) (k : Scalar) : Point Pt := fromSecpPoint (k • p.pt)

end Points

/-! ## Arithmetic on secrets

The constant-time functions of libsecp256k1 take scalars other than zero; the others are
reduced and computed with `math/big`, with the same result.
-/

section Secrets

variable (Pt : Type) [AddCommGroup Pt] [Module Scalar Pt] [Curve Pt]

def scalarBaseMultiCT (secret : Bytes 32) : Bytes 33 :=
  serializePoint (scalarBaseMulti Pt (scalarFromBytes secret))

/-- A point that does not parse leaves the output zero. -/
def scalarMultiCT (point : Bytes 33) (secret : Bytes 32) : Bytes 33 :=
  match (liftX point.data : Result (Point Pt)) with
  | .ok p => serializePoint (scalarMulti p (scalarFromBytes secret))
  | .error _ => Bytes.ofNat 33 0

def scalarMulCT (secret mult : Bytes 32) : Bytes 32 :=
  scalarToBytes (scalarFromBytes secret * scalarFromBytes mult)

def scalarAddCT (secret addend : Bytes 32) : Bytes 32 :=
  scalarToBytes (scalarFromBytes secret + scalarFromBytes addend)

def scalarNegCT (secret : Bytes 32) : Bytes 32 := scalarToBytes (-scalarFromBytes secret)

end Secrets

/-! ## Hashes

`H4`, `H5` and `Hash340` hash the same bytes as those of the Rust crate.
-/

section Hashes

variable [Sha2]

/-- The blocks after the first one of `expandMsgXmd`. -/
def xmdBlocks (b0 : Bytes 32) (dstPrime : List UInt8) : (count i : Nat) → (last : Bytes 32) →
    List UInt8
  | 0, _, _ => []
  | count + 1, i, last =>
    let xor := List.zipWith (fun a b => a ^^^ b) b0.data last.data
    let block := Sha2.sha256 (xor ++ [UInt8.ofNat i] ++ dstPrime)
    block.data ++ xmdBlocks b0 dstPrime count (i + 1) block

/-- `expand_message_xmd` with SHA-256. -/
def expandMsgXmd (msg dstBytes : List UInt8) (lenInBytes : Nat) : List UInt8 :=
  let ell := (lenInBytes + 31) / 32
  let dstPrime := dstBytes ++ [UInt8.ofNat dstBytes.length]
  let zPad := List.replicate 64 0
  let msgPrime := zPad ++ msg ++ natToBytes 2 lenInBytes ++ [0] ++ dstPrime
  let b0 := Sha2.sha256 msgPrime
  let b1 := Sha2.sha256 (b0.data ++ [1] ++ dstPrime)
  (b1.data ++ xmdBlocks b0 dstPrime (ell - 1) 2 b1).take lenInBytes

/-- Hashes a message to a scalar mod N using XMD. -/
def hashToFieldN (msg dstBytes : List UInt8) : Scalar :=
  let uniform := expandMsgXmd msg dstBytes 48
  let hi16 := uniform.take 16
  let lo32 := uniform.drop 16
  let two256ModN := modN 0x14551231950b75fc4402da1732fc9bebf
  modN (bytesToNat hi16) * two256ModN + modN (bytesToNat lo32)

def h1 (msg : List UInt8) : Bytes 32 := scalarToBytes (hashToFieldN msg (dst "rho"))

def h3 (msg : List UInt8) : Bytes 32 := scalarToBytes (hashToFieldN msg (dst "nonce"))

end Hashes

/-! ## Helpers -/

section Helpers

variable (Pt : Type) [AddCommGroup Pt] [Module Scalar Pt] [Curve Pt]

/-- Generates a secret nonce from a secret and a seed. -/
def generateNonce [Sha2] (secret aux : Bytes 32) : Bytes 32 := h3 (aux.data ++ secret.data)

def getPubkey (secret : Bytes 32) : Bytes 33 := scalarBaseMultiCT Pt secret

def tweakSeckey (seckey tweak : Bytes 32) : Bytes 32 := scalarAddCT seckey tweak

/-- Tweaks a public key: pubkey_point + tweak*G. -/
def tweakPubkey (pubkey : List UInt8) (tweak : Bytes 32) : Result (Bytes 33) := do
  let tweakScalar := scalarFromBytes tweak
  let point : Point Pt ← liftX pubkey
  let tweaked ← elementAdd (some point) (some (scalarBaseMulti Pt tweakScalar))
  return serializePoint tweaked

/-- Computes the BIP340-style challenge hash. -/
def getChallenge [Sha2] (pnonce pubkey message : List UInt8) : Result Scalar := do
  let grpPn ← convertPubkeyToBip340 pnonce
  let grpPk ← convertPubkeyToBip340 pubkey
  if grpPn.length ≠ 32 then
    throw (.err (.assertion "pnonce must be 32 bytes after conversion"))
  if grpPk.length ≠ 32 then
    throw (.err (.assertion "pubkey must be 32 bytes after conversion"))
  return scalarFromBytes (hash340 "BIP0340/challenge" [grpPn, grpPk, message])

end Helpers

/-! ## Interpolation -/

/-- The errors of `poly.go` are texts that no caller looks at. -/
def isUniqueSet (l : List Scalar) : Result Unit :=
  if l.Nodup then .ok () else .error (.err (.assertion "duplicate element in set"))

def scalarInvert (a : Scalar) : Result Scalar :=
  if a = 0 then .error (.err .scalarInversion) else .ok a⁻¹

/-- Computes the Lagrange basis at x=0. -/
def interpolateX (l : List Scalar) (x : Scalar) : Result Scalar := do
  if !l.contains x then throw (.err (.assertion "x not included in set"))
  isUniqueSet l
  let others := l.filter fun xj => decide (xj ≠ x)
  let numerator := others.foldl (fun acc xj => acc * xj) 1
  let denominator := others.foldl (fun acc xj => acc * (xj + -x)) 1
  let inv ← scalarInvert denominator
  return numerator * inv

/-- Computes a Lagrange coefficient. -/
def calcLagrangeCoeff (l : List Scalar) (p x : Scalar) : Result Scalar := do
  isUniqueSet l
  let others := l.filter fun xj => decide (xj ≠ p)
  let numerator := others.foldl (fun acc xj => acc * (x + -xj)) 1
  let denominator := others.foldl (fun acc xj => acc * (p + -xj)) 1
  let inv ← scalarInvert denominator
  return numerator * inv

/-! ## Commitments -/

section Commitments

variable (Pt : Type) [AddCommGroup Pt] [Module Scalar Pt] [Curve Pt] [Sha2]

def getNonceIDs (pnonces : List PublicNonce) : List UInt32 := pnonces.map (·.idx)

/-- Encodes all public nonces into a sorted byte prefix.  So short a list is sorted by
insertion. -/
def getCommitsPrefix (pnonces : List PublicNonce) : List UInt8 :=
  let sorted := pnonces.insertionSort fun a b => a.idx ≤ b.idx
  sorted.flatMap fun pn =>
    (serializeScalarU32 pn.idx).data ++ pn.hiddenPn.data ++ pn.binderPn.data

def getGroupPrefix (pnonces : List PublicNonce) (groupPk : Bytes 33) (message : List UInt8) :
    List UInt8 :=
  let msgHash := h4 message
  let commitHash := h5 (getCommitsPrefix pnonces)
  groupPk.data ++ msgHash.data ++ commitHash.data

def getBindFactor (binders : List BindFactor) (idx : UInt32) : Result (Bytes 32) :=
  match binders.find? fun b => b.idx == idx with
  | some b => .ok b.factor
  | none => .error (.err (.recordNotFound idx))

def getGroupBinders (pnonces : List PublicNonce) (bindPrefix : List UInt8) : List BindFactor :=
  pnonces.map fun pn =>
    { idx := pn.idx, factor := h1 (bindPrefix ++ (serializeScalarU32 pn.idx).data) }

/-- One round of the loop of `GetGroupPubnonce`.  Of two binders with one ID the map keeps the
later one. -/
def addPubnonce (binders : List BindFactor) (groupCommit : Option (Point Pt)) (pn : PublicNonce) :
    Result (Option (Point Pt)) := do
  let hiddenElem ← liftX pn.hiddenPn.data
  let bindingElem ← liftX pn.binderPn.data
  let bindFactor ← getBindFactor binders.reverse pn.idx
  let factoredElem := scalarMulti bindingElem (scalarFromBytes bindFactor)
  let groupCommit ← elementAdd groupCommit (some hiddenElem)
  let groupCommit ← elementAdd (some groupCommit) (some factoredElem)
  return some groupCommit

/-- Computes the group public nonce. -/
def getGroupPubnonce (pnonces : List PublicNonce) (binders : List BindFactor) :
    Result (Bytes 33) := do
  let groupCommit ← pnonces.foldlM (addPubnonce Pt binders) none
  match groupCommit with
  | some point => return serializePoint point
  | none => throw (.err .bothPointsNull)

end Commitments

/-! ## Signing -/

/-- The accumulated parity and tweak state for a group key. -/
structure PointState where
  parity : Bytes 32
  point : Bytes 33
  state : Bytes 32
  tweak : Bytes 32

structure GroupSigningCtx where
  groupPt : PointState
  groupPk : Bytes 33
  bindFactors : List BindFactor
  bindPrefix : List UInt8
  challenge : Bytes 32
  groupPn : Bytes 33
  indexes : List UInt32
  message : List UInt8
  pnonces : List PublicNonce

section Signing

variable (Pt : Type) [AddCommGroup Pt] [Module Scalar Pt] [Curve Pt] [Sha2]

variable {Pt} in
def parityOf (point : Point Pt) : Scalar := if hasEvenY point then 1 else -1

variable {Pt} in
/-- One round of the loop of `GetPointState`. -/
def tweakPoint (acc : Point Pt × Scalar × Scalar) (tBytes : Bytes 32) :
    Result (Point Pt × Scalar × Scalar) := do
  let (point, state, tweak) := acc
  let t := scalarFromBytes tBytes
  let tg := scalarBaseMulti Pt t
  let parity := parityOf point
  let point := if parity = -1 then negatePoint point else point
  let point ← elementAdd (some point) (some tg)
  return (point, state * parity, t + parity * tweak)

variable {Pt} in
/-- Computes the accumulative parity state for a point with tweaks. -/
def getPointState (element : Point Pt) (tweaks : List (Bytes 32)) : Result PointState := do
  let (point, state, tweak) ← tweaks.foldlM tweakPoint (element, 1, 0)
  return { parity := scalarToBytes (parityOf point)
           point := serializePoint point
           state := scalarToBytes state
           tweak := scalarToBytes tweak }

/-- Builds the full signing context. -/
def getGroupSigningCtx (groupPk : List UInt8) (pnonces : List PublicNonce)
    (message : List UInt8) (tweaks : List (Bytes 32)) : Result GroupSigningCtx := do
  let intPt : Point Pt ← liftX groupPk
  let groupPt ← getPointState intPt tweaks
  let groupPk := groupPt.point
  let bindPrefix := getGroupPrefix pnonces groupPk message
  let bindFactors := getGroupBinders pnonces bindPrefix
  let groupPn ← getGroupPubnonce Pt pnonces bindFactors
  let challenge ← getChallenge groupPn.data groupPk.data message
  return { groupPt, groupPk, bindFactors, bindPrefix, challenge := scalarToBytes challenge,
           groupPn, indexes := getNonceIDs pnonces, message, pnonces }

/-- Produces a partial signature for a signing session. -/
def signMsg (ctx : GroupSigningCtx) (share : SecretShare) (snonce : SecretNonce) :
    Result ShareSignature := do
  if snonce.idx ≠ share.idx then
    throw (.err (.assertion "commit index does not match share index"))
  let bindFactor ← getBindFactor ctx.bindFactors share.idx
  let indexes := ctx.indexes.map indexToScalar
  let coefficient ← interpolateX indexes (indexToScalar share.idx)
  let rElem : Point Pt ← liftX ctx.groupPn.data
  let coeff := scalarToBytes coefficient
  let snonceH := if hasEvenY rElem then snonce.hiddenSn else scalarNegCT snonce.hiddenSn
  let snonceB := if hasEvenY rElem then snonce.binderSn else scalarNegCT snonce.binderSn
  -- sk = parity * state * seckey
  let sk := scalarMulCT (scalarMulCT share.seckey ctx.groupPt.state) ctx.groupPt.parity
  -- nk = hidden_sn + binder_sn * bind_factor
  let nk := scalarAddCT snonceH (scalarMulCT snonceB bindFactor)
  -- ps = challenge * coefficient * sk + nk
  let psk := scalarMulCT (scalarMulCT sk ctx.challenge) coeff
  let ps := scalarAddCT psk nk
  return { idx := share.idx, psig := ps, pubkey := getPubkey Pt share.seckey }

/-- Computes an ECDH share contribution. -/
def createEcdhShare (members : List UInt32) (share : SecretShare) (pubkey : List UInt8) :
    Result PublicShare := do
  let mbrs := (members.filter fun idx => decide (idx ≠ share.idx)).map indexToScalar
  let idx := indexToScalar share.idx
  let point : Point Pt ← liftX pubkey
  let lCoeff ← calcLagrangeCoeff mbrs idx 0
  let pCoeff := scalarMulCT share.seckey (scalarToBytes lCoeff)
  return { idx := share.idx, pubkey := scalarMultiCT Pt (serializePoint point) pCoeff }

/-- The library the Go signer is built with. -/
@[reducible] def library : FrostTaproot where
  Ctx := GroupSigningCtx
  getPubkey := getPubkey Pt
  generateNonce := generateNonce
  tweakSeckey := tweakSeckey
  tweakPubkey pubkey tweak := tweakPubkey Pt pubkey.data tweak
  getGroupSigningCtx groupPk pnonces message tweaks :=
    getGroupSigningCtx Pt groupPk.data pnonces message.data tweaks
  signMsg := signMsg Pt
  createEcdhShare members share pubkey := createEcdhShare Pt members share pubkey.data

end Signing

end Pomade.Go.Taproot
