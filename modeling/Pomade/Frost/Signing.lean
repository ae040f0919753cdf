import Mathlib.Data.List.Sort
import Pomade.Frost.Curve

/-! # Partial signatures and ECDH shares

`poly.rs`, `commit.rs`, `ecc/state.rs`, `context.rs`, the signing half of
`sign.rs`, and `ecdh.rs`, with the records of `types/`.
-/

namespace Pomade.Frost

open Pomade.Lib

/-! ## Types -/

structure SecretShare where
  idx : UInt32
  seckey : Bytes 32
deriving DecidableEq

structure PublicShare where
  idx : UInt32
  pubkey : Bytes 33
deriving DecidableEq

/-- A participant's secret nonces for one signing round. -/
structure SecretNonce where
  idx : UInt32
  binderSn : Bytes 32
  hiddenSn : Bytes 32
deriving DecidableEq

/-- A participant's public nonce commitments for one signing round. -/
structure PublicNonce where
  idx : UInt32
  binderPn : Bytes 33
  hiddenPn : Bytes 33
deriving DecidableEq

/-- Combined secret + public nonce package for a participant. -/
structure CommitmentPackage where
  idx : UInt32
  binderSn : Bytes 32
  hiddenSn : Bytes 32
  binderPn : Bytes 33
  hiddenPn : Bytes 33

def CommitmentPackage.secretNonce (pkg : CommitmentPackage) : SecretNonce where
  idx := pkg.idx
  binderSn := pkg.binderSn
  hiddenSn := pkg.hiddenSn

/-- Per-participant binding factor. -/
structure BindFactor where
  idx : UInt32
  factor : Bytes 32

/-- A partial signature produced by one participant. -/
structure ShareSignature where
  idx : UInt32
  pubkey : Bytes 33
  psig : Bytes 32

/-- Accumulated parity/tweak state for a group key. -/
structure PointState (Pt : Type) where
  parity : Scalar
  point : Pt
  state : Scalar
  tweak : Scalar

/-- Full signing context = key context + commit context. -/
structure GroupSigningCtx (Pt : Type) where
  groupPt : PointState Pt
  groupPk : Bytes 33
  bindFactors : List BindFactor
  bindPrefix : List UInt8
  challenge : Scalar
  groupPn : Bytes 33
  indexes : List UInt32
  message : List UInt8
  pnonces : List PublicNonce

/-! ## Interpolation -/

/-- Modular inverse of a scalar. -/
def scalarInvert (a : Scalar) : Result Scalar :=
  if a = 0 then .error (.err .scalarInversion) else .ok a⁻¹

def isIncluded (array : List Scalar) (item : Scalar) : Result Unit :=
  if item ∈ array then .ok ()
  else .error (.err (.assertion "item is not included in array"))

-- Only the elements of the list are looked at, not every scalar there is.
local instance (array : List Scalar) (p : Scalar → Prop) [DecidablePred p] :
    Decidable (∀ x ∈ array, p x) :=
  List.decidableBAll p array

def isUniqueSet (array : List Scalar) : Result Unit :=
  if ∀ x ∈ array, array.count x = 1 then .ok ()
  else .error (.err (.assertion "item in set is not unique"))

/-- Compute the Lagrange basis polynomial value at x=0 for the given x-coordinate,
relative to the set of x-coordinates L. -/
def interpolateX (l : List Scalar) (x : Scalar) : Result Scalar := do
  isIncluded l x
  isUniqueSet l
  let others := l.filter fun xj => decide (xj ≠ x)
  let numerator := others.prod
  let denominator := (others.map fun xj => xj + -x).prod
  let inv ← scalarInvert denominator
  return numerator * inv

/-- Compute the Lagrange coefficient for participant P relative to members L,
evaluated at point x. -/
def calcLagrangeCoeff (l : List Scalar) (p x : Scalar) : Result Scalar := do
  isUniqueSet l
  let others := l.filter fun xj => decide (xj ≠ p)
  let numerator := (others.map fun xj => x + -xj).prod
  let denominator := (others.map fun xj => p + -xj).prod
  let inv ← scalarInvert denominator
  return numerator * inv

/-! ## Commitments -/

section Commitments

variable (Pt : Type) [AddCommGroup Pt] [Module Scalar Pt] [Curve Pt] [Sha2]

def getNonceIds (pnonces : List PublicNonce) : List UInt32 := pnonces.map (·.idx)

/-- Encode all public nonces into a sorted byte prefix. -/
def getCommitsPrefix (pnonces : List PublicNonce) : List UInt8 :=
  let sorted := pnonces.insertionSort fun a b => a.idx ≤ b.idx
  sorted.flatMap fun pn =>
    (serializeScalarU32 pn.idx).data ++ pn.hiddenPn.data ++ pn.binderPn.data

/-- Build the group signing prefix: group_pk || H4(msg) || H5(commit_list). -/
def getGroupPrefix (pnonces : List PublicNonce) (groupPk : Bytes 33) (message : List UInt8) :
    List UInt8 :=
  groupPk.data ++ (h4 message).data ++ (h5 (getCommitsPrefix pnonces)).data

/-- Look up the binding factor for a given participant index. -/
def getBindFactor (binders : List BindFactor) (idx : UInt32) : Result (Bytes 32) :=
  match binders.find? fun b => b.idx == idx with
  | some b => .ok b.factor
  | none => .error (.err (.recordNotFound idx))

/-- Compute per-participant binding factors from the group prefix. -/
def getGroupBinders (pnonces : List PublicNonce) (groupPrefix : List UInt8) : List BindFactor :=
  pnonces.map fun pn =>
    { idx := pn.idx, factor := h1 (groupPrefix ++ (serializeScalarU32 pn.idx).data) }

/-- One round of the loop of `get_group_pubnonce`. -/
def addPubnonce (binders : List BindFactor) (groupCommit : Option Pt) (pn : PublicNonce) :
    Result (Option Pt) := do
  let hiddenElem : Pt ← liftX pn.hiddenPn.data
  let bindingElem : Pt ← liftX pn.binderPn.data
  let bindFactor ← getBindFactor binders pn.idx
  let factoredElem := scalarMulti bindingElem (scalarFromBytes bindFactor)
  let groupCommit ← elementAdd groupCommit (some hiddenElem)
  let groupCommit ← elementAdd (some groupCommit) (some factoredElem)
  return some groupCommit

/-- Compute the group public nonce: sum of (hidden_pn + bind_factor * binder_pn)
for each participant. -/
def getGroupPubnonce (pnonces : List PublicNonce) (binders : List BindFactor) :
    Result (Bytes 33) := do
  let groupCommit ← pnonces.foldlM (addPubnonce Pt binders) none
  match groupCommit with
  | some pt => serializePoint pt
  | none => throw (.err .bothPointsNull)

/-- Create a commitment package (secret + public nonces) for a signing session from
the two random seeds. -/
def createCommitPkg (secretShare : SecretShare) (hiddenSeed binderSeed : Bytes 32) :
    Result CommitmentPackage := do
  let binderSn := generateNonce secretShare.seckey binderSeed
  let hiddenSn := generateNonce secretShare.seckey hiddenSeed
  let binderPn ← getPubkey Pt binderSn
  let hiddenPn ← getPubkey Pt hiddenSn
  return { idx := secretShare.idx, binderSn, hiddenSn, binderPn, hiddenPn }

end Commitments

/-! ## Signing contexts -/

section Contexts

variable (Pt : Type) [AddCommGroup Pt] [Module Scalar Pt] [Curve Pt] [Sha2]

variable {Pt} in
def parityOf (point : Pt) : Scalar := if hasEvenY point then 1 else -1

variable {Pt} in
/-- One tweak of `get_point_state`. -/
def tweakPoint (acc : Pt × Scalar × Scalar) (tweakBytes : Bytes 32) : Result (Pt × Scalar × Scalar) := do
  let (point, state, tweak) := acc
  let t := scalarFromBytes tweakBytes
  let tg := scalarBaseMulti Pt t
  let parity := parityOf point
  let point := if hasEvenY point then point else negatePoint point
  let point ← elementAdd (some point) (some tg)
  return (point, state * parity, t + parity * tweak)

variable {Pt} in
/-- Computes the accumulative parity state for a given point with optional key tweaks. -/
def getPointState (element : Pt) (tweaks : List (Bytes 32)) : Result (PointState Pt) := do
  let (point, state, tweak) ← tweaks.foldlM tweakPoint (element, 1, 0)
  return { parity := parityOf point, point, state, tweak }

/-- Build the full signing context. -/
def getGroupSigningCtx (groupPk : List UInt8) (pnonces : List PublicNonce)
    (message : List UInt8) (tweaks : List (Bytes 32)) : Result (GroupSigningCtx Pt) := do
  let intPt : Pt ← liftX groupPk
  let _ ← serializePoint intPt
  let groupPt ← getPointState intPt tweaks
  let groupPk ← serializePoint groupPt.point
  let bindPrefix := getGroupPrefix pnonces groupPk message
  let bindFactors := getGroupBinders pnonces bindPrefix
  let groupPn ← getGroupPubnonce Pt pnonces bindFactors
  let challenge ← getChallenge groupPn.data groupPk.data message
  return { groupPt, groupPk, bindFactors, bindPrefix, challenge, groupPn,
           indexes := getNonceIds pnonces, message, pnonces }

variable {Pt} in
/-- Produce a partial signature for a signing session. -/
def signMsg (ctx : GroupSigningCtx Pt) (share : SecretShare) (snonce : SecretNonce) :
    Result ShareSignature := do
  if snonce.idx ≠ share.idx then
    throw (.err (.assertion
      s!"commit index does not match share index: {snonce.idx} !== {share.idx}"))
  let bindFactor ← getBindFactor ctx.bindFactors share.idx
  let indexes := ctx.indexes.map indexToScalar
  let coefficient ← interpolateX indexes (indexToScalar share.idx)
  let seckey := scalarFromBytes share.seckey
  let rElem : Pt ← liftX ctx.groupPn.data
  let snonceH := if hasEvenY rElem then scalarFromBytes snonce.hiddenSn
    else -scalarFromBytes snonce.hiddenSn
  let snonceB := if hasEvenY rElem then scalarFromBytes snonce.binderSn
    else -scalarFromBytes snonce.binderSn
  let sk := ctx.groupPt.parity * ctx.groupPt.state * seckey
  let nk := snonceH + snonceB * scalarFromBytes bindFactor
  let ps := ctx.challenge * coefficient * sk + nk
  let pubkey ← getPubkey Pt share.seckey
  return { idx := share.idx, psig := scalarToBytes ps, pubkey }

end Contexts

/-! ## ECDH -/

section Ecdh

variable (Pt : Type) [AddCommGroup Pt] [Module Scalar Pt] [Curve Pt]

/-- Compute an ECDH share: a participant's contribution to a shared secret. -/
def createEcdhShare (members : List UInt32) (share : SecretShare) (pubkey : List UInt8) :
    Result PublicShare := do
  let mbrs := (members.filter fun idx => decide (idx ≠ share.idx)).map indexToScalar
  let idx := indexToScalar share.idx
  let secret := scalarFromBytes share.seckey
  let point : Pt ← liftX pubkey
  let lCoeff ← calcLagrangeCoeff mbrs idx 0
  let ecdhPt := scalarMulti point (lCoeff * secret)
  let pubkey ← serializePoint ecdhPt
  return { idx := share.idx, pubkey }

end Ecdh

end Pomade.Frost
