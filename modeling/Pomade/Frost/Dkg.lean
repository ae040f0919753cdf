import Pomade.Frost.Panics
import Pomade.Frost.SignSession
import Pomade.Frost.Verification

/-! # Distributed key generation

`frost/dkg.rs`, from the packages that the participants broadcast to the group they agree on.
Nothing in the packages of the others can be relied on, and three sums of their points are
serialized.
-/

namespace Pomade.Frost

open Pomade.Lib

/-! ## Packages -/

/-- A Schnorr proof of possession of the secret behind `vss_commits[0]`. -/
structure DkgPop where
  r : Bytes 33
  z : Bytes 32

/-- One participant's Round 1 broadcast. -/
structure DkgCommitPackage where
  idx : UInt32
  vssCommits : List (Bytes 33)
  pop : DkgPop

/-- One participant's Round 2 private message to a specific recipient. -/
structure DkgSharePackage where
  senderIdx : UInt32
  recipientIdx : UInt32
  seckey : Bytes 32

/-- A participant's complete local state after DKG finalization. -/
structure DkgOutput where
  share : SharePackage
  group : GroupPackage
  vssCommits : List (Bytes 33)

section Dkg

variable (Pt : Type) [AddCommGroup Pt] [Module Scalar Pt] [Curve Pt]

/-! ## Proofs of possession -/

/-- Challenge scalar for the proof of possession. -/
def dkgPopChallenge [Sha2] (idx : UInt32) (c0 r : Bytes 33) : Scalar :=
  modN (Sha2.sha256 (utf8 "frost-taproot/dkg-pop/challenge/v1" ++ natToBytes 4 idx.toNat ++
    c0.data ++ r.data)).toNat

/-- Verify a proof of possession against the committed point. -/
def verifyDkgPop [Sha2] (idx : UInt32) (c0 : Bytes 33) (pop : DkgPop) : Result Bool := do
  let rPoint : Pt ← liftX pop.r.data
  let c0Point : Pt ← liftX c0.data
  let e := dkgPopChallenge idx c0 pop.r
  let z := scalarFromBytes pop.z
  let lhs := scalarBaseMulti Pt z
  let rhs ← elementAdd (some rPoint) (some (scalarMulti c0Point e))
  -- Both sides are public points; compare their canonical serializations.
  let lhs ← serializePoint lhs
  let rhs ← serializePoint rhs
  return decide (lhs = rhs)

/-- One round of the first loop of `dkg_finalize`. -/
def checkDkgPop [Sha2] (c : DkgCommitPackage) : Result Unit :=
  match c.vssCommits.head? with
  | none => throw (.err (.assertion ("participant " ++ toString c.idx ++ " has no VSS commits")))
  | some c0 => do
    if !(← verifyDkgPop Pt c.idx c0 c.pop) then
      throw (.err (.assertion
        ("DKG proof of possession failed for participant " ++ toString c.idx)))

/-! ## Shares -/

/-- Round 2: generate the private share for one recipient. -/
def dkgRound2 (senderIdx : UInt32) (secretCoeffs : List (Bytes 32)) (recipientIdx : UInt32) :
    Result DkgSharePackage := do
  let coeffs := secretCoeffs.map scalarFromBytes
  let x := indexToScalar recipientIdx
  let shareScalar ← evaluateX coeffs x
  return { senderIdx, recipientIdx, seckey := scalarToBytes shareScalar }

/-- Verify a share received during Round 2 against the sender's VSS commitments. -/
def verifyDkgShare (share : DkgSharePackage) (senderCommits : DkgCommitPackage) (threshold : Nat) :
    Result Bool :=
  verifyShare Pt senderCommits.vssCommits { idx := share.recipientIdx, seckey := share.seckey }
    threshold

/-- One round of the second loop of `dkg_finalize`. -/
def checkDkgShare (allCommits : List DkgCommitPackage) (threshold : Nat) (pkg : DkgSharePackage) :
    Result Unit :=
  match allCommits.find? fun c => c.idx == pkg.senderIdx with
  | none => throw (.err (.recordNotFound pkg.senderIdx))
  | some senderCommits => do
    if !(← verifyDkgShare Pt pkg senderCommits threshold) then
      throw (.err (.assertion
        ("DKG share from participant " ++ toString pkg.senderIdx ++ " failed VSS verification")))

/-! ## Sums -/

/-- Sum a list of compressed points into one point. -/
def sumPoints (points : List (Bytes 33)) : Result (Bytes 33) :=
  match points with
  | [] => throw (.err (.assertion "cannot sum empty point list"))
  | first :: rest => do
    let acc : Pt ← liftX first.data
    let acc ← rest.foldlM (fun acc p => do
      let point : Pt ← liftX p.data
      return acc + point) acc
    serializePoint acc

/-- One round of the loop of `eval_vss_pubkey`. -/
def addVssTerm (idx : UInt32) (acc : Option Pt) (commit : Bytes 33 × Nat) : Result (Option Pt) := do
  let point : Pt ← liftX commit.1.data
  let exp := powN idx.toNat commit.2
  let term := scalarMulti point exp
  match acc with
  | none => return some term
  | some a => return some (a + term)

/-- Evaluate the VSS commitment polynomial at a participant index. -/
def evalVssPubkey (commits : List (Bytes 33)) (idx : UInt32) : Result (Bytes 33) := do
  if commits.isEmpty then throw (.err (.assertion "no VSS commits"))
  let acc ← commits.zipIdx.foldlM (addVssTerm Pt idx) none
  match acc with
  | none => throw (.panic "called `Option::unwrap()` on a `None` value")
  | some acc => serializePoint acc

/-- One round of the loop that merges the commitments. -/
def mergeCommits (acc : Option (List (Bytes 33))) (c : DkgCommitPackage) :
    Result (Option (List (Bytes 33))) :=
  match acc with
  | none => return some c.vssCommits
  | some prev => do
    let merged ← mergeShareCommits Pt prev c.vssCommits
    return some merged

/-- The package of a member. -/
def dkgMember (groupVssCommits : List (Bytes 33)) (c : DkgCommitPackage) : Result MemberPackage := do
  let sharePubkey ← evalVssPubkey Pt groupVssCommits c.idx
  let identityPk ← itemAt c.vssCommits 0
  return { idx := c.idx, pubkey := sharePubkey, identityPk := some identityPk }

/-- Finalize DKG: aggregate received shares and derive the group key. -/
def dkgFinalize [Sha2] (myIdx : UInt32) (myCoeffs : List (Bytes 32))
    (received : List DkgSharePackage) (allCommits : List DkgCommitPackage) (threshold : Nat) :
    Result DkgOutput := do
  forM allCommits (checkDkgPop Pt)
  forM received (checkDkgShare Pt allCommits threshold)
  let ownSharePkg ← dkgRound2 myIdx myCoeffs myIdx
  let ownShare : SecretShare := { idx := myIdx, seckey := ownSharePkg.seckey }
  let aggregate ← combineSet
    (ownShare :: received.map fun pkg => { idx := myIdx, seckey := pkg.seckey })
  let sortedCommits := allCommits.insertionSort fun a b => a.idx ≤ b.idx
  let firstCommits ← sortedCommits.mapM fun c => itemAt c.vssCommits 0
  let groupPk ← sumPoints Pt firstCommits
  match ← sortedCommits.foldlM (mergeCommits Pt) none with
  | none => throw (.err (.assertion "no VSS commits to merge"))
  | some groupVssCommits => do
    let members ← sortedCommits.mapM (dkgMember Pt groupVssCommits)
    return { share := { idx := myIdx, seckey := aggregate.seckey }
             group := { groupPk, threshold, members }
             vssCommits := groupVssCommits }

end Dkg

end Pomade.Frost
