import Pomade.Frost.Signing

/-! # Secret shares

`poly.rs`, `vss.rs`, `shares.rs`, `recover.rs`, `refresh.rs`, `group.rs` and the second half
of `ecdh.rs`.  Where the code draws a random secret because none is given, the draw is a
parameter.
-/

namespace Pomade.Frost

open Pomade.Lib

structure SecretSharePackage where
  idx : UInt32
  vssCommits : List (Bytes 33)
  shares : List SecretShare

structure SecretShareSet where
  shares : List SecretShare
  vssCommits : List (Bytes 33)

structure DealerShareSet where
  shares : List SecretShare
  vssCommits : List (Bytes 33)
  groupPk : Bytes 33

/-! ## Assertions -/

def assertOk (value : Bool) (message : String) : Result Unit :=
  if value then .ok () else .error (.err (.assertion message))

/-- `windows(2).all(|w| w[0] == w[1])`. -/
def allEqual : List UInt32 → Bool
  | [] => true
  | [_] => true
  | a :: b :: rest => a == b && allEqual (b :: rest)

def isEqualSet (array : List UInt32) : Result Unit :=
  assertOk (allEqual array) "set does not have equal items"

def equalArrSize {α β : Type} (a : List α) (b : List β) : Result Unit :=
  assertOk (decide (a.length = b.length))
    ("array lengths are unequal: " ++ toString a.length ++ " !== " ++ toString b.length)

/-- A subtraction of `usize` that must not go below zero. -/
def checkedSub (a b : Nat) : Result Nat :=
  if a < b then .error (.panic "attempt to subtract with overflow") else .ok (a - b)

/-! ## Polynomials -/

/-- Evaluate a polynomial at x using Horner's method.  Coefficients are in ascending
order. -/
def evaluateX (coeffs : List Scalar) (x : Scalar) : Result Scalar :=
  if x = 0 then .error (.err (.assertion "x is zero"))
  else .ok (coeffs.reverse.foldl (fun value coeff => value * x + coeff) 0)

/-- Interpolate a polynomial at x=0 (the root) using Lagrange interpolation. -/
def interpolateRoot (points : List (Scalar × Scalar)) : Result Scalar := do
  let xs := points.map Prod.fst
  points.foldlM (fun p point => do
    let delta ← interpolateX xs point.1
    return p + delta * point.2) 0

/-- Create polynomial coefficients for a Shamir secret sharing scheme.  Coefficient `i`
is `random i` if fewer secrets are given. -/
def createShareCoeffs (secrets : List (Bytes 32)) (threshold : Nat) (random : Nat → Bytes 32) :
    List Scalar :=
  (List.range threshold).map fun i => modN ((secrets[i]?).getD (random i)).toNat

/-! ## Shares -/

/-- Create secret shares by evaluating the polynomial at indices 1..=count. -/
def createShares (coeffs : List Scalar) (count : UInt32) : Result (List SecretShare) :=
  (List.range' 1 count.toNat).mapM fun i => do
    let idx := UInt32.ofNat i
    let scalar ← evaluateX coeffs (indexToScalar idx)
    return { idx, seckey := scalarToBytes scalar }

/-- Sum a list of secret shares into a single scalar. -/
def combineShares (shares : List SecretShare) : Bytes 32 :=
  scalarToBytes ((shares.map fun s => scalarFromBytes s.seckey).foldl (· + ·) 0)

/-- Combine a set of shares that all have the same idx into one share. -/
def combineSet (shares : List SecretShare) : Result SecretShare := do
  isEqualSet (shares.map (·.idx))
  match shares with
  | [] => throw (.panic "index out of bounds: the len is 0 but the index is 0")
  | first :: _ => return { idx := first.idx, seckey := combineShares shares }

/-- Merge two lists of shares by combining matching indices. -/
def mergeShares (sharesA sharesB : List SecretShare) : Result (List SecretShare) := do
  equalArrSize sharesA sharesB
  sharesA.mapM fun curr =>
    match sharesB.find? fun s => s.idx == curr.idx with
    | none => throw (.err (.recordNotFound curr.idx))
    | some aux => combineSet [curr, aux]

/-- Recover the group secret by Lagrange interpolation over a threshold of shares. -/
def deriveSharesSecret (shares : List SecretShare) : Result (Bytes 32) := do
  let points := shares.map fun s => (indexToScalar s.idx, scalarFromBytes s.seckey)
  let secret ← interpolateRoot points
  return scalarToBytes secret

/-! ## Verifiable sharing, recovery and refresh -/

section Packages

variable (Pt : Type) [AddCommGroup Pt] [Module Scalar Pt] [Curve Pt]

/-- Compute VSS commitments: one compressed public key per coefficient. -/
def getShareCommits (coeffs : List Scalar) : Result (List (Bytes 33)) :=
  coeffs.mapM fun c => serializePoint (scalarBaseMulti Pt c)

/-- Merge two sets of VSS commitments by adding corresponding points. -/
def mergeShareCommits (commitsA commitsB : List (Bytes 33)) : Result (List (Bytes 33)) := do
  equalArrSize commitsA commitsB
  (commitsA.zip commitsB).mapM fun pair => do
    let pa : Pt ← liftX pair.1.data
    let pb : Pt ← liftX pair.2.data
    serializePoint (pa + pb)

/-- Create a set of secret shares and VSS commitments. -/
def createShareSet (threshold : Nat) (shareMax : UInt32) (secrets : List (Bytes 32))
    (random : Nat → Bytes 32) : Result SecretShareSet := do
  let coeffs := createShareCoeffs secrets threshold random
  let shares ← createShares coeffs shareMax
  let vssCommits ← getShareCommits Pt coeffs
  return { shares, vssCommits }

/-- Create a dealer share set that also exposes the group public key, the first VSS
commitment. -/
def createDealerSet (threshold : Nat) (shareMax : UInt32) (secrets : List (Bytes 32))
    (random : Nat → Bytes 32) : Result DealerShareSet := do
  let shareSet ← createShareSet Pt threshold shareMax secrets random
  match shareSet.vssCommits with
  | [] => throw (.panic "index out of bounds: the len is 0 but the index is 0")
  | groupPk :: _ => return { shares := shareSet.shares, vssCommits := shareSet.vssCommits, groupPk }

/-- Generate recovery shares that allow a target participant to reconstruct their share. -/
def genRecoveryShares (members : List UInt32) (share : SecretShare) (target : UInt32)
    (threshold : Nat) (secrets : List (Bytes 32)) (random : Nat → Bytes 32) :
    Result SecretSharePackage := do
  assertOk (decide (members.length ≥ threshold)) "not enough members to meet threshold"
  assertOk (decide (members.length = threshold)) "member count must equal threshold"
  let sortedMembers := members.insertionSort fun a b => a ≤ b
  let shareIdx := indexToScalar share.idx
  let targetIdx := indexToScalar target
  let mbrs := (sortedMembers.filter fun idx => decide (idx ≠ share.idx)).map indexToScalar
  let shareSeckey := scalarFromBytes share.seckey
  let lgrngCoeff ← calcLagrangeCoeff mbrs shareIdx targetIdx
  assertOk (decide (lgrngCoeff ≠ 0)) "lagrange coefficient must be greater than zero"
  let randCoeffs := createShareCoeffs secrets (← checkedSub threshold 1) random
  let coeffSum := randCoeffs.foldl (· + ·) 0
  let repairCoeff := lgrngCoeff * shareSeckey - coeffSum
  let repairShares := randCoeffs ++ [repairCoeff]
  let vssCommits ← getShareCommits Pt repairShares
  -- `repair_shares[i]` for member number `i`; there are as many of both.
  let shares := sortedMembers.zipWith (fun idx share => { idx, seckey := scalarToBytes share })
    repairShares
  return { idx := share.idx, vssCommits, shares }

/-- Recover a participant's share by summing aggregated recovery shares. -/
def recoverShare (shares : List SecretShare) (idx : UInt32) : SecretShare where
  idx := idx
  seckey := scalarToBytes ((shares.map fun s => scalarFromBytes s.seckey).foldl (· + ·) 0)

/-- Generate refresh shares for proactive secret sharing.  The polynomial has a zero
constant term. -/
def genRefreshShares (index : UInt32) (threshold : Nat) (shareMax : UInt32)
    (secrets : List (Bytes 32)) (random : Nat → Bytes 32) : Result SecretSharePackage := do
  let subCoeffs := createShareCoeffs secrets (← checkedSub threshold 1) random
  let coeffs := 0 :: subCoeffs
  let shares ← createShares coeffs shareMax
  let vssCommits ← getShareCommits Pt subCoeffs
  return { idx := index, vssCommits, shares }

/-- Apply refresh shares to a current share by summing them. -/
def refreshShare (refreshShares : List SecretShare) (currentShare : SecretShare) :
    Result SecretShare :=
  combineSet (currentShare :: refreshShares)

/-- Derive the shared ECDH secret by summing all participant ECDH shares. -/
def deriveEcdhSecret (shares : List PublicShare) : Result (Bytes 33) := do
  let point ← shares.foldlM (fun (point : Option Pt) share => do
    let pt : Pt ← liftX share.pubkey.data
    let sum ← elementAdd point (some pt)
    return some sum) none
  match point with
  | some pt => serializePoint pt
  | none => throw (.err .bothPointsNull)

end Packages

end Pomade.Frost
