import Pomade.Frost.DkgSums
import Pomade.Lib.Positions

/-! # What a participant can rely on

`dkg_round1`, and what the share that `dkg_finalize` returns is worth.  Every share that was
received is checked against the commitments of its sender, by the x-coordinate and as far as the
threshold goes; that there is one from each of the others, addressed to the caller, is not checked
at all.
-/

namespace Pomade.Frost

open Pomade.Lib

/-! ## Round 1 -/

section Round1

variable (Pt : Type) [AddCommGroup Pt] [Module Scalar Pt] [Curve Pt] [Sha2]

/-- Build a Schnorr proof of possession of `a0` where `c0 = a0 * G`. -/
def createDkgPop (idx : UInt32) (a0 : Scalar) (c0 : Bytes 33) : Result DkgPop := do
  let nonceDigest := Sha2.sha256 (utf8 "frost-taproot/dkg-pop/nonce/v1" ++ (scalarToBytes a0).data ++
    natToBytes 4 idx.toNat)
  let k := modN nonceDigest.toNat
  let k := if k = 0 then 1 else k
  let r ← serializePoint (scalarBaseMulti Pt k)
  let e := dkgPopChallenge idx c0 r
  let z := k + e * a0
  return { r, z := scalarToBytes z }

/-- Round 1: generate this participant's polynomial and VSS commitments. -/
def dkgRound1 (idx : UInt32) (threshold : Nat) (secrets : List (Bytes 32))
    (random : Nat → Bytes 32) : Result (List (Bytes 32) × DkgCommitPackage) := do
  let coeffs := createShareCoeffs secrets threshold random
  let vssCommits ← getShareCommits Pt coeffs
  let a0 ← itemAt coeffs 0
  let c0 ← itemAt vssCommits 0
  let pop ← createDkgPop Pt idx a0 c0
  let secretCoeffs := coeffs.map scalarToBytes
  return (secretCoeffs, { idx, vssCommits, pop })

end Round1

section Own

variable {Pt : Type} [AddCommGroup Pt] [Module Scalar Pt] [Curve Pt]

theorem rowPoints_encode {coeffs : List Scalar} (nonzero : ∀ c ∈ coeffs, c ≠ 0) :
    rowPoints Pt (coeffs.map fun c => encodePoint (scalarBaseMulti Pt c)) =
      coeffs.map (· • (Curve.generator : Pt)) := by
  rw [rowPoints, List.map_map]
  apply List.map_congr_left
  intro c member
  rw [Function.comp_apply, liftX_encodePoint (scalarBaseMulti_ne_zero (nonzero c member))]
  rfl

variable [Sha2] {idx : UInt32} {threshold : Nat} {secrets : List (Bytes 32)} {random : Nat → Bytes 32}
variable {myCoeffs : List (Bytes 32)} {own : DkgCommitPackage}

/-- What a participant broadcasts gives every index the value of his polynomial. -/
theorem dkgRound1_ok (made : dkgRound1 Pt idx threshold secrets random = .ok (myCoeffs, own)) :
    own.idx = idx ∧ myCoeffs.map scalarFromBytes = createShareCoeffs secrets threshold random ∧
      own.vssCommits = (createShareCoeffs secrets threshold random).map
        (fun c => encodePoint (scalarBaseMulti Pt c)) ∧
      (∀ c ∈ createShareCoeffs secrets threshold random, c ≠ 0) ∧
      ∀ i, dealtTo Pt i own =
        horner (createShareCoeffs secrets threshold random) (indexToScalar i) • Curve.generator := by
  rw [dkgRound1] at made
  obtain ⟨commits, committed, made⟩ := bind_ok made
  obtain ⟨_, _, made⟩ := bind_ok made
  obtain ⟨_, _, made⟩ := bind_ok made
  obtain ⟨_, _, made⟩ := bind_ok made
  cases made
  have nonzero := getShareCommits_ok committed
  have encoded := committed.symm.trans (getShareCommits_eq nonzero)
  cases encoded
  refine ⟨rfl, ?_, rfl, nonzero, ?_⟩
  · rw [List.map_map]
    exact (List.map_congr_left fun c _ => scalarFromBytes_scalarToBytes c).trans (List.map_id _)
  · intro i
    rw [dealtTo, rowPoints_encode nonzero, vssPoint_smul]

end Own

/-! ## Round 2 -/

deriving instance DecidableEq for DkgPop, DkgCommitPackage

section Lost

variable (Pt : Type) [AddCommGroup Pt] [Module Scalar Pt] [Curve Pt]

/-- What the check of a share compares with: the commitments up to the threshold, at an index. -/
def askedShare (threshold : Nat) (idx : UInt32) (c : DkgCommitPackage) : Pt :=
  vssPoint idx ((rowPoints Pt c.vssCommits).take threshold)

/-- What the commitments beyond the threshold add, which no check reads. -/
def unreadPart (threshold : Nat) (idx : UInt32) (c : DkgCommitPackage) : Pt :=
  dealtTo Pt idx c - askedShare Pt threshold idx c

/-- What is missing in a share that is the negative of the right one. -/
def turnedPart (threshold : Nat) (c : DkgCommitPackage) (pkg : DkgSharePackage) : Pt :=
  let asked := askedShare Pt threshold pkg.recipientIdx c
  if Curve.yIsOdd (scalarBaseMulti Pt (scalarFromBytes pkg.seckey)) = Curve.yIsOdd asked then 0
  else asked + asked

/-- The commitments that a share is checked against. -/
def senderOf (allCommits : List DkgCommitPackage) (pkg : DkgSharePackage) : Option DkgCommitPackage :=
  allCommits.find? fun c => c.idx == pkg.senderIdx

/-- What a share that was accepted is short of, by the commitments of its sender. -/
def lostPart (allCommits : List DkgCommitPackage) (threshold : Nat) (pkg : DkgSharePackage) : Pt :=
  match senderOf allCommits pkg with
  | none => 0
  | some c => unreadPart Pt threshold pkg.recipientIdx c + turnedPart Pt threshold c pkg

/-- What an index gets from the sender of a share, by the commitments. -/
def senderPart (allCommits : List DkgCommitPackage) (idx : UInt32) (pkg : DkgSharePackage) : Pt :=
  (senderOf allCommits pkg).elim 0 (dealtTo Pt idx)

/-- What an index gets from all participants but one, less what it gets from the senders of the
shares: a share that is missing counts, and one that is repeated counts against it. -/
def missingPart (own : DkgCommitPackage) (received : List DkgSharePackage)
    (allCommits : List DkgCommitPackage) (idx : UInt32) : Pt :=
  ((allCommits.erase own).map (dealtTo Pt idx)).sum - (received.map (senderPart Pt allCommits idx)).sum

/-- What is missing in a share for another index. -/
def misplacedPart (allCommits : List DkgCommitPackage) (idx : UInt32) (pkg : DkgSharePackage) : Pt :=
  senderPart Pt allCommits idx pkg - senderPart Pt allCommits pkg.recipientIdx pkg

/-- All that is lost of the share of a participant. -/
def lost (own : DkgCommitPackage) (received : List DkgSharePackage)
    (allCommits : List DkgCommitPackage) (threshold : Nat) (idx : UInt32) : Pt :=
  missingPart Pt own received allCommits idx +
    (received.map fun pkg =>
      misplacedPart Pt allCommits idx pkg + lostPart Pt allCommits threshold pkg).sum

end Lost

/-- One share from each of the others, addressed to the caller. -/
structure OnceEach (myIdx : UInt32) (received : List DkgSharePackage)
    (allCommits : List DkgCommitPackage) : Prop where
  distinct : (allCommits.map (·.idx)).Nodup
  senders : (myIdx :: received.map (·.senderIdx)).Perm (allCommits.map (·.idx))
  addressed : ∀ pkg ∈ received, pkg.recipientIdx = myIdx

section Sound

variable {Pt : Type} [AddCommGroup Pt] [Module Scalar Pt] [Curve Pt]
variable {myIdx : UInt32} {myCoeffs : List (Bytes 32)} {received : List DkgSharePackage}
variable {allCommits : List DkgCommitPackage} {threshold : Nat} {c : DkgCommitPackage}

/-- A share that was accepted is what its sender has committed to, but for what is lost. -/
theorem share_add_lost {pkg : DkgSharePackage}
    (encodes : ∀ c ∈ allCommits, Encodes c.vssCommits (rowPoints Pt c.vssCommits))
    (holds : ShareHolds Pt allCommits threshold pkg) :
    scalarBaseMulti Pt (scalarFromBytes pkg.seckey) + lostPart Pt allCommits threshold pkg =
      senderPart Pt allCommits pkg.recipientIdx pkg := by
  obtain ⟨c, found, verified⟩ := holds
  -- The loop of the check went up to the threshold.
  have verified' := verified
  rw [verifyDkgShare, verifyShare] at verified'
  obtain ⟨_, rounds, _⟩ := bind_ok verified'
  obtain ⟨short, _⟩ := decodable_of_addCommits rounds
  have encodes := encodes c (List.mem_of_find?_eq_some found)
  have decoded : Decoded c.vssCommits threshold ((rowPoints Pt c.vssCommits).take threshold) :=
    ⟨short, mapM_eq_ok_iff.mpr (List.forall₂_take threshold encodes)⟩
  obtain ⟨_, same⟩ := (verifyShare_iff decoded).mp verified
  have turned := add_lost same
  have sender : senderOf allCommits pkg = some c := found
  rw [lostPart, senderPart, sender]
  show _ + (unreadPart Pt threshold pkg.recipientIdx c + turnedPart Pt threshold c pkg) =
    dealtTo Pt pkg.recipientIdx c
  have whole : dealtTo Pt pkg.recipientIdx c = askedShare Pt threshold pkg.recipientIdx c +
      unreadPart Pt threshold pkg.recipientIdx c := (add_sub_cancel _ _).symm
  rw [whole, add_comm (unreadPart Pt _ _ _), ← add_assoc]
  exact congrArg (· + unreadPart Pt threshold pkg.recipientIdx c) turned

/-- What the others give and what the caller gives make up the key. -/
theorem keyOf_eq_own_add {own : DkgCommitPackage} (joined : own ∈ allCommits) (idx : UInt32) :
    keyOf Pt allCommits idx =
      dealtTo Pt idx own + ((allCommits.erase own).map (dealtTo Pt idx)).sum := by
  rw [keyOf_of_perm (List.perm_cons_erase joined), keyOf, List.map_cons, List.sum_cons]

/-- If there is one share from each of the others, addressed to the caller, only what the checks
let through is lost. -/
theorem lost_of_once {own : DkgCommitPackage} (once : OnceEach myIdx received allCommits)
    (joined : own ∈ allCommits) (mine : own.idx = myIdx) :
    lost Pt own received allCommits threshold myIdx =
      (received.map (lostPart Pt allCommits threshold)).sum := by
  let dealer (i : UInt32) : Pt :=
    (allCommits.find? fun c => c.idx == i).elim 0 (dealtTo Pt myIdx)
  have at_ : ∀ c ∈ allCommits, dealtTo Pt myIdx c = dealer c.idx := by
    intro c member
    show _ = Option.elim _ _ _
    rw [find?_of_nodup once.distinct member]
    rfl
  have sums := (once.senders.map dealer).sum_eq
  rw [List.map_cons, List.sum_cons, List.map_map, List.map_map, ← mine, ← at_ own joined] at sums
  have all : keyOf Pt allCommits myIdx = (allCommits.map (dealer ∘ (·.idx))).sum :=
    congrArg List.sum (List.map_congr_left at_)
  rw [keyOf_eq_own_add joined, ← sums, add_right_inj] at all
  have placed : ∀ pkg ∈ received, misplacedPart Pt allCommits myIdx pkg +
      lostPart Pt allCommits threshold pkg = lostPart Pt allCommits threshold pkg := by
    intro pkg member
    rw [misplacedPart, once.addressed pkg member, sub_self, zero_add]
  rw [lost, missingPart, all, List.map_congr_left placed]
  exact add_eq_right.mpr (sub_self _)

variable [Sha2] {out : DkgOutput} {secrets : List (Bytes 32)} {random : Nat → Bytes 32}
variable {own : DkgCommitPackage} {threshold' : Nat}

/-- The share that was aggregated is that of the key, but for what is lost. -/
theorem aggregate_add_lost
    (made : dkgRound1 Pt myIdx threshold' secrets random = .ok (myCoeffs, own))
    (joined : own ∈ allCommits)
    (finalized : Finalized Pt myIdx myCoeffs received allCommits threshold out) :
    scalarBaseMulti Pt (scalarFromBytes out.share.seckey) +
      lost Pt own received allCommits threshold myIdx = keyOf Pt allCommits myIdx := by
  obtain ⟨mine, kept, _, _, dealt⟩ := dkgRound1_ok made
  have shares : (received.map fun pkg => scalarFromBytes pkg.seckey).sum • (Curve.generator : Pt) +
      (received.map (lostPart Pt allCommits threshold)).sum =
        (received.map fun pkg => senderPart Pt allCommits pkg.recipientIdx pkg).sum := by
    have each : ∀ pkg ∈ received, scalarBaseMulti Pt (scalarFromBytes pkg.seckey) +
        lostPart Pt allCommits threshold pkg = senderPart Pt allCommits pkg.recipientIdx pkg :=
      fun pkg member => share_add_lost finalized.encodes (finalized.shares pkg member)
    rw [← List.map_congr_left each, List.sum_map_add, List.sum_smul, List.map_map]
    rfl
  have placed : (received.map (misplacedPart Pt allCommits myIdx)).sum +
      (received.map fun pkg => senderPart Pt allCommits pkg.recipientIdx pkg).sum =
        (received.map (senderPart Pt allCommits myIdx)).sum := by
    rw [← List.sum_map_add]
    exact congrArg List.sum (List.map_congr_left fun pkg _ => sub_add_cancel _ _)
  rw [keyOf_eq_own_add joined, lost, missingPart, ← placed, ← shares, List.sum_map_add, dealt,
    finalized.seckey, kept, scalarBaseMulti, add_smul]
  abel

/-- The share of a participant, with what was lost on the way, is that of the public key that the
group has for the index of the participant; so it matches the key if and only if what was lost
sums up to nothing: shares that are missing or repeated or for another index, what the
commitments beyond the threshold add, and twice what was asked for wherever the negative of it
was sent. -/
theorem dkg_share_matches_iff
    (made : dkgRound1 Pt myIdx threshold' secrets random = .ok (myCoeffs, own))
    (joined : own ∈ allCommits)
    (done : dkgFinalize Pt myIdx myCoeffs received allCommits threshold = .ok out) :
    (∃ m ∈ out.group.members, m.idx = myIdx) ∧ ∀ m ∈ out.group.members, m.idx = myIdx →
      serializePoint (scalarBaseMulti Pt (scalarFromBytes out.share.seckey) +
        lost Pt own received allCommits threshold myIdx) = .ok m.pubkey ∧
      (serializePoint (scalarBaseMulti Pt (scalarFromBytes out.share.seckey)) = .ok m.pubkey ↔
        lost Pt own received allCommits threshold myIdx = 0) := by
  have known := finalized done
  have total := aggregate_add_lost made joined known
  obtain ⟨mine, _⟩ := dkgRound1_ok made
  have listed : myIdx ∈ out.group.members.map (·.idx) := by
    rw [known.indices.mem_iff, ← mine]
    exact List.mem_map_of_mem joined
  refine ⟨List.mem_map.mp listed, fun m member same => ?_⟩
  obtain ⟨finite, pubkey⟩ := known.members m member
  rw [same] at finite pubkey
  rw [pubkey]
  refine ⟨by rw [total, serializePoint_eq finite], ?_, ?_⟩
  · intro matches_
    have finite' := serializePoint_ok matches_
    rw [serializePoint_eq finite'] at matches_
    have equal := encodePoint_injective finite' finite (Except.ok.inj matches_)
    rw [equal] at total
    exact add_eq_left.mp total
  · intro nothing
    rw [nothing, add_zero] at total
    rw [total, serializePoint_eq finite]

end Sound

theorem eq_ok_of_toOption {α : Type} {x : Result α} {a : α} (done : x.toOption = some a) : x = .ok a := by
  cases x with
  | error fault => cases done
  | ok b =>
    cases done
    rfl

/-- What the participant with these coefficients broadcasts if the hash is the last bytes. -/
def broadcast (idx : UInt32) (a0 : Nat) (rest : List Nat) : DkgCommitPackage where
  idx := idx
  vssCommits := (a0 :: rest).map fun a => encodePoint (modN a)
  pop := {
    r := encodePoint (modN (a0 * 2 ^ 32 + idx.toNat))
    z := scalarToBytes (modN ((a0 * 2 ^ 32 + idx.toNat) * (1 + a0))) }

namespace Turned

def commits : List DkgCommitPackage := [broadcast 2 2 [], broadcast 1 1 []]

/-- The negative of the share that the second participant owes the first one. -/
def share : DkgSharePackage := ⟨2, 1, scalarToBytes (-modN 2)⟩

attribute [local instance] lastBytes

theorem made : dkgRound1 Scalar 1 1 [Bytes.ofNat 32 1] (fun _ => Bytes.ofNat 32 0) =
    .ok ([Bytes.ofNat 32 1], broadcast 1 1 []) := by decide +kernel

theorem finalizes :
    (dkgFinalize Scalar 1 [Bytes.ofNat 32 1] [share] commits 1).toOption.isSome = true := by
  decide +kernel

end Turned

/-- The negative of a share is accepted, and the share that it is added to does not match. -/
theorem dkg_share_matches_iff_turned :
    let _ := lastBytes
    ∃ out, dkgFinalize Scalar 1 [Bytes.ofNat 32 1] [Turned.share] Turned.commits 1 = .ok out ∧
      ∃ m ∈ out.group.members, m.idx = 1 ∧
        serializePoint (scalarBaseMulti Scalar (scalarFromBytes out.share.seckey)) ≠ .ok m.pubkey := by
  intro _
  obtain ⟨out, returned⟩ := Option.isSome_iff_exists.mp Turned.finalizes
  have done := eq_ok_of_toOption returned
  obtain ⟨⟨m, member, mine⟩, each⟩ :=
    dkg_share_matches_iff Turned.made (by simp [Turned.commits]) done
  refine ⟨out, done, m, member, mine, ?_⟩
  rw [Ne, (each m member mine).2]
  decide +kernel

end Pomade.Frost
