import Mathlib.Data.List.Sort
import Pomade.Frost.ScalarCurve
import Pomade.Go.Session
import Pomade.Lib.Utf8

/-! # Group and session ids of the two signers

Both signers hash the same bytes: the Go signer sorts the commits by exchanges and has the
bytes of a text where the Rust signer has the text.
-/

namespace Pomade.Go

open Pomade.Lib Pomade.Frost Pomade.Signer

/-! ## A group and a request as the Go signer has them -/

def goCommit (commit : Commit) : Commit where
  idx := commit.idx
  pubkey := byteText commit.pubkey
  hiddenPn := byteText commit.hiddenPn
  binderPn := byteText commit.binderPn

def goGroup (group : Group) : Group where
  commits := group.commits.map goCommit
  groupPk := byteText group.groupPk
  threshold := group.threshold

def goRequest (request : SignCompleteRequestInner) : SignCompleteRequestInner where
  content := request.content.map byteText
  hash := request.hash.map byteText
  members := request.members
  stamp := request.stamp
  kind := byteText request.kind
  gid := byteText request.gid
  sid := byteText request.sid

@[simp] theorem goCommit_idx (commit : Commit) : (goCommit commit).idx = commit.idx := rfl

@[simp] theorem decodedOrEmpty_byteText (s : Str) : decodedOrEmpty (byteText s) = decodedOrEmpty s := by
  rw [decodedOrEmpty, decodedOrEmpty, hexDecode_byteText]

theorem stringBytes_byteText (s : Str) : stringBytes (byteText s) = utf8 (String.ofList s) := by
  rw [stringBytes, map_byteText, utf8, toUTF8_ofList]

/-! ## The exchange sort -/

/-- The inner loop moves a commit with the smallest index to the front. -/
theorem smallestFirst_spec (head : Commit) (rest : List Commit) :
    ((smallestFirst head rest).1 :: (smallestFirst head rest).2).Perm (head :: rest) ∧
      ∀ c ∈ head :: rest, (smallestFirst head rest).1.idx ≤ c.idx := by
  induction rest generalizing head with
  | nil => simp [smallestFirst]
  | cons c rest ih =>
    by_cases less : c.idx < head.idx
    · obtain ⟨perm, least⟩ := ih c
      rw [smallestFirst, if_pos less]
      refine ⟨?_, ?_⟩
      · exact (List.Perm.swap ..).trans ((perm.cons head).trans (List.Perm.refl _))
      · rw [List.forall_mem_cons]
        exact ⟨UInt32.le_trans (least c List.mem_cons_self) (UInt32.le_of_lt less), least⟩
    · obtain ⟨perm, least⟩ := ih head
      rw [smallestFirst, if_neg less]
      rw [List.forall_mem_cons] at least
      refine ⟨?_, ?_⟩
      · exact (List.Perm.swap ..).trans ((perm.cons c).trans (List.Perm.swap ..))
      · rw [List.forall_mem_cons, List.forall_mem_cons]
        exact ⟨least.1, UInt32.le_trans least.1 (UInt32.not_lt.mp less), least.2⟩

/-- As many rounds as there are commits sort them. -/
theorem exchangeSort_spec (rounds : Nat) (commits : List Commit) (enough : commits.length ≤ rounds) :
    (exchangeSort rounds commits).Perm commits ∧
      (exchangeSort rounds commits).Pairwise fun a b => a.idx ≤ b.idx := by
  induction rounds generalizing commits with
  | zero =>
    rw [List.length_eq_zero_iff.mp (Nat.le_zero.mp enough)]
    exact ⟨List.Perm.refl _, List.Pairwise.nil⟩
  | succ rounds ih =>
    cases commits with
    | nil => exact ⟨List.Perm.refl _, List.Pairwise.nil⟩
    | cons head rest =>
      obtain ⟨perm, least⟩ := smallestFirst_spec head rest
      have size := perm.length_eq
      rw [List.length_cons, List.length_cons] at size
      rw [List.length_cons] at enough
      obtain ⟨sorted, order⟩ := ih (smallestFirst head rest).2 (by omega)
      refine ⟨(sorted.cons _).trans perm, List.pairwise_cons.mpr ⟨?_, order⟩⟩
      intro c member
      exact least c (perm.subset (List.mem_cons_of_mem _ (sorted.subset member)))

/-- Commits with distinct indices are arranged the same way by both signers. -/
theorem exchangeSort_eq {commits commits' : List Commit}
    (distinct : (commits.map (·.idx)).Nodup) (arranged : commits'.Perm commits) :
    exchangeSort (commits'.map goCommit).length (commits'.map goCommit) =
      (commits.insertionSort fun a b => a.idx ≤ b.idx).map goCommit := by
  obtain ⟨perm, order⟩ := exchangeSort_spec _ (commits'.map goCommit) le_rfl
  have sorted := List.perm_insertionSort (fun a b : Commit => a.idx ≤ b.idx) commits
  have order' : ((commits.insertionSort fun a b => a.idx ≤ b.idx).map goCommit).Pairwise
      fun a b => a.idx ≤ b.idx := by
    have : IsTrans Commit fun a b => a.idx ≤ b.idx := ⟨fun _ _ _ => UInt32.le_trans⟩
    have : Std.Total fun a b : Commit => a.idx ≤ b.idx := ⟨fun _ _ => UInt32.le_total _ _⟩
    rw [List.pairwise_map]
    exact List.pairwise_insertionSort _ commits
  refine List.Perm.eq_of_pairwise ?_ order order' ?_
  · intro a b member member' less less'
    obtain ⟨c, inside, rfl⟩ := List.mem_map.mp (perm.subset member)
    obtain ⟨c', inside', rfl⟩ := List.mem_map.mp member'
    rw [List.inj_on_of_nodup_map distinct (arranged.subset inside) (sorted.subset inside')
      (UInt32.le_antisymm less less')]
  · exact perm.trans ((arranged.trans sorted.symm).map goCommit)

section Ids

variable [Sha2]

/-- Two signers that arrange the commits in the same way compute the same group id. -/
theorem computeGroupID_of_arranged {group : Group} {commits : List Commit}
    (arranged : exchangeSort (commits.map goCommit).length (commits.map goCommit) =
      (group.commits.insertionSort fun a b => a.idx ≤ b.idx).map goCommit) :
    computeGroupID (goGroup { group with commits }) = computeGroupId group := by
  rw [computeGroupID, goGroup, computeGroupId]
  dsimp only
  rw [arranged, List.flatMap_map]
  simp only [goCommit, decodedOrEmpty_byteText]
  rfl

theorem computeGroupID_eq {group : Group} {commits : List Commit}
    (distinct : (group.commits.map (·.idx)).Nodup) (arranged : commits.Perm group.commits) :
    computeGroupID (goGroup { group with commits }) = computeGroupId group :=
  computeGroupID_of_arranged (exchangeSort_eq distinct arranged)

theorem computeSessionID_of_groupID {group group' : Group} (request : SignCompleteRequestInner)
    (gid : computeGroupID (goGroup group') = computeGroupId group) :
    computeSessionID (goGroup group') (goRequest request) = Signer.computeSessionId group request := by
  have stamp : natToBytes 4 request.stamp.toUInt32.toNat = natToBytes 4 request.stamp.toNat := by
    rw [UInt64.toNat_toUInt32]
    exact natToBytes_mod 4 _
  rw [computeSessionID, Signer.computeSessionId, gid]
  dsimp only [goRequest]
  rw [stringBytes_byteText, stamp, List.flatMap_map]
  simp only [decodedOrEmpty_byteText]
  cases request.content with
  | none => rfl
  | some content =>
    rw [Option.map_some]
    dsimp only
    rw [decodedOrEmpty_byteText]
    rfl

theorem verifySessionPkg_of_groupID {group group' : Group} (request : SignCompleteRequestInner)
    (gid : computeGroupID (goGroup group') = computeGroupId group) :
    verifySessionPkg (goGroup group') (goRequest request) = Signer.verifySessionPkg group request := by
  have same : ∀ (bytes : List UInt8) (s : Str), (hexEncode bytes == byteText s) = (hexEncode bytes == s) := by
    intro bytes s
    rw [Bool.eq_iff_iff, beq_iff_eq, beq_iff_eq]
    exact hexEncode_eq_byteText
  rw [verifySessionPkg, Signer.verifySessionPkg, gid, computeSessionID_of_groupID request gid]
  dsimp only [goRequest]
  rw [same, same]

/-- The two signers compute the same ids, so each takes a request for what it says it is if
the other does. -/
theorem packages_agree {group : Group} {commits : List Commit} (request : SignCompleteRequestInner)
    (distinct : (group.commits.map (·.idx)).Nodup) (arranged : commits.Perm group.commits) :
    computeGroupID (goGroup { group with commits }) = computeGroupId group ∧
      computeSessionID (goGroup { group with commits }) (goRequest request) =
        Signer.computeSessionId group request ∧
      verifySessionPkg (goGroup { group with commits }) (goRequest request) =
        Signer.verifySessionPkg group request := by
  have gid := computeGroupID_eq distinct arranged
  exact ⟨gid, computeSessionID_of_groupID request gid, verifySessionPkg_of_groupID request gid⟩

end Ids

/-- Two commits, held in opposite orders, and a request of a type that is not ASCII. -/
theorem packages_agree_swapped :
    let _ := lastBytes
    let one : Commit := ⟨1, "02".toList, "0A".toList, "0b".toList⟩
    let two : Commit := ⟨2, "03".toList, "0c".toList, "0d".toList⟩
    let request : SignCompleteRequestInner :=
      ⟨some "00zz".toList, ["ff".toList], [2, 1, 70000], 5000000000, "é".toList, [], []⟩
    computeSessionID (goGroup ⟨[one, two], "02".toList, 2⟩) (goRequest request) =
      Signer.computeSessionId ⟨[two, one], "02".toList, 2⟩ request := by
  intro _ one two request
  let group : Group := ⟨[two, one], "02".toList, 2⟩
  have distinct : (group.commits.map (·.idx)).Nodup := by decide
  have perm : [one, two].Perm group.commits := List.Perm.swap ..
  exact (packages_agree request distinct perm).2.1

end Pomade.Go
