import Mathlib.Algebra.BigOperators.Group.Finset.Basic
import Mathlib.Algebra.BigOperators.Intervals
import Mathlib.Algebra.Module.BigOperators
import Mathlib.Data.List.GetD
import Pomade.Frost.DkgPanics

/-! # What key generation adds up

The commitments of a participant say which point every index gets from it.  What `dkg_finalize`
returns is told in these points: the public key of an index is the sum of what it gets from all
participants, and the secret share is the sum of what was received.
-/

namespace Pomade.Frost

open Pomade.Lib

section Rows

variable {Pt : Type} [AddCommGroup Pt] [Module Scalar Pt] [Curve Pt]
variable {rows : List Row} {row : Row} {j : Nat}

/-! ## Rows in points -/

omit [Curve Pt] in
theorem vssPoint_eq_sum (idx : UInt32) (points : List Pt) :
    vssPoint idx points =
      ∑ j ∈ Finset.range points.length, indexToScalar idx ^ j • points.getD j 0 := by
  induction points using List.reverseRecOn with
  | nil => rfl
  | append_singleton points C ih =>
    rw [vssPoint_concat, List.length_append, List.length_singleton, Finset.sum_range_succ, ih]
    have last : (points ++ [C]).getD points.length 0 = C := by simp
    have before : ∀ j ∈ Finset.range points.length, indexToScalar idx ^ j • points.getD j 0 =
        indexToScalar idx ^ j • (points ++ [C]).getD j 0 := by
      intro j inside
      rw [List.getD_append _ _ _ _ (Finset.mem_range.mp inside)]
    rw [last, Finset.sum_congr rfl before]

omit [Curve Pt] in
theorem vssPoint_cons (idx : UInt32) (C : Pt) (points : List Pt) :
    vssPoint idx (C :: points) = C + indexToScalar idx • vssPoint idx points := by
  rw [vssPoint_eq_sum, vssPoint_eq_sum, List.length_cons, Finset.sum_range_succ', Finset.smul_sum,
    add_comm]
  simp [pow_succ', mul_smul]

omit [Curve Pt] in
/-- Horner's rule computes in the exponent what the commitments do. -/
theorem vssPoint_smul (idx : UInt32) (coeffs : List Scalar) (P : Pt) :
    vssPoint idx (coeffs.map (· • P)) = horner coeffs (indexToScalar idx) • P := by
  induction coeffs with
  | nil => simp [vssPoint, horner]
  | cons c coeffs ih =>
    have step : horner (c :: coeffs) (indexToScalar idx) =
        horner coeffs (indexToScalar idx) * indexToScalar idx + c := rfl
    rw [List.map_cons, vssPoint_cons, ih, step, add_smul, mul_comm, mul_smul, add_comm]

/-- The points that a row encodes. -/
def rowPoints (Pt : Type) [AddCommGroup Pt] [Module Scalar Pt] [Curve Pt] (row : Row) : List Pt :=
  row.map fun c => (liftX c.data : Result Pt).toOption.getD 0

theorem rowPoints_length (row : Row) : (rowPoints Pt row).length = row.length := List.length_map _

theorem getD_rowPoints (row : Row) (j : Nat) :
    (rowPoints Pt row).getD j 0 = (rowPoint Pt row j).getD 0 := by
  rw [rowPoints, rowPoint, List.getD_eq_getElem?_getD, List.getElem?_map]
  cases row[j]? with
  | none => rfl
  | some c => rfl

theorem columnSum_eq_some {S : Pt} : columnSum Pt rows j = some S ↔
    (∀ row ∈ rows, ∃ P, rowPoint Pt row j = some P) ∧
      S = (rows.map fun row => (rowPoints Pt row).getD j 0).sum := by
  induction rows using List.reverseRecOn generalizing S with
  | nil => simp [columnSum, eq_comm]
  | append_singleton rows row ih =>
    rw [columnSum_concat, Option.bind_eq_some_iff]
    simp only [Option.map_eq_some_iff, List.map_append, List.sum_append, List.map_singleton,
      List.sum_singleton, getD_rowPoints]
    simp only [getD_rowPoints] at ih
    constructor
    · rintro ⟨T, before, Q, last, rfl⟩
      obtain ⟨decoded, rfl⟩ := ih.mp before
      refine ⟨?_, by rw [last]; rfl⟩
      intro r member
      cases List.mem_append.mp member with
      | inl earlier => exact decoded r earlier
      | inr here => exact ⟨Q, List.mem_singleton.mp here ▸ last⟩
    · rintro ⟨decoded, rfl⟩
      obtain ⟨Q, last⟩ := decoded row (by simp)
      refine ⟨_, ih.mpr ⟨fun r member => decoded r (List.mem_append_left _ member), rfl⟩, Q, last, ?_⟩
      rw [last]
      rfl

theorem encodes_rowPoints (decodes : ∀ j < row.length, ∃ P, rowPoint Pt row j = some P) :
    Encodes row (rowPoints Pt row) := by
  rw [encodes_iff]
  refine ⟨(rowPoints_length row).symm, ?_⟩
  intro j
  by_cases inside : j < row.length
  · obtain ⟨P, found⟩ := decodes j inside
    have value : (rowPoints Pt row).getD j 0 = _ := getD_rowPoints row j
    have inside' : j < (rowPoints Pt row).length := by rwa [rowPoints_length]
    rw [found, List.getD_eq_getElem _ _ inside'] at value
    rw [found, List.getElem?_eq_getElem inside', value]
    rfl
  · rw [rowPoint, List.getElem?_eq_none (not_lt.mp inside), List.getElem?_eq_none]
    · rfl
    · rw [rowPoints_length]
      exact not_lt.mp inside

omit [Module Scalar Pt] [Curve Pt] in
theorem sum_map_sum {α : Type} (l : List α) {g : α → Nat → Pt} (n : Nat) :
    ∑ j ∈ Finset.range n, (l.map fun a => g a j).sum =
      (l.map fun a => ∑ j ∈ Finset.range n, g a j).sum := by
  induction l with
  | nil => simp
  | cons a l ih => simp [Finset.sum_add_distrib, ih]

/-- Columns that are added up encode the rows, and give an index the sum of what the rows give it. -/
theorem vssPoint_sums {sums : List Pt} (same : ∀ row ∈ rows, row.length = sums.length)
    (each : ∀ j : Nat, columnSum Pt rows j = sums[j]?) :
    (∀ row ∈ rows, Encodes row (rowPoints Pt row)) ∧
      ∀ idx, vssPoint idx sums = (rows.map fun row => vssPoint idx (rowPoints Pt row)).sum := by
  have column : ∀ j < sums.length, columnSum Pt rows j = some (sums.getD j 0) := by
    intro j inside
    rw [each, List.getElem?_eq_getElem inside, List.getD_eq_getElem _ _ inside]
  constructor
  · intro row member
    apply encodes_rowPoints
    intro j inside
    rw [same row member] at inside
    exact (columnSum_eq_some.mp (column j inside)).1 row member
  · intro idx
    have whole : ∀ row ∈ rows, vssPoint idx (rowPoints Pt row) = ∑ j ∈ Finset.range sums.length,
        indexToScalar idx ^ j • (rowPoints Pt row).getD j 0 := by
      intro row member
      rw [vssPoint_eq_sum, rowPoints_length, same row member]
    have terms : ∀ j ∈ Finset.range sums.length, indexToScalar idx ^ j • sums.getD j 0 =
        (rows.map fun row => indexToScalar idx ^ j • (rowPoints Pt row).getD j 0).sum := by
      intro j inside
      rw [(columnSum_eq_some.mp (column j (Finset.mem_range.mp inside))).2, List.smul_sum,
        List.map_map]
      rfl
    rw [vssPoint_eq_sum, Finset.sum_congr rfl terms, List.map_congr_left whole]
    exact sum_map_sum _ _

end Rows

/-! ## A finalization that returns -/

section Finalized

variable {Pt : Type} [AddCommGroup Pt] [Module Scalar Pt] [Curve Pt]
variable {myIdx : UInt32} {myCoeffs : List (Bytes 32)} {received : List DkgSharePackage}
variable {allCommits cs : List DkgCommitPackage} {threshold : Nat} {out : DkgOutput}

/-- What an index gets from a participant, by the commitments. -/
def dealtTo (Pt : Type) [AddCommGroup Pt] [Module Scalar Pt] [Curve Pt] (idx : UInt32)
    (c : DkgCommitPackage) : Pt :=
  vssPoint idx (rowPoints Pt c.vssCommits)

/-- The public key of an index: what it gets from all. -/
def keyOf (Pt : Type) [AddCommGroup Pt] [Module Scalar Pt] [Curve Pt]
    (allCommits : List DkgCommitPackage) (idx : UInt32) : Pt :=
  (allCommits.map (dealtTo Pt idx)).sum

theorem keyOf_of_perm {allCommits' : List DkgCommitPackage} (perm : allCommits.Perm allCommits')
    (idx : UInt32) : keyOf Pt allCommits idx = keyOf Pt allCommits' idx :=
  (perm.map _).sum_eq

theorem encodes_of_evalVssPubkey {commits : List (Bytes 33)} {idx : UInt32} {pubkey : Bytes 33}
    (done : evalVssPubkey Pt commits idx = .ok pubkey) :
    ∃ points : List Pt, points ≠ [] ∧ Encodes commits points := by
  have loop := foldlM_addVssTerm [] commits idx (none : Option Pt)
  rw [List.length_nil, List.nil_append, ← List.range_eq_range'] at loop
  rw [evalVssPubkey] at done
  by_cases empty : commits.isEmpty = true
  · rw [if_pos empty] at done
    cases done
  rw [if_neg empty, loop] at done
  obtain ⟨acc, rounds, _⟩ := bind_ok done
  obtain ⟨_, decodable⟩ := decodable_of_addCommits rounds
  rw [List.take_length] at decodable
  obtain ⟨points, decoded⟩ := decodable.decoded
  have encodes := mapM_eq_ok_iff.mp decoded.2
  rw [List.take_length] at encodes
  refine ⟨points, ?_, encodes⟩
  intro none_
  rw [none_] at encodes
  rw [List.forall₂_nil_right_iff.mp encodes] at empty
  exact empty rfl

/-- The public key of an index is computed from the merged commitments as the sum of what it gets. -/
theorem evalVssPubkey_merged {vss : List (Bytes 33)} {sums : List Pt} (some_ : cs ≠ [])
    (merged : Merged Pt (cs.map (·.vssCommits)) vss) (finite : sums ≠ []) (encodes : Encodes vss sums) :
    (∀ c ∈ cs, c.vssCommits.length = sums.length ∧ Encodes c.vssCommits (rowPoints Pt c.vssCommits)) ∧
      ∀ idx, evalVssPubkey Pt vss idx = serializePoint (keyOf Pt cs idx) := by
  obtain ⟨same, each⟩ := (merged.encodes (by simpa using some_) sums).mp encodes
  obtain ⟨rows, sum⟩ := vssPoint_sums same each
  constructor
  · intro c member
    exact ⟨same _ (List.mem_map_of_mem member), rows _ (List.mem_map_of_mem member)⟩
  · intro idx
    rw [evalVssPubkey_eq finite encodes, sum, List.map_map]
    rfl

/-- What is known of a finalization that has returned. -/
structure Finalized (Pt : Type) [AddCommGroup Pt] [Module Scalar Pt] [Curve Pt] [Sha2]
    (myIdx : UInt32) (myCoeffs : List (Bytes 32)) (received : List DkgSharePackage)
    (allCommits : List DkgCommitPackage) (threshold : Nat) (out : DkgOutput) : Prop where
  shares : ∀ pkg ∈ received, ShareHolds Pt allCommits threshold pkg
  seckey : scalarFromBytes out.share.seckey =
    horner (myCoeffs.map scalarFromBytes) (indexToScalar myIdx) +
      (received.map fun pkg => scalarFromBytes pkg.seckey).sum
  encodes : ∀ c ∈ allCommits, Encodes c.vssCommits (rowPoints Pt c.vssCommits)
  indices : (out.group.members.map (·.idx)).Perm (allCommits.map (·.idx))
  members : ∀ m ∈ out.group.members, keyOf Pt allCommits m.idx ≠ 0 ∧
    m.pubkey = encodePoint (keyOf Pt allCommits m.idx)
  vssCommits : ∀ idx, evalVssPubkey Pt out.vssCommits idx = serializePoint (keyOf Pt allCommits idx)

theorem finalized [Sha2]
    (done : dkgFinalize Pt myIdx myCoeffs received allCommits threshold = .ok out) :
    Finalized Pt myIdx myCoeffs received allCommits threshold out := by
  have perm := List.perm_insertionSort (fun a b : DkgCommitPackage => a.idx ≤ b.idx) allCommits
  rw [dkgFinalize] at done
  obtain ⟨_, pops, done⟩ := bind_ok done
  obtain ⟨_, shares, done⟩ := bind_ok done
  obtain ⟨ownSharePkg, own, done⟩ := bind_ok done
  obtain ⟨aggregate, combined, done⟩ := bind_ok done
  dsimp only at done
  -- Everything below is about sums over the packages, for which the sorted list is as good.
  generalize allCommits.insertionSort (fun a b => a.idx ≤ b.idx) = sorted at perm done
  obtain ⟨heads, _, done⟩ := bind_ok done
  obtain ⟨groupPk, _, done⟩ := bind_ok done
  obtain ⟨merging, merges, done⟩ := bind_ok done
  rw [forM_ok] at pops shares
  -- The own share is never checked: it is the value of the polynomial as it stands.
  have total : scalarFromBytes aggregate.seckey =
      horner (myCoeffs.map scalarFromBytes) (indexToScalar myIdx) +
        (received.map fun pkg => scalarFromBytes pkg.seckey).sum := by
    rw [dkgRound2] at own
    obtain ⟨value, evaluated, own⟩ := bind_ok own
    cases own
    by_cases zero : indexToScalar myIdx = 0
    · rw [evaluateX, if_pos zero] at evaluated
      cases evaluated
    rw [evaluateX_eq _ zero] at evaluated
    cases evaluated
    have mine : ∀ s ∈ (⟨myIdx, scalarToBytes (horner (myCoeffs.map scalarFromBytes)
        (indexToScalar myIdx))⟩ : SecretShare) :: received.map fun pkg => ⟨myIdx, pkg.seckey⟩,
          s.idx = myIdx := by
      simp
    rw [combineSet_eq (by simp) mine] at combined
    cases combined
    rw [scalarFromBytes_scalarToBytes, List.map_cons, List.sum_cons, scalarFromBytes_scalarToBytes,
      List.map_map]
    rfl
  obtain ⟨_, held⟩ := (mergeCommits_run Pt sorted).2.1 merging merges
  -- With no commitment package at all, nothing is merged and no group is made.
  rcases held with ⟨_, rfl⟩ | ⟨some_, vss, rfl, merged⟩
  · cases done
  obtain ⟨members, made, done⟩ := bind_ok done
  cases done
  -- The first member's key was evaluated, so no merged commitment is the identity.
  obtain ⟨c, rest, split⟩ := List.exists_cons_of_ne_nil some_
  obtain ⟨_, first⟩ := of_mapM_ok made c (by rw [split]; exact List.mem_cons_self)
  obtain ⟨_, evaluated, _⟩ := bind_ok first
  obtain ⟨sums, finite, encodes⟩ := encodes_of_evalVssPubkey evaluated
  obtain ⟨rows, keys⟩ := evalVssPubkey_merged some_ merged finite encodes
  refine ⟨?_, total, ?_, ?_, ?_, ?_⟩
  · intro pkg member
    exact checkDkgShare_ok.mp (shares pkg member)
  · intro c member
    exact (rows c (perm.mem_iff.mpr member)).2
  · have same : members.map (·.idx) = sorted.map (·.idx) := by
      apply map_of_mapM_ok _ made
      intro c _ m round
      obtain ⟨_, _, round⟩ := bind_ok round
      obtain ⟨_, _, round⟩ := bind_ok round
      cases round
      rfl
    show (members.map (·.idx)).Perm _
    rw [same]
    exact perm.map _
  · intro m member
    obtain ⟨c, _, round⟩ := (mem_of_mapM_ok made m).mp member
    obtain ⟨pubkey, evaluated, round⟩ := bind_ok round
    obtain ⟨_, _, round⟩ := bind_ok round
    cases round
    rw [keys, keyOf_of_perm perm] at evaluated
    have nonzero := serializePoint_ok evaluated
    rw [serializePoint_eq nonzero] at evaluated
    exact ⟨nonzero, (Except.ok.inj evaluated).symm⟩
  · intro idx
    rw [← keyOf_of_perm perm]
    exact keys idx

end Finalized

end Pomade.Frost
