import Pomade.Frost.DkgGroup

/-! # Key generation among honest participants

If all participants follow both rounds, each of them finalizes, unless a proof of possession has
a response of zero or points cancel each other.  They get one group, each gets the share that
belongs to his key in it, and any threshold of them can sign for the group.
-/

namespace Pomade.Frost

open Pomade.Lib

section Rows

variable {Pt : Type} [AddCommGroup Pt] [Module Scalar Pt] [Curve Pt]
variable {rows : List Row} {threshold : Nat} {cs : List DkgCommitPackage}

/-! ## Making the group -/

theorem rowPoint_of_decodable {row : Row} (decodable : Decodable Pt row) {j : Nat}
    (inside : j < row.length) : ∃ P, rowPoint Pt row j = some P := by
  obtain ⟨P, lifted⟩ := decodable row[j] (List.getElem_mem inside)
  refine ⟨P, ?_⟩
  rw [rowPoint, List.getElem?_eq_getElem inside, Option.bind_some, lifted]
  rfl

/-- Rows of one length that are decoded can be added up, if nothing cancels. -/
theorem mergeable_of_decodable (same : ∀ row ∈ rows, row.length = threshold)
    (decodable : ∀ row ∈ rows, Decodable Pt row) (calm : ¬ MergeCancels Pt rows) :
    Mergeable Pt rows := by
  induction rows using List.reverseRecOn with
  | nil => exact mergeable_nil
  | append_singleton rows row ih =>
    rw [List.forall_mem_append] at same decodable
    rw [mergeCancels_concat, not_or] at calm
    have before := ih same.1 decodable.1 calm.1
    rw [mergeable_concat]
    refine ⟨before, ?_⟩
    by_cases empty : rows = []
    · exact .inl empty
    have length : row.length = threshold := same.2 row (List.mem_singleton_self row)
    have lengths : ∀ r ∈ rows, r.length = row.length := fun r member => (same.1 r member).trans length.symm
    have each : ∀ j < row.length, ∃ S : Pt, columnSum Pt (rows ++ [row]) j = some S := by
      intro j inside
      refine ⟨_, columnSum_eq_some.mpr ⟨?_, rfl⟩⟩
      intro r member
      cases List.mem_append.mp member with
      | inl earlier => exact rowPoint_of_decodable (decodable.1 r earlier) (lengths r earlier ▸ inside)
      | inr last =>
        rw [List.mem_singleton.mp last]
        exact rowPoint_of_decodable (decodable.2 row (List.mem_singleton_self row)) inside
    refine .inr ⟨lengths, ?_⟩
    -- Below the first sum that is the identity no sum is; so there is no such sum.
    intro j
    induction j using Nat.strong_induction_on with
    | _ j below =>
      intro inside
      obtain ⟨S, sum⟩ := each j inside
      refine ⟨S, ?_, sum⟩
      intro zero
      rw [zero] at sum
      exact calm.2 ⟨before, empty, lengths, j, sum, fun i less => below i less (less.trans inside)⟩

/-- Rows that are decoded are merged to commitments that are decoded. -/
theorem Merged.decodes {prev : Row} (merged : Merged Pt rows prev) (some_ : rows ≠ [])
    (same : ∀ row ∈ rows, row.length = threshold) (decodable : ∀ row ∈ rows, Decodable Pt row) :
    Encodes prev (rowPoints Pt prev) ∧ prev.length = threshold := by
  obtain ⟨r, member⟩ := List.exists_mem_of_ne_nil rows some_
  have size : prev.length = threshold := (merged.length r member).symm.trans (same r member)
  refine ⟨encodes_rowPoints fun j inside => ?_, size⟩
  rw [merged.sums]
  refine ⟨_, columnSum_eq_some.mpr ⟨fun row listed => ?_, rfl⟩⟩
  exact rowPoint_of_decodable (decodable row listed) (by rwa [same row listed, ← size])

variable (Pt) in
/-- None of the sums that are serialized is the identity. -/
structure NothingCancels (cs : List DkgCommitPackage) : Prop where
  first : columnSum Pt (cs.map (·.vssCommits)) 0 ≠ some 0
  merge : ¬ MergeCancels Pt (cs.map (·.vssCommits))
  keys : ∀ sums : List Pt, (∀ row ∈ cs.map (·.vssCommits), row.length = sums.length) →
    (∀ j : Nat, columnSum Pt (cs.map (·.vssCommits)) j = sums[j]?) → ∀ c ∈ cs, vssPoint c.idx sums ≠ 0

/-- The group is made of packages with as many commitments each, all of them decoded. -/
theorem makeGroup_ok [Sha2] (some_ : cs ≠ []) (holds : ∀ c ∈ cs, PopHolds Pt c)
    (same : ∀ row ∈ cs.map (·.vssCommits), row.length = threshold)
    (decodable : ∀ row ∈ cs.map (·.vssCommits), Decodable Pt row) (calm : NothingCancels Pt cs) :
    ∃ group vss, makeGroup Pt threshold cs = .ok (group, vss) ∧ vss.length = threshold := by
  have rows : cs.map (·.vssCommits) ≠ [] := by simpa using some_
  obtain ⟨heads, points, read, encodes, size, decoded⟩ := first_commits holds
  have nonempty : heads ≠ [] := by
    rw [← List.length_pos_iff, size]
    exact List.length_pos_iff.mpr some_
  have total : points.sum ≠ 0 := by
    intro zero
    apply calm.first
    rw [columnSum, decoded, Option.map_some, zero]
  obtain ⟨merging, merges⟩ :=
    (mergeCommits_run Pt cs).2.2 (mergeable_of_decodable same decodable calm.merge)
  obtain ⟨mergeable, held⟩ := (mergeCommits_run Pt cs).2.1 merging merges
  obtain ⟨_, prev, rfl, merged⟩ := held.resolve_left fun none => some_ none.1
  obtain ⟨prevEncodes, length⟩ := merged.decodes rows same decodable
  obtain ⟨lengths, columns⟩ := (merged.encodes rows _).mp prevEncodes
  have keys := calm.keys _ lengths columns
  have coefficients : rowPoints Pt prev ≠ [] := by
    rw [← List.length_pos_iff, rowPoints_length]
    exact List.length_pos_iff.mpr (merged.ne_nil holds some_)
  have each : ∀ c ∈ cs, ∃ m, dkgMember Pt prev c = .ok m := by
    intro c member
    obtain ⟨c0, R, C, popPoints, _⟩ := holds c member
    have head := popPoints.head
    rw [List.head?_eq_getElem?] at head
    refine ⟨⟨c.idx, encodePoint (vssPoint c.idx (rowPoints Pt prev)), some c0⟩, ?_⟩
    rw [dkgMember, evalVssPubkey_eq coefficients prevEncodes, serializePoint_eq (keys c member), ok_bind,
      itemAt, head]
    rfl
  obtain ⟨members, made⟩ := exists_mapM_ok each
  refine ⟨⟨encodePoint points.sum, threshold, members⟩, prev, ?_, length⟩
  rw [makeGroup, finishGroup, read, ok_bind, sumPoints_eq encodes nonempty, serializePoint_eq total,
    ok_bind, merges, ok_bind]
  dsimp only
  rw [made]
  rfl

end Rows

/-! ## The rounds -/

section Rounds

variable (Pt : Type) [AddCommGroup Pt] [Module Scalar Pt] [Curve Pt] [Sha2]

/-- What participants who have run Round 1 hold: each his coefficients and his package. -/
structure Dealt (threshold : Nat) (rounds : List (List (Bytes 32) × DkgCommitPackage)) : Prop where
  ran : ∀ r ∈ rounds, ∃ secrets random, dkgRound1 Pt r.2.idx threshold secrets random = .ok r
  distinct : (rounds.map (·.2.idx)).Nodup
  positive : ∀ r ∈ rounds, r.2.idx ≠ 0

/-- What the others send to a participant in Round 2. -/
def sentTo (rounds : List (List (Bytes 32) × DkgCommitPackage)) (i : UInt32) :
    Result (List DkgSharePackage) :=
  (rounds.filter fun r => decide (r.2.idx ≠ i)).mapM fun r => dkgRound2 r.2.idx r.1 i

/-- The polynomial of a participant, at an index. -/
def valueAt (idx : UInt32) (r : List (Bytes 32) × DkgCommitPackage) : Scalar :=
  horner (r.1.map scalarFromBytes) (indexToScalar idx)

/-- The share of an index: what it gets from all. -/
def jointShare (rounds : List (List (Bytes 32) × DkgCommitPackage)) (idx : UInt32) : SecretShare where
  idx := idx
  seckey := scalarToBytes (rounds.map (valueAt idx)).sum

omit [Sha2] in
@[simp] theorem jointShare_idx (rounds : List (List (Bytes 32) × DkgCommitPackage)) (idx : UInt32) :
    (jointShare rounds idx).idx = idx := rfl

omit [Sha2] in
theorem jointShare_seckey (rounds : List (List (Bytes 32) × DkgCommitPackage)) (idx : UInt32) :
    (jointShare rounds idx).seckey = scalarToBytes (rounds.map (valueAt idx)).sum := rfl

end Rounds

section Honest

variable {Pt : Type} [AddCommGroup Pt] [Module Scalar Pt] [Curve Pt] [Sha2]
variable {rounds : List (List (Bytes 32) × DkgCommitPackage)} {threshold : Nat}
variable {r : List (Bytes 32) × DkgCommitPackage} {commits : List DkgCommitPackage}
variable {received : List DkgSharePackage}

/-- The proof of possession of a participant holds, unless it cancels. -/
theorem popHolds_of_round1 {secrets coeffs : List (Bytes 32)} {random : Nat → Bytes 32}
    {idx : UInt32} {own : DkgCommitPackage}
    (made : dkgRound1 Pt idx threshold secrets random = .ok (coeffs, own))
    (calm : ¬ PopCancels Pt own) : PopHolds Pt own := by
  rw [dkgRound1] at made
  obtain ⟨vss, committed, made⟩ := bind_ok made
  obtain ⟨a0, first, made⟩ := bind_ok made
  obtain ⟨c0, head, made⟩ := bind_ok made
  obtain ⟨pop, proved, made⟩ := bind_ok made
  cases made
  have nonzero := getShareCommits_ok committed
  have encoded := committed.symm.trans (getShareCommits_eq nonzero)
  cases encoded
  -- The first commitment is that to the first coefficient.
  have items : (createShareCoeffs secrets threshold random)[0]? = some a0 ∧
      c0 = encodePoint (scalarBaseMulti Pt a0) := by
    rw [itemAt] at first head
    cases found : (createShareCoeffs secrets threshold random)[0]? with
    | none =>
      rw [found] at first
      cases first
    | some a =>
      rw [found] at first
      rw [List.getElem?_map, found] at head
      cases first
      cases head
      exact ⟨rfl, rfl⟩
  obtain ⟨found, rfl⟩ := items
  have finite : scalarBaseMulti Pt a0 ≠ 0 :=
    scalarBaseMulti_ne_zero (nonzero a0 (List.mem_of_getElem? found))
  rw [createDkgPop] at proved
  dsimp only at proved
  generalize (if modN _ = 0 then (1 : Scalar) else _) = k at proved
  obtain ⟨nonce, serialized, proved⟩ := bind_ok proved
  cases proved
  have finite' := serializePoint_ok serialized
  rw [serializePoint_eq finite'] at serialized
  cases serialized
  refine ⟨_, scalarBaseMulti Pt k, scalarBaseMulti Pt a0, ⟨?_, liftX_encodePoint finite',
    liftX_encodePoint finite⟩, ?_, ?_⟩
  · rw [List.head?_eq_getElem?, List.getElem?_map, found]
    rfl
  · intro zero
    refine calm ⟨_, scalarBaseMulti Pt k, scalarBaseMulti Pt a0, ⟨?_, liftX_encodePoint finite',
      liftX_encodePoint finite⟩, .inl zero⟩
    rw [List.head?_eq_getElem?, List.getElem?_map, found]
    rfl
  · rw [scalarFromBytes_scalarToBytes, scalarBaseMulti, add_smul, mul_smul]
    rfl

omit [AddCommGroup Pt] [Module Scalar Pt] [Curve Pt] [Sha2] in
/-- What a participant sends is the value of his polynomial. -/
theorem dkgRound2_ok (r : List (Bytes 32) × DkgCommitPackage) {i : UInt32} (positive : i ≠ 0) :
    dkgRound2 r.2.idx r.1 i = .ok ⟨r.2.idx, i, scalarToBytes (valueAt i r)⟩ := by
  rw [dkgRound2, evaluateX_eq _ (indexToScalar_eq_zero.not.mpr positive)]
  rfl

theorem Dealt.committed (dealt : Dealt Pt threshold rounds) (member : r ∈ rounds) :
    Encodes r.2.vssCommits ((r.1.map scalarFromBytes).map (· • (Curve.generator : Pt))) ∧
      r.2.vssCommits.length = threshold ∧ ∀ i, dealtTo Pt i r.2 = valueAt i r • Curve.generator := by
  obtain ⟨secrets, random, made⟩ := dealt.ran r member
  obtain ⟨_, kept, commits, nonzero, gives⟩ := dkgRound1_ok made
  refine ⟨?_, ?_, fun i => ?_⟩
  · rw [kept, commits, Encodes, List.forall₂_map_left_iff, List.forall₂_map_right_iff, List.forall₂_same]
    intro c listed
    exact liftX_encodePoint (scalarBaseMulti_ne_zero (nonzero c listed))
  · rw [commits, List.length_map, createShareCoeffs_length]
  · rw [gives, valueAt, kept]

theorem Dealt.threshold_pos (dealt : Dealt Pt threshold rounds) (member : r ∈ rounds) :
    0 < threshold := by
  obtain ⟨secrets, random, made⟩ := dealt.ran r member
  rw [dkgRound1] at made
  obtain ⟨_, _, made⟩ := bind_ok made
  obtain ⟨a0, first, _⟩ := bind_ok made
  by_contra none
  have zero : threshold = 0 := by omega
  rw [zero] at first
  cases first

/-- The share passes the check of the recipient, wherever the package of the sender stands. -/
theorem Dealt.shareHolds (dealt : Dealt Pt threshold rounds) (member : r ∈ rounds)
    (perm : commits.Perm (rounds.map (·.2))) (i : UInt32) :
    ShareHolds Pt commits threshold ⟨r.2.idx, i, scalarToBytes (valueAt i r)⟩ := by
  obtain ⟨encodes, length, _⟩ := dealt.committed member
  have distinct : (commits.map (·.idx)).Nodup := by
    have same := (perm.map (·.idx)).nodup_iff
    rw [List.map_map] at same
    exact same.mpr dealt.distinct
  have found := find?_of_nodup distinct (perm.mem_iff.mpr (List.mem_map_of_mem member))
  refine ⟨r.2, found, ?_⟩
  have whole : r.2.vssCommits.take threshold = r.2.vssCommits := List.take_of_length_le length.le
  have decoded : Decoded r.2.vssCommits threshold
      ((r.1.map scalarFromBytes).map (· • (Curve.generator : Pt))) :=
    ⟨length.ge, by rw [whole]; exact mapM_eq_ok_iff.mpr encodes⟩
  rw [verifyDkgShare, verifyShare_iff decoded]
  constructor
  · intro empty
    have size := decoded.length
    rw [empty, List.length_nil] at size
    have positive := dealt.threshold_pos member
    omega
  · rw [scalarFromBytes_scalarToBytes, vssPoint_smul]
    exact .inl rfl

/-- The steps of a finalization that returns. -/
theorem dkgFinalize_ok {myIdx : UInt32} {myCoeffs : List (Bytes 32)} {group : GroupPackage}
    {vss : List (Bytes 33)} (pops : ∀ c ∈ commits, PopHolds Pt c)
    (shares : ∀ pkg ∈ received, ShareHolds Pt commits threshold pkg) (positive : myIdx ≠ 0)
    (made : makeGroup Pt threshold (commits.insertionSort fun a b => a.idx ≤ b.idx) =
      .ok (group, vss)) :
    dkgFinalize Pt myIdx myCoeffs received commits threshold = .ok
      ⟨⟨myIdx, scalarToBytes (horner (myCoeffs.map scalarFromBytes) (indexToScalar myIdx) +
        (received.map fun pkg => scalarFromBytes pkg.seckey).sum)⟩, group, vss⟩ := by
  have proofs : forM commits (checkDkgPop Pt) = .ok () :=
    forM_ok.mpr fun c member => checkDkgPop_ok.mpr (pops c member)
  have checks : forM received (checkDkgShare Pt commits threshold) = .ok () :=
    forM_ok.mpr fun pkg member => checkDkgShare_ok.mpr (shares pkg member)
  have own : dkgRound2 myIdx myCoeffs myIdx = .ok ⟨myIdx, myIdx,
      scalarToBytes (horner (myCoeffs.map scalarFromBytes) (indexToScalar myIdx))⟩ := by
    rw [dkgRound2, evaluateX_eq _ (indexToScalar_eq_zero.not.mpr positive)]
    rfl
  have mine : ∀ s ∈ (⟨myIdx, scalarToBytes (horner (myCoeffs.map scalarFromBytes)
      (indexToScalar myIdx))⟩ : SecretShare) :: received.map fun pkg => ⟨myIdx, pkg.seckey⟩,
        s.idx = myIdx := by
    simp
  rw [makeGroup, finishGroup] at made
  obtain ⟨heads, read, made⟩ := bind_ok made
  obtain ⟨groupPk, summed, made⟩ := bind_ok made
  obtain ⟨merging, merges, made⟩ := bind_ok made
  cases merging with
  | none => cases made
  | some prev =>
    obtain ⟨members, each, made⟩ := bind_ok made
    cases made
    rw [dkgFinalize, proofs, ok_bind, checks, ok_bind, own, ok_bind]
    dsimp only
    rw [combineSet_eq (by simp) mine, ok_bind, read, ok_bind, summed, ok_bind, merges, ok_bind]
    dsimp only
    rw [each, ok_bind, List.map_cons, List.sum_cons, scalarFromBytes_scalarToBytes, List.map_map]
    rfl

/-- What a participant adds up is the joint share. -/
theorem Dealt.total (dealt : Dealt Pt threshold rounds) (member : r ∈ rounds) (i : UInt32) :
    valueAt i r + ((rounds.filter fun s => decide (s.2.idx ≠ r.2.idx)).map (valueAt i)).sum =
      (rounds.map (valueAt i)).sum := by
  -- Nobody else has the index.
  have alone : (rounds.filter fun s => !decide (s.2.idx ≠ r.2.idx)).Perm [r] := by
    have nodup : (rounds.filter fun s => !decide (s.2.idx ≠ r.2.idx)).Nodup :=
      (List.Nodup.of_map _ dealt.distinct).filter _
    rw [List.perm_ext_iff_of_nodup nodup (List.nodup_singleton r)]
    intro s
    rw [List.mem_filter, List.mem_singleton]
    constructor
    · intro here
      have same : s.2.idx = r.2.idx := by simpa using here.2
      exact List.inj_on_of_nodup_map dealt.distinct here.1 member same
    · intro same
      rw [same]
      exact ⟨member, by simp⟩
  have split := List.filter_append_perm (fun s => decide (s.2.idx ≠ r.2.idx)) rounds
  rw [← (split.map (valueAt i)).sum_eq, List.map_append, List.sum_append,
    (alone.map (valueAt i)).sum_eq, List.map_singleton, List.sum_singleton, add_comm]

/-- The joint shares are those of the sum of the polynomials. -/
theorem Dealt.polynomial (dealt : Dealt Pt threshold rounds) :
    ∃ f : Polynomial Scalar, f.degree < threshold ∧ ∀ i, IsShare f (jointShare rounds i) := by
  refine ⟨(rounds.map fun r => listPolynomial (r.1.map scalarFromBytes)).sum, ?_, fun i => ?_⟩
  · rw [← Polynomial.mem_degreeLT]
    apply list_sum_mem
    intro f listed
    obtain ⟨r, member, rfl⟩ := List.mem_map.mp listed
    rw [Polynomial.mem_degreeLT]
    obtain ⟨secrets, random, made⟩ := dealt.ran r member
    obtain ⟨_, kept, _⟩ := dkgRound1_ok made
    refine lt_of_lt_of_le (degree_listPolynomial _) ?_
    rw [kept, createShareCoeffs_length]
  · rw [IsShare, Polynomial.eval_listSum, List.map_map]
    simp only [Function.comp_def, eval_listPolynomial]
    rfl

theorem Dealt.sent (dealt : Dealt Pt threshold rounds) (member : r ∈ rounds) :
    sentTo rounds r.2.idx = .ok ((rounds.filter fun s => decide (s.2.idx ≠ r.2.idx)).map fun s =>
      ⟨s.2.idx, r.2.idx, scalarToBytes (valueAt r.2.idx s)⟩) := by
  apply mapM_ok
  intro s _
  exact dkgRound2_ok s (dealt.positive r member)

/-- The packages make up a group with as many commitments as the threshold says. -/
theorem Dealt.group (dealt : Dealt Pt threshold rounds) (some_ : rounds ≠ [])
    (calm : ∀ r ∈ rounds, ¬ PopCancels Pt r.2) (finite : ¬ SumsCancel Pt (rounds.map (·.2))) :
    (∀ r ∈ rounds, PopHolds Pt r.2) ∧ ∃ group vss, vss.length = threshold ∧
      makeGroup Pt threshold ((rounds.map (·.2)).insertionSort fun a b => a.idx ≤ b.idx) =
        .ok (group, vss) := by
  have holds : ∀ r ∈ rounds, PopHolds Pt r.2 := by
    intro r member
    obtain ⟨secrets, random, made⟩ := dealt.ran r member
    exact popHolds_of_round1 made (calm r member)
  refine ⟨holds, ?_⟩
  have perm := List.perm_insertionSort (fun a b : DkgCommitPackage => a.idx ≤ b.idx)
    (rounds.map (·.2))
  let sorted := (rounds.map (·.2)).insertionSort fun a b => a.idx ≤ b.idx
  have origin : ∀ c ∈ sorted, ∃ r ∈ rounds, r.2 = c := by
    intro c member
    exact List.mem_map.mp (perm.subset member)
  have nonempty : sorted ≠ [] := by
    rw [← List.length_pos_iff, perm.length_eq, List.length_map]
    exact List.length_pos_iff.mpr some_
  rw [SumsCancel, not_or, not_or] at finite
  obtain ⟨first, merge, keys⟩ := finite
  have rowsOf : ∀ row ∈ sorted.map (·.vssCommits), row.length = threshold ∧ Decodable Pt row := by
    intro row listed
    obtain ⟨c, member, rfl⟩ := List.mem_map.mp listed
    obtain ⟨r, inside, rfl⟩ := origin c member
    obtain ⟨encodes, length, _⟩ := dealt.committed inside
    exact ⟨length, of_mapM_ok (mapM_eq_ok_iff.mpr encodes)⟩
  have calm' : NothingCancels Pt sorted := by
    refine ⟨fun zero => first ⟨by simpa using some_, zero⟩, merge, fun sums lengths columns c member => ?_⟩
    intro zero
    refine keys ⟨?_, sums, lengths, columns, c, perm.subset member, zero⟩
    exact mergeable_of_decodable (fun row listed => (rowsOf row listed).1)
      (fun row listed => (rowsOf row listed).2) merge
  obtain ⟨group, vss, made, length⟩ := makeGroup_ok nonempty
    (fun c member => by
      obtain ⟨r, inside, rfl⟩ := origin c member
      exact holds r inside)
    (fun row listed => (rowsOf row listed).1) (fun row listed => (rowsOf row listed).2) calm'
  exact ⟨group, vss, length, made⟩

/-- A participant to whom the group was made gets the joint share. -/
theorem Dealt.finalizes (dealt : Dealt Pt threshold rounds) {group : GroupPackage}
    {vss : List (Bytes 33)} (holds : ∀ r ∈ rounds, PopHolds Pt r.2)
    (made : makeGroup Pt threshold ((rounds.map (·.2)).insertionSort fun a b => a.idx ≤ b.idx) =
      .ok (group, vss)) (member : r ∈ rounds)
    (arrived : received.Perm ((rounds.filter fun s => decide (s.2.idx ≠ r.2.idx)).map fun s =>
      ⟨s.2.idx, r.2.idx, scalarToBytes (valueAt r.2.idx s)⟩))
    (broadcast : commits.Perm (rounds.map (·.2))) :
    dkgFinalize Pt r.2.idx r.1 received commits threshold =
      .ok ⟨⟨r.2.idx, (jointShare rounds r.2.idx).seckey⟩, group, vss⟩ := by
  have distinct : ((rounds.map (·.2)).map (·.idx)).Nodup := by
    rw [List.map_map]
    exact dealt.distinct
  have pops : ∀ c ∈ commits, PopHolds Pt c := by
    intro c listed
    obtain ⟨s, inside, rfl⟩ := List.mem_map.mp (broadcast.subset listed)
    exact holds s inside
  have shares : ∀ pkg ∈ received, ShareHolds Pt commits threshold pkg := by
    intro pkg listed
    obtain ⟨s, other, rfl⟩ := List.mem_map.mp (arrived.subset listed)
    exact dealt.shareHolds (List.mem_of_mem_filter other) broadcast r.2.idx
  have sum : (received.map fun pkg => scalarFromBytes pkg.seckey).sum =
      ((rounds.filter fun s => decide (s.2.idx ≠ r.2.idx)).map (valueAt r.2.idx)).sum := by
    rw [(arrived.map _).sum_eq, List.map_map]
    simp only [Function.comp_def, scalarFromBytes_scalarToBytes]
  rw [← sortedCommits_of_perm distinct broadcast] at made
  rw [dkgFinalize_ok pops shares (dealt.positive r member) made, sum,
    jointShare_seckey, ← dealt.total member r.2.idx, valueAt]

/-- The joint share of a participant is that of his key in the group. -/
theorem Dealt.matches_ (dealt : Dealt Pt threshold rounds) {group : GroupPackage}
    {vss : List (Bytes 33)} (member : r ∈ rounds)
    (done : dkgFinalize Pt r.2.idx r.1 received (rounds.map (·.2)) threshold =
      .ok ⟨⟨r.2.idx, (jointShare rounds r.2.idx).seckey⟩, group, vss⟩) :
    MatchesMember Pt group (jointShare rounds r.2.idx) := by
  have known := finalized done
  have listed : r.2.idx ∈ group.members.map (·.idx) := by
    rw [known.indices.mem_iff, List.map_map]
    exact List.mem_map_of_mem member
  obtain ⟨m, inside, same⟩ := List.mem_map.mp listed
  obtain ⟨nonzero, pubkey⟩ := known.members m inside
  have key : keyOf Pt (rounds.map (·.2)) r.2.idx =
      (rounds.map (valueAt r.2.idx)).sum • (Curve.generator : Pt) := by
    rw [keyOf, List.map_map, List.sum_smul, List.map_map]
    refine congrArg List.sum (List.map_congr_left fun s here => ?_)
    exact (dealt.committed here).2.2 r.2.idx
  refine ⟨m, inside, same, ?_⟩
  rw [same, key] at nonzero pubkey
  rw [pubkey, jointShare_seckey, scalarFromBytes_scalarToBytes, scalarBaseMulti,
    serializePoint_eq nonzero]

/-- Enough joint shares give the one of index zero. -/
theorem Dealt.derives (dealt : Dealt Pt threshold rounds) {quorum : List UInt32}
    (nodup : quorum.Nodup) (enough : threshold ≤ quorum.length) :
    deriveSharesSecret (quorum.map (jointShare rounds)) =
      .ok (jointShare rounds 0).seckey := by
  obtain ⟨f, small, shares⟩ := dealt.polynomial
  have back : (quorum.map (jointShare rounds)).map (·.idx) = quorum := by
    rw [List.map_map]
    exact List.map_id _
  have theirs : ∀ s ∈ quorum.map (jointShare rounds), IsShare f s := by
    intro s listed
    obtain ⟨i, _, rfl⟩ := List.mem_map.mp listed
    exact shares i
  have degree : f.degree < (quorum.map (jointShare rounds)).length := by
    rw [List.length_map]
    exact lt_of_lt_of_le small (by exact_mod_cast enough)
  rw [deriveSharesSecret_eq theirs (List.Nodup.of_map (·.idx) (by rwa [back])) degree]
  have share := shares 0
  rw [IsShare, jointShare_idx, indexToScalar_eq_zero.mpr rfl] at share
  rw [share]

/-- The share of index zero is the secret of the group. -/
theorem Dealt.groupKey (dealt : Dealt Pt threshold rounds) {group : GroupPackage}
    {vss : List (Bytes 33)} (holds : ∀ r ∈ rounds, PopHolds Pt r.2)
    (made : makeGroup Pt threshold ((rounds.map (·.2)).insertionSort fun a b => a.idx ≤ b.idx) =
      .ok (group, vss)) (length : vss.length = threshold)
    (matches_ : ∀ r ∈ rounds, MatchesMember Pt group (jointShare rounds r.2.idx))
    {quorum : List UInt32} (nodup : quorum.Nodup) (within : quorum ⊆ rounds.map (·.2.idx))
    (enough : threshold ≤ quorum.length) :
    serializePoint (scalarBaseMulti Pt (scalarFromBytes (jointShare rounds 0).seckey)) =
      .ok group.groupPk := by
  have perm := List.perm_insertionSort (fun a b : DkgCommitPackage => a.idx ≤ b.idx)
    (rounds.map (·.2))
  have pops : ∀ c ∈ (rounds.map (·.2)).insertionSort (fun a b => a.idx ≤ b.idx), PopHolds Pt c := by
    intro c listed
    obtain ⟨s, inside, rfl⟩ := List.mem_map.mp (perm.subset listed)
    exact holds s inside
  have all : ∀ s ∈ quorum.map (jointShare rounds), MatchesMember Pt group s := by
    intro s listed
    obtain ⟨i, chosen, rfl⟩ := List.mem_map.mp listed
    obtain ⟨r, member, rfl⟩ := List.mem_map.mp (within chosen)
    exact matches_ r member
  have indices : ((quorum.map (jointShare rounds)).map (·.idx)).Nodup := by
    rw [List.map_map]
    exact nodup.map fun _ _ same => same
  obtain ⟨sums, encodes, groupOf⟩ := groupOf_makeGroup pops made
  have size : sums.length ≤ (quorum.map (jointShare rounds)).length := by
    rw [List.length_map, ← encodes.length_eq, length]
    exact enough
  obtain ⟨secret, derived, pubkey⟩ := groupOf.derive indices size all
  rw [dealt.derives nodup enough] at derived
  rw [Except.ok.inj derived]
  exact pubkey

/-- If everybody follows the rounds and nothing cancels, all finalize, in whatever order the
packages and the shares come: with one group, each with the share that belongs to his key in it.
From any threshold of the shares the secret is derived that the group's key belongs to. -/
theorem dkg_completes (dealt : Dealt Pt threshold rounds) (some_ : rounds ≠ [])
    (calm : ∀ r ∈ rounds, ¬ PopCancels Pt r.2) (finite : ¬ SumsCancel Pt (rounds.map (·.2))) :
    ∃ group vss,
      (∀ r ∈ rounds, ∃ sent, sentTo rounds r.2.idx = .ok sent ∧
        ∀ received commits, received.Perm sent → commits.Perm (rounds.map (·.2)) →
          dkgFinalize Pt r.2.idx r.1 received commits threshold =
            .ok ⟨⟨r.2.idx, (jointShare rounds r.2.idx).seckey⟩, group, vss⟩) ∧
      (∀ r ∈ rounds, MatchesMember Pt group (jointShare rounds r.2.idx)) ∧
      ∀ quorum : List UInt32, quorum.Nodup → quorum ⊆ rounds.map (·.2.idx) →
        threshold ≤ quorum.length →
          deriveSharesSecret (quorum.map (jointShare rounds)) = .ok (jointShare rounds 0).seckey ∧
          serializePoint (scalarBaseMulti Pt (scalarFromBytes (jointShare rounds 0).seckey)) =
            .ok group.groupPk := by
  obtain ⟨holds, group, vss, length, made⟩ := dealt.group some_ calm finite
  have matches_ : ∀ r ∈ rounds, MatchesMember Pt group (jointShare rounds r.2.idx) := by
    intro r member
    have done := dealt.finalizes holds made member (List.Perm.refl _) (List.Perm.refl _)
    exact dealt.matches_ member done
  refine ⟨group, vss, ?_, matches_, ?_⟩
  · intro r member
    refine ⟨_, dealt.sent member, ?_⟩
    intro received commits arrived broadcast
    exact dealt.finalizes holds made member arrived broadcast
  · intro quorum nodup within enough
    refine ⟨dealt.derives nodup enough, ?_⟩
    exact dealt.groupKey holds made length matches_ nodup within enough

end Honest

namespace Couple

/-- The participants have `1 + x` and `2 + x`. -/
def rounds : List (List (Bytes 32) × DkgCommitPackage) :=
  [([Bytes.ofNat 32 1, Bytes.ofNat 32 1], broadcast 1 1 [1]),
    ([Bytes.ofNat 32 2, Bytes.ofNat 32 1], broadcast 2 2 [1])]

attribute [local instance] lastBytes

theorem dealt : Dealt Scalar 2 rounds where
  ran := by
    have first : dkgRound1 Scalar 1 2 [Bytes.ofNat 32 1, Bytes.ofNat 32 1] (fun _ => Bytes.ofNat 32 0) =
        .ok ([Bytes.ofNat 32 1, Bytes.ofNat 32 1], broadcast 1 1 [1]) := by decide +kernel
    have second : dkgRound1 Scalar 2 2 [Bytes.ofNat 32 2, Bytes.ofNat 32 1] (fun _ => Bytes.ofNat 32 0) =
        .ok ([Bytes.ofNat 32 2, Bytes.ofNat 32 1], broadcast 2 2 [1]) := by decide +kernel
    rw [rounds, List.forall_mem_cons, List.forall_mem_singleton]
    exact ⟨⟨_, _, first⟩, ⟨_, _, second⟩⟩
  distinct := by decide
  positive := by decide

theorem proofs : ∀ r ∈ rounds, checkDkgPop Scalar r.2 = .ok () := by decide +kernel

theorem returns : (dkgFinalize Scalar 1 [] [] (rounds.map (·.2)) 2).toOption.isSome = true := by
  decide +kernel

/-- A finalization without any shares returns, so nothing cancels. -/
theorem finite : ¬ SumsCancel Scalar (rounds.map (·.2)) := by
  intro cancels
  have stops : DkgStops Scalar 1 [] (rounds.map (·.2)) 2 := by
    refine .inr ⟨?_, .inr ⟨by simp, by decide, cancels⟩⟩
    intro c listed
    obtain ⟨r, member, rfl⟩ := List.mem_map.mp listed
    exact checkDkgPop_ok.mp (proofs r member)
  have panics : Panics (dkgFinalize Scalar 1 [] [] (rounds.map (·.2)) 2) := panics_dkgFinalize.mpr stops
  obtain ⟨out, done⟩ := Option.isSome_iff_exists.mp returns
  rw [eq_ok_of_toOption done] at panics
  exact not_panics_ok _ panics

theorem calm : ∀ r ∈ rounds, ¬ PopCancels Scalar r.2 := by
  intro r member cancels
  have panics : Panics (checkDkgPop Scalar r.2) := panics_checkDkgPop.mpr cancels
  rw [proofs r member] at panics
  exact not_panics_ok _ panics

end Couple

/-- Both participants get a share that matches, and together they have `1 + 2`. -/
theorem dkg_completes_couple :
    ∃ group, (∀ r ∈ Couple.rounds, MatchesMember Scalar group (jointShare Couple.rounds r.2.idx)) ∧
      deriveSharesSecret ([2, 1].map (jointShare Couple.rounds)) = .ok (Bytes.ofNat 32 3) := by
  let _ := lastBytes
  have some_ : Couple.rounds ≠ [] := List.cons_ne_nil _ _
  obtain ⟨group, _, _, matches_, derives⟩ :=
    dkg_completes Couple.dealt some_ Couple.calm Couple.finite
  have secret : (jointShare Couple.rounds 0).seckey = Bytes.ofNat 32 3 := by decide +kernel
  have derived := (derives [2, 1] (by decide) (by decide) (by decide)).1
  rw [secret] at derived
  exact ⟨group, matches_, derived⟩

end Pomade.Frost
