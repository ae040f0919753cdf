import Pomade.Frost.DkgSound
import Pomade.Lib.Positions

/-! # The group that participants agree on

`dkg_finalize` computes the group from the packages that were broadcast, in the order of their
indices.  Participants who finalize on the same packages hold the same group, whatever the
packages say, and the members whose shares match it hold a sharing of the secret behind its key.
-/

namespace Pomade.Frost

open Pomade.Lib

section Group

variable {Pt : Type} [AddCommGroup Pt] [Module Scalar Pt] [Curve Pt]
variable {commits commits' cs : List DkgCommitPackage} {threshold : Nat}

/-! ## The order of the packages -/

omit [AddCommGroup Pt] [Module Scalar Pt] [Curve Pt] in
/-- The packages are arranged in one way if their indices differ. -/
theorem sortedCommits_of_perm (distinct : (commits.map (·.idx)).Nodup)
    (perm : commits'.Perm commits) :
    commits'.insertionSort (fun a b => a.idx ≤ b.idx) =
      commits.insertionSort fun a b => a.idx ≤ b.idx := by
  have : IsTrans UInt32 fun a b => a ≤ b := ⟨fun _ _ _ => UInt32.le_trans⟩
  have : Std.Total fun a b : UInt32 => a ≤ b := ⟨fun _ _ => UInt32.le_total _ _⟩
  exact insertionSort_of_perm (fun _ _ => UInt32.le_antisymm) distinct perm

variable (Pt) in
/-- The group that packages make up, in this order, and its commitments. -/
def makeGroup (threshold : Nat) (sorted : List DkgCommitPackage) :
    Result (GroupPackage × List (Bytes 33)) :=
  finishGroup Pt sorted fun groupPk groupVssCommits members =>
    .ok (⟨groupPk, threshold, members⟩, groupVssCommits)

/-- The keys of a group and its members are the values of these points, as coefficients. -/
structure GroupOf (sums : List Pt) (group : GroupPackage) : Prop where
  key : evalVectors sums (0 : Scalar) ≠ 0 ∧ group.groupPk = encodePoint (evalVectors sums (0 : Scalar))
  members : ∀ m ∈ group.members, vssPoint m.idx sums ≠ 0 ∧ m.pubkey = encodePoint (vssPoint m.idx sums)

theorem groupOf_makeGroup [Sha2] (holds : ∀ c ∈ cs, PopHolds Pt c) {group : GroupPackage}
    {vss : List (Bytes 33)} (made : makeGroup Pt threshold cs = .ok (group, vss)) :
    ∃ sums : List Pt, Encodes vss sums ∧ GroupOf sums group := by
  rw [makeGroup, finishGroup] at made
  obtain ⟨heads, read, made⟩ := bind_ok made
  obtain ⟨groupPk, summed, made⟩ := bind_ok made
  obtain ⟨merging, merges, made⟩ := bind_ok made
  obtain ⟨_, held⟩ := (mergeCommits_run Pt cs).2.1 merging merges
  rcases held with ⟨_, rfl⟩ | ⟨some_, prev, rfl, merged⟩
  · cases made
  obtain ⟨members, each, made⟩ := bind_ok made
  cases made
  -- The members' keys were computed, so the merged commitments are decoded.
  obtain ⟨c, rest, split⟩ := List.exists_cons_of_ne_nil some_
  obtain ⟨_, first⟩ := of_mapM_ok each c (by rw [split]; exact List.mem_cons_self)
  obtain ⟨_, evaluated, _⟩ := bind_ok first
  obtain ⟨sums, finite, encodes⟩ := encodes_of_evalVssPubkey evaluated
  refine ⟨sums, encodes, ?_, ?_⟩
  · obtain ⟨heads', points, read', headsEncode, size, decoded⟩ := first_commits holds
    rw [read] at read'
    cases read'
    have nonempty : heads ≠ [] := by
      rw [← List.length_pos_iff, size]
      exact List.length_pos_iff.mpr some_
    have column := ((merged.encodes (by simpa using some_) sums).mp encodes).2 0
    rw [columnSum, decoded, Option.map_some] at column
    have total : evalVectors sums (0 : Scalar) = points.sum := by
      rw [evalVectors_zero, List.head?_eq_getElem?, ← column, Option.getD_some]
    rw [sumPoints_eq headsEncode nonempty, ← total] at summed
    have nonzero := serializePoint_ok summed
    rw [serializePoint_eq nonzero] at summed
    exact ⟨nonzero, (Except.ok.inj summed).symm⟩
  · intro m member
    obtain ⟨c, _, round⟩ := (mem_of_mapM_ok each m).mp member
    obtain ⟨pubkey, evaluated, round⟩ := bind_ok round
    obtain ⟨_, _, round⟩ := bind_ok round
    cases round
    rw [evalVssPubkey_eq finite encodes] at evaluated
    have nonzero := serializePoint_ok evaluated
    rw [serializePoint_eq nonzero] at evaluated
    exact ⟨nonzero, (Except.ok.inj evaluated).symm⟩

variable (Pt) in
/-- The share is that of a member of the group. -/
def MatchesMember (group : GroupPackage) (share : SecretShare) : Prop :=
  ∃ m ∈ group.members, m.idx = share.idx ∧
    serializePoint (scalarBaseMulti Pt (scalarFromBytes share.seckey)) = .ok m.pubkey

theorem GroupOf.matches_iff {sums : List Pt} {group : GroupPackage} (groupOf : GroupOf sums group)
    {share : SecretShare} (matches_ : MatchesMember Pt group share) :
    scalarBaseMulti Pt (scalarFromBytes share.seckey) = vssPoint share.idx sums := by
  obtain ⟨m, member, same, serialized⟩ := matches_
  obtain ⟨finite, pubkey⟩ := groupOf.members m member
  have finite' := serializePoint_ok serialized
  rw [serializePoint_eq finite', pubkey] at serialized
  rw [← same]
  exact encodePoint_injective finite' finite (Except.ok.inj serialized)

/-- As many matching shares as there are coefficients give the secret of the group. -/
theorem GroupOf.derive {sums : List Pt} {group : GroupPackage} (groupOf : GroupOf sums group)
    {shares : List SecretShare} (distinct : (shares.map (·.idx)).Nodup)
    (enough : sums.length ≤ shares.length) (all : ∀ s ∈ shares, MatchesMember Pt group s) :
    ∃ secret, deriveSharesSecret shares = .ok secret ∧
      serializePoint (scalarBaseMulti Pt (scalarFromBytes secret)) = .ok group.groupPk := by
  let points := shares.map fun s => (indexToScalar s.idx, scalarFromBytes s.seckey)
  let places := shares.map fun s => indexToScalar s.idx
  have nodup : places.Nodup := by
    have := distinct.map indexToScalar_injective
    rwa [List.map_map] at this
  have firsts : points.map Prod.fst = places := by
    rw [List.map_map]
    rfl
  have distinctPlaces : (points.map Prod.fst).Nodup := by rwa [firsts]
  have root := interpolateRoot_eq distinctPlaces
  rw [firsts] at root
  refine ⟨scalarToBytes (points.map fun point => weight places point.1 0 * point.2).sum, ?_, ?_⟩
  · rw [deriveSharesSecret]
    show (interpolateRoot points >>= _) = _
    rw [root]
    rfl
  obtain ⟨finite, pubkey⟩ := groupOf.key
  -- In the exponent the sum is the interpolation of the points.
  have value : scalarBaseMulti Pt (points.map fun point => weight places point.1 0 * point.2).sum =
      evalVectors sums (0 : Scalar) := by
    rw [← sum_weight_smul nodup (by rwa [List.length_map]) 0, scalarBaseMulti, List.sum_smul,
      List.map_map, List.map_map, List.map_map]
    refine congrArg List.sum (List.map_congr_left ?_)
    intro s member
    have point := groupOf.matches_iff (all s member)
    simp only [Function.comp_apply, mul_smul]
    rw [← scalarBaseMulti, point]
    rfl
  rw [scalarFromBytes_scalarToBytes, value, pubkey, serializePoint_eq finite]

variable [Sha2] {myIdx myIdx' : UInt32} {myCoeffs myCoeffs' : List (Bytes 32)}
variable {received received' : List DkgSharePackage} {out out' : DkgOutput}

end Group

namespace Couple

/-- The participants have `1 + x` and `2 + x`. -/
def commits : List DkgCommitPackage := [broadcast 1 1 [1], broadcast 2 2 [1]]

def shares : List SecretShare := [⟨2, scalarToBytes (modN 7)⟩, ⟨1, scalarToBytes (modN 5)⟩]

/-- The keys of a group. -/
def keys (group : GroupPackage) : List (UInt32 × Bytes 33) :=
  group.members.map fun m => (m.idx, m.pubkey)

attribute [local instance] lastBytes

def first : Result DkgOutput :=
  dkgFinalize Scalar 1 [Bytes.ofNat 32 1, Bytes.ofNat 32 1] [⟨2, 1, Bytes.ofNat 32 3⟩] commits 2

def second : Result DkgOutput :=
  dkgFinalize Scalar 2 [Bytes.ofNat 32 2, Bytes.ofNat 32 1] [⟨1, 2, Bytes.ofNat 32 3⟩]
    commits.reverse 2

theorem matches_ {group : GroupPackage}
    (listed : keys group = [(1, encodePoint (modN 5)), (2, encodePoint (modN 7))]) :
    ∀ s ∈ shares, MatchesMember Scalar group s := by
  have points : ∀ s ∈ shares, ∃ k ∈ keys group, k.1 = s.idx ∧
      serializePoint (scalarBaseMulti Scalar (scalarFromBytes s.seckey)) = .ok k.2 := by
    rw [listed]
    decide +kernel
  intro s member
  obtain ⟨k, known, same, serialized⟩ := points s member
  obtain ⟨m, inside, rfl⟩ := List.mem_map.mp known
  exact ⟨m, inside, same, serialized⟩

end Couple

end Pomade.Frost
