import Mathlib.Data.List.Sort
import Pomade.Frost.Points
import Pomade.Frost.ScalarCurve
import Pomade.Frost.Sharing

/-! # Recovering and refreshing shares

The two exchanges that `recover.rs` and `refresh.rs` are made for.  In both of them every
party commits to the scalars it draws, and a commitment to zero has no encoding, so both
say that none of these scalars is zero.
-/

namespace Pomade.Frost

open Pomade.Lib Polynomial

/-! ## Commitments and sums -/

section Sums

variable {Pt : Type} [AddCommGroup Pt] [Module Scalar Pt] [Curve Pt]

theorem getShareCommits_eq {coeffs : List Scalar} (nonzero : ∀ c ∈ coeffs, c ≠ 0) :
    getShareCommits Pt coeffs = .ok (coeffs.map fun c => encodePoint (scalarBaseMulti Pt c)) := by
  apply mapM_ok
  intro c member
  exact serializePoint_eq (scalarBaseMulti_ne_zero (nonzero c member))

theorem getShareCommits_ok {coeffs : List Scalar} {commits : List (Bytes 33)}
    (made : getShareCommits Pt coeffs = .ok commits) : ∀ c ∈ coeffs, c ≠ 0 := by
  intro c member
  obtain ⟨bytes, serialized⟩ := of_mapM_ok made c member
  rintro rfl
  exact serializePoint_ok serialized (zero_smul _ _)

theorem allEqual_of_forall {idx : UInt32} {l : List UInt32} (same : ∀ x ∈ l, x = idx) :
    allEqual l = true := by
  induction l with
  | nil => rfl
  | cons a l ih =>
    rw [List.forall_mem_cons] at same
    cases l with
    | nil => rfl
    | cons b l =>
      have next : b = idx := same.2 b List.mem_cons_self
      rw [allEqual, ih same.2, same.1, next]
      simp

theorem combineShares_eq (shares : List SecretShare) :
    combineShares shares = scalarToBytes (shares.map fun s => scalarFromBytes s.seckey).sum := by
  rw [combineShares, ← List.sum_eq_foldl]

theorem combineSet_eq {idx : UInt32} {shares : List SecretShare} (nonempty : shares ≠ [])
    (same : ∀ s ∈ shares, s.idx = idx) :
    combineSet shares =
      .ok { idx, seckey := scalarToBytes (shares.map fun s => scalarFromBytes s.seckey).sum } := by
  have indices : ∀ i ∈ shares.map (·.idx), i = idx := by simpa using same
  have equal : isEqualSet (shares.map (·.idx)) = .ok () := by
    rw [isEqualSet, allEqual_of_forall indices]
    rfl
  cases shares with
  | nil => exact absurd rfl nonempty
  | cons first rest =>
    rw [combineSet, equal, combineShares_eq, same first List.mem_cons_self]
    rfl

/-- The share in a package that is addressed to an index. -/
def SecretSharePackage.addressedTo (pkg : SecretSharePackage) (idx : UInt32) : Option SecretShare :=
  pkg.shares.find? fun s => s.idx == idx

/-- In a package with one share for each index, the one addressed to an index is that one. -/
theorem addressedTo_map {indices : List UInt32} {share : UInt32 → SecretShare} {idx : UInt32}
    {sender : UInt32} {commits : List (Bytes 33)} (own : ∀ i, (share i).idx = i)
    (member : idx ∈ indices) :
    SecretSharePackage.addressedTo ⟨sender, commits, indices.map share⟩ idx = some (share idx) := by
  rw [SecretSharePackage.addressedTo]
  induction indices with
  | nil => cases member
  | cons i indices ih =>
    rw [List.map_cons]
    by_cases here : i = idx
    · rw [List.find?_cons_of_pos (by simp [own, here]), here]
    · rw [List.find?_cons_of_neg (by simp [own, here])]
      exact ih ((List.mem_cons.mp member).resolve_left (Ne.symm here))

/-- What all senders have addressed to one index. -/
theorem filterMap_addressedTo {α : Type} {senders : List α} {pkg : α → SecretSharePackage}
    {share : α → SecretShare} {idx : UInt32}
    (each : ∀ a ∈ senders, (pkg a).addressedTo idx = some (share a)) :
    (senders.map pkg).filterMap (fun pkg => pkg.addressedTo idx) = senders.map share := by
  rw [List.filterMap_map, ← List.filterMap_eq_map]
  apply List.filterMap_congr
  exact each

theorem sum_map_comm {α β : Type} (l : List α) (m : List β) (f : α → β → Scalar) :
    (l.map fun a => (m.map fun b => f a b).sum).sum = (m.map fun b => (l.map fun a => f a b).sum).sum :=
  Multiset.sum_map_sum_map (l : Multiset α) (m : Multiset β)

end Sums

/-! ## Recovery -/

section Recovery

variable (Pt : Type) [AddCommGroup Pt] [Module Scalar Pt] [Curve Pt]

/-- The scalars that a helper splits its weighted share into: the blinding scalars, and what
is left. -/
def repairPieces (helpers : List UInt32) (target : UInt32) (share : SecretShare)
    (blinding : List Scalar) : List Scalar :=
  let lgrngCoeff := weight (helpers.map indexToScalar) (indexToScalar share.idx) (indexToScalar target)
  blinding ++ [lgrngCoeff * scalarFromBytes share.seckey - blinding.sum]

/-- All helpers split their shares, each adds up the pieces that are addressed to it, and the
target adds up these sums. -/
def runRecovery (helpers : List UInt32) (share : UInt32 → SecretShare) (target : UInt32)
    (threshold : Nat) (members : UInt32 → List UInt32) (secrets : UInt32 → List (Bytes 32))
    (random : UInt32 → Nat → Bytes 32) : Result SecretShare := do
  let pkgs ← helpers.mapM fun i =>
    genRecoveryShares Pt (members i) (share i) target threshold (secrets i) (random i)
  let sums ← helpers.mapM fun j => combineSet (pkgs.filterMap fun pkg => pkg.addressedTo j)
  return recoverShare sums target

variable {Pt} {helpers members : List UInt32} {target : UInt32} {share : SecretShare}
variable {secrets : List (Bytes 32)} {random : Nat → Bytes 32}

/-- The weight the code computes from the sorted list of the others. -/
theorem weight_sorted (listed : members.Perm helpers) :
    weight (((members.insertionSort fun a b => a ≤ b).filter fun i => decide (i ≠ share.idx)).map
      indexToScalar) (indexToScalar share.idx) (indexToScalar target) =
    weight (helpers.map indexToScalar) (indexToScalar share.idx) (indexToScalar target) := by
  rw [others_eq, weight_others]
  exact weight_perm (((List.perm_insertionSort _ members).trans listed).map _)

/-- A split with as many places as pieces gives every place one piece. -/
theorem exists_pieces {indices : List UInt32} (nodup : indices.Nodup) {pieces : List Scalar}
    (size : indices.length = pieces.length) : ∃ piece : UInt32 → Scalar, pieces = indices.map piece := by
  induction indices generalizing pieces with
  | nil => exact ⟨fun _ => 0, by simpa using (List.length_eq_zero_iff.mp size.symm)⟩
  | cons i indices ih =>
    cases pieces with
    | nil => cases size
    | cons first pieces =>
      rw [List.nodup_cons] at nodup
      obtain ⟨piece, rest⟩ := ih nodup.2 (Nat.succ.inj size)
      refine ⟨Function.update piece i first, ?_⟩
      rw [List.map_cons, Function.update_self, rest]
      congr 1
      apply List.map_congr_left
      intro j member
      rw [Function.update_of_ne]
      rintro rfl
      exact nodup.1 member

/-- All checks are passed: what remains are the commitments. -/
theorem genRecoveryShares_commits (distinct : helpers.Nodup) (listed : members.Perm helpers)
    (own : share.idx ∈ helpers) (outside : target ∉ helpers) :
    genRecoveryShares Pt members share target helpers.length secrets random = do
      let pieces := repairPieces helpers target share
        (createShareCoeffs secrets (helpers.length - 1) random)
      let commits ← getShareCommits Pt pieces
      return ⟨share.idx, commits, (members.insertionSort fun a b => a ≤ b).zipWith
        (fun idx share => ⟨idx, scalarToBytes share⟩) pieces⟩ := by
  have enough : assertOk (decide (members.length ≥ helpers.length))
      "not enough members to meet threshold" = .ok () := by
    rw [assertOk, if_pos (by simp [listed.length_eq])]
  have equal : assertOk (decide (members.length = helpers.length))
      "member count must equal threshold" = .ok () := by
    rw [assertOk, if_pos (by simp [listed.length_eq])]
  have arranged := (List.perm_insertionSort (fun a b : UInt32 => a ≤ b) members).trans listed
  have places : (((members.insertionSort fun a b => a ≤ b).filter fun i =>
      decide (i ≠ share.idx)).map indexToScalar).Nodup :=
    ((arranged.nodup_iff.mpr distinct).filter _).map indexToScalar_injective
  have coefficient := calcLagrangeCoeff_eq (p := indexToScalar share.idx)
    (x := indexToScalar target) places
  rw [weight_sorted listed] at coefficient
  have positive : assertOk (decide (weight (helpers.map indexToScalar) (indexToScalar share.idx)
      (indexToScalar target) ≠ 0)) "lagrange coefficient must be greater than zero" = .ok () := by
    rw [assertOk, if_pos]
    apply decide_eq_true
    apply weight_ne_zero
    rintro _ member _ same
    obtain ⟨i, inside, rfl⟩ := List.mem_map.mp member
    exact outside (indexToScalar_injective same ▸ inside)
  have less : checkedSub helpers.length 1 = .ok (helpers.length - 1) := by
    rw [checkedSub, if_neg (by have := List.length_pos_of_mem own; omega)]
  have folded : ∀ l : List Scalar, l.foldl (· + ·) 0 = l.sum := fun _ => List.sum_eq_foldl.symm
  unfold genRecoveryShares repairPieces
  rw [enough, ok_bind, equal, ok_bind]
  dsimp only
  rw [coefficient, ok_bind, positive, ok_bind, less, ok_bind, folded]

theorem genRecoveryShares_eq (distinct : helpers.Nodup) (listed : members.Perm helpers)
    (own : share.idx ∈ helpers) (outside : target ∉ helpers)
    (nonzero : ∀ piece ∈ repairPieces helpers target share
      (createShareCoeffs secrets (helpers.length - 1) random), piece ≠ 0) :
    ∃ (piece : UInt32 → Scalar) (commits : List (Bytes 33)),
      genRecoveryShares Pt members share target helpers.length secrets random =
        .ok ⟨share.idx, commits, (members.insertionSort fun a b => a ≤ b).map fun idx =>
          ⟨idx, scalarToBytes (piece idx)⟩⟩ ∧
      (helpers.map piece).sum =
        weight (helpers.map indexToScalar) (indexToScalar share.idx) (indexToScalar target) *
          scalarFromBytes share.seckey := by
  set sorted := members.insertionSort fun a b => a ≤ b
  have arranged : sorted.Perm helpers := (List.perm_insertionSort _ members).trans listed
  set blinding := createShareCoeffs secrets (helpers.length - 1) random with blinding_eq
  have size : sorted.length = (repairPieces helpers target share blinding).length := by
    have some_ := List.length_pos_of_mem own
    rw [arranged.length_eq, repairPieces, List.length_append, blinding_eq, createShareCoeffs_length,
      List.length_singleton]
    omega
  obtain ⟨piece, pieces⟩ := exists_pieces (arranged.nodup_iff.mpr distinct) size
  refine ⟨piece, (repairPieces helpers target share blinding).map fun c =>
    encodePoint (scalarBaseMulti Pt c), ?_, ?_⟩
  · have zipped : sorted.zipWith (fun idx share => (⟨idx, scalarToBytes share⟩ : SecretShare))
        (repairPieces helpers target share blinding) =
        sorted.map fun idx => ⟨idx, scalarToBytes (piece idx)⟩ := by
      rw [pieces, List.zipWith_map_right, List.zipWith_self]
    rw [genRecoveryShares_commits distinct listed own outside]
    dsimp only
    rw [getShareCommits_eq nonzero, ok_bind, zipped]
    rfl
  · have total : (sorted.map piece).sum = (helpers.map piece).sum := (arranged.map piece).sum_eq
    rw [← total, ← pieces, repairPieces, List.sum_append, List.sum_singleton]
    ring

/-- A helper that gets through has split its share into pieces of which none is zero. -/
theorem genRecoveryShares_ok {pkg : SecretSharePackage} (distinct : helpers.Nodup)
    (listed : members.Perm helpers) (own : share.idx ∈ helpers) (outside : target ∉ helpers)
    (made : genRecoveryShares Pt members share target helpers.length secrets random = .ok pkg) :
    ∀ piece ∈ repairPieces helpers target share
      (createShareCoeffs secrets (helpers.length - 1) random), piece ≠ 0 := by
  rw [genRecoveryShares_commits distinct listed own outside] at made
  obtain ⟨commits, committed, _⟩ := bind_ok made
  exact getShareCommits_ok committed

variable {coeffs : List Scalar} {members : UInt32 → List UInt32}
variable {secrets : UInt32 → List (Bytes 32)} {random : UInt32 → Nat → Bytes 32}

/-- The helpers get back together what was split, at the place of the target. -/
theorem runRecovery_eq (distinct : helpers.Nodup) (size : helpers.length = coeffs.length)
    (outside : target ∉ helpers) (listed : ∀ i ∈ helpers, (members i).Perm helpers)
    (nonzero : ∀ i ∈ helpers, ∀ piece ∈ repairPieces helpers target (shareAt coeffs i)
      (createShareCoeffs (secrets i) (coeffs.length - 1) (random i)), piece ≠ 0) :
    runRecovery Pt helpers (shareAt coeffs) target coeffs.length members secrets random =
      .ok (shareAt coeffs target) := by
  have split : ∀ i ∈ helpers, ∃ (piece : UInt32 → Scalar) (commits : List (Bytes 33)),
      genRecoveryShares Pt (members i) (shareAt coeffs i) target coeffs.length (secrets i) (random i) =
        .ok ⟨i, commits, ((members i).insertionSort fun a b => a ≤ b).map fun idx =>
          ⟨idx, scalarToBytes (piece idx)⟩⟩ ∧
      (helpers.map piece).sum =
        weight (helpers.map indexToScalar) (indexToScalar i) (indexToScalar target) *
          horner coeffs (indexToScalar i) := by
    intro i member
    obtain ⟨piece, commits, made, total⟩ := @genRecoveryShares_eq Pt _ _ _ _ _ _
      (shareAt coeffs i) _ _ distinct (listed i member) member outside (size ▸ nonzero i member)
    rw [← size]
    refine ⟨piece, commits, made, total.trans ?_⟩
    rw [(isShare_shareAt coeffs i).value, eval_listPolynomial, shareAt_idx]
  choose! piece commits made total using split
  have pkgs := mapM_ok made
  -- What helper `j` is sent, and what it passes on.
  have received : ∀ j ∈ helpers, combineSet ((helpers.map fun i => (⟨i, commits i,
      ((members i).insertionSort fun a b => a ≤ b).map fun idx =>
        ⟨idx, scalarToBytes (piece i idx)⟩⟩ : SecretSharePackage)).filterMap fun pkg =>
          pkg.addressedTo j) =
      .ok ⟨j, scalarToBytes (helpers.map fun i => piece i j).sum⟩ := by
    intro j member
    have sent := fun i sender => @addressedTo_map ((members i).insertionSort fun a b => a ≤ b)
      (fun idx => ⟨idx, scalarToBytes (piece i idx)⟩) j i (commits i) (fun _ => rfl)
      (((List.perm_insertionSort _ _).trans (listed i sender)).mem_iff.mpr member)
    have nonempty : helpers.map (fun i => (⟨j, scalarToBytes (piece i j)⟩ : SecretShare)) ≠ [] := by
      simpa using List.ne_nil_of_mem member
    have same : ∀ s ∈ helpers.map (fun i => (⟨j, scalarToBytes (piece i j)⟩ : SecretShare)),
        s.idx = j := by simp
    rw [filterMap_addressedTo sent, combineSet_eq nonempty same]
    simp only [List.map_map, Function.comp_def, scalarFromBytes_scalarToBytes]
  rw [runRecovery, pkgs, ok_bind, mapM_ok received, ok_bind]
  show Except.ok (recoverShare _ _) = _
  have places : (helpers.map indexToScalar).Nodup := distinct.map indexToScalar_injective
  have small : (listPolynomial coeffs).degree < (helpers.map indexToScalar).length := by
    rw [List.length_map, size]
    exact degree_listPolynomial coeffs
  have sum : (helpers.map fun j => (helpers.map fun i => piece i j).sum).sum =
      horner coeffs (indexToScalar target) := by
    rw [sum_map_comm, List.map_congr_left total, ← eval_listPolynomial, ← sum_weight places small,
      List.map_map]
    simp only [Function.comp_def, eval_listPolynomial]
  rw [recoverShare, ← List.sum_eq_foldl, shareAt, ← sum]
  simp only [List.map_map, Function.comp_def, scalarFromBytes_scalarToBytes]

/-- The target gets its share of the polynomial back exactly when no party has to commit to
zero. -/
theorem recover_share_exact (distinct : helpers.Nodup) (size : helpers.length = coeffs.length)
    (outside : target ∉ helpers) (listed : ∀ i ∈ helpers, (members i).Perm helpers) :
    runRecovery Pt helpers (shareAt coeffs) target coeffs.length members secrets random =
        .ok (shareAt coeffs target) ↔
      ∀ i ∈ helpers, ∀ piece ∈ repairPieces helpers target (shareAt coeffs i)
        (createShareCoeffs (secrets i) (coeffs.length - 1) (random i)), piece ≠ 0 := by
  constructor
  · intro recovered i member
    obtain ⟨pkgs, made, _⟩ := bind_ok recovered
    obtain ⟨pkg, split⟩ := of_mapM_ok made i member
    rw [← size] at split ⊢
    exact genRecoveryShares_ok distinct (listed i member) member outside split
  · exact runRecovery_eq distinct size outside listed

/-- Members 1 and 2 of the sharing `5 + x` compute the share of member 3, each with the
blinding secret 1. -/
theorem recover_share_exact_pair :
    runRecovery Scalar [1, 2] (shareAt [5, 1]) 3 2 (fun _ => [2, 1]) (fun _ => [Bytes.ofNat 32 1])
      (fun _ _ => Bytes.ofNat 32 0) = .ok (shareAt [5, 1] 3) := by
  apply (recover_share_exact (by decide) rfl (by decide) (fun _ _ => List.Perm.swap ..)).mpr
  have drawn : createShareCoeffs [Bytes.ofNat 32 1] 1 (fun _ => Bytes.ofNat 32 0) = [1] := by
    decide +kernel
  have last : ∀ n d v : Scalar, d ≠ 0 → n * v ≠ d → n * d⁻¹ * v - 1 ≠ 0 := by
    intro n d v nonzero differ zero
    apply differ
    rw [sub_eq_zero, mul_right_comm, mul_inv_eq_iff_eq_mul₀ nonzero, one_mul] at zero
    exact zero
  have first : others ([1, 2].map indexToScalar) (indexToScalar 1) = [2] := by decide +kernel
  have second : others ([1, 2].map indexToScalar) (indexToScalar 2) = [1] := by decide +kernel
  intro i member
  rw [List.length_cons, List.length_singleton, drawn, repairPieces, List.singleton_append,
    List.forall_mem_cons, List.forall_mem_singleton, List.sum_singleton,
    (isShare_shareAt [5, 1] i).value, eval_listPolynomial, shareAt_idx]
  refine ⟨by decide +kernel, ?_⟩
  rcases List.mem_pair.mp member with rfl | rfl
  · rw [weight, first]
    apply last <;> decide +kernel
  · rw [weight, second]
    apply last <;> decide +kernel

/-- The same two members, with the blinding secret zero. -/
theorem recovery_stops_at_zero :
    runRecovery Scalar [1, 2] (shareAt [5, 1]) 3 2 (fun _ => [2, 1]) (fun _ => [Bytes.ofNat 32 0])
      (fun _ _ => Bytes.ofNat 32 0) ≠ .ok (shareAt [5, 1] 3) := by
  intro recovered
  obtain ⟨pkgs, made, _⟩ := bind_ok recovered
  obtain ⟨pkg, split⟩ := of_mapM_ok made 1 List.mem_cons_self
  have distinct : ([1, 2] : List UInt32).Nodup := by decide
  have nonzero := genRecoveryShares_ok distinct (List.Perm.swap ..) List.mem_cons_self (by decide)
    split
  refine nonzero 0 (List.mem_append_left _ ?_) rfl
  decide +kernel

end Recovery

end Pomade.Frost
