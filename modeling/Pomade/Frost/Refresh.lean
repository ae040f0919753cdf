import Pomade.Frost.Recovery

/-! # Refreshing shares

A refresher deals out shares of a polynomial that vanishes at zero, and every member adds
what it is sent to its share.  Over any number of rounds the shares stay shares of one
polynomial of small degree with the same value at zero.
-/

namespace Pomade.Frost

open Pomade.Lib Polynomial

section Refresh

variable (Pt : Type) [AddCommGroup Pt] [Module Scalar Pt] [Curve Pt]

/-- A member that deals out refresh shares, with the secrets it brings and those it draws. -/
structure Refresher where
  index : UInt32
  secrets : List (Bytes 32)
  random : Nat → Bytes 32

/-- The coefficients of a refresher's polynomial but for the constant one. -/
def Refresher.coeffs (refresher : Refresher) (threshold : Nat) : List Scalar :=
  createShareCoeffs refresher.secrets (threshold - 1) refresher.random

/-- The polynomial whose shares a refresher deals out. -/
noncomputable def Refresher.polynomial (refresher : Refresher) (threshold : Nat) : Scalar[X] :=
  listPolynomial (0 :: refresher.coeffs threshold)

/-- All refreshers deal out their shares, and every holder of a share adds those that are
addressed to it. -/
def refreshRound (threshold : Nat) (shareMax : UInt32) (shares : List SecretShare)
    (refreshers : List Refresher) : Result (List SecretShare) := do
  let pkgs ← refreshers.mapM fun r =>
    genRefreshShares Pt r.index threshold shareMax r.secrets r.random
  shares.mapM fun share =>
    refreshShare (pkgs.filterMap fun pkg => pkg.addressedTo share.idx) share

def refreshRounds (threshold : Nat) (shareMax : UInt32) (shares : List SecretShare)
    (rounds : List (List Refresher)) : Result (List SecretShare) :=
  rounds.foldlM (refreshRound Pt threshold shareMax) shares

/-- A list of shares of one polynomial of degree below the threshold, for members that are
dealt refresh shares. -/
structure Sharing (threshold : Nat) (shareMax : UInt32) (f : Scalar[X])
    (shares : List SecretShare) : Prop where
  small : f.degree < threshold
  members : ∀ share ∈ shares, share.idx ∈ shareIndices shareMax
  shared : ∀ share ∈ shares, IsShare f share

variable {Pt} {threshold : Nat} {shareMax : UInt32} {f : Scalar[X]} {shares : List SecretShare}

/-- Enough of the shares of a sharing give its secret. -/
theorem Sharing.derive {subset : List SecretShare} (sharing : Sharing threshold shareMax f shares)
    (nodup : subset.Nodup) (within : subset ⊆ shares) (enough : threshold ≤ subset.length) :
    deriveSharesSecret subset = .ok (scalarToBytes (f.eval 0)) := by
  apply deriveSharesSecret_eq (fun share member => sharing.shared share (within member)) nodup
  exact lt_of_lt_of_le sharing.small (by exact_mod_cast enough)

/-- What `create_shares` makes is a sharing of the first coefficient. -/
theorem sharing_createShares (coeffs : List Scalar) (shareMax : UInt32) :
    Sharing coeffs.length shareMax (listPolynomial coeffs)
      ((shareIndices shareMax).map (shareAt coeffs)) := by
  refine ⟨degree_listPolynomial coeffs, ?_, ?_⟩
  · intro share member
    obtain ⟨idx, inside, rfl⟩ := List.mem_map.mp member
    exact inside
  · intro share member
    obtain ⟨idx, _, rfl⟩ := List.mem_map.mp member
    exact isShare_shareAt coeffs idx

/-! ## One refresher -/

section Refreshers

variable (refresher : Refresher)

theorem Refresher.eval_zero : (refresher.polynomial threshold).eval 0 = 0 := by
  rw [polynomial, eval_listPolynomial, horner_zero]
  rfl

theorem Refresher.degree_lt (positive : 0 < threshold) :
    (refresher.polynomial threshold).degree < threshold := by
  apply lt_of_lt_of_le (degree_listPolynomial _)
  rw [List.length_cons, coeffs, createShareCoeffs_length]
  exact_mod_cast (by omega : threshold - 1 + 1 ≤ threshold)

theorem genRefreshShares_commits (positive : 0 < threshold) :
    genRefreshShares Pt refresher.index threshold shareMax refresher.secrets refresher.random = do
      let commits ← getShareCommits Pt (refresher.coeffs threshold)
      return ⟨refresher.index, commits,
        (shareIndices shareMax).map (shareAt (0 :: refresher.coeffs threshold))⟩ := by
  have less : checkedSub threshold 1 = .ok (threshold - 1) := by
    rw [checkedSub, if_neg (by omega)]
  unfold genRefreshShares
  rw [less, ok_bind]
  dsimp only
  rw [createShares_eq, ok_bind]
  rfl

end Refreshers

/-! ## One round -/

section Round

variable {refreshers : List Refresher}

/-- The sum of what the refreshers deal out. -/
noncomputable def roundPolynomial (threshold : Nat) (refreshers : List Refresher) : Scalar[X] :=
  (refreshers.map fun r => r.polynomial threshold).sum

theorem roundPolynomial_eval_zero : (roundPolynomial threshold refreshers).eval 0 = 0 := by
  induction refreshers with
  | nil => simp [roundPolynomial]
  | cons r refreshers ih =>
    rw [roundPolynomial, List.map_cons, List.sum_cons, eval_add, r.eval_zero, zero_add]
    exact ih

theorem eval_roundPolynomial (x : Scalar) :
    (roundPolynomial threshold refreshers).eval x =
      (refreshers.map fun r => horner (0 :: r.coeffs threshold) x).sum := by
  induction refreshers with
  | nil => simp [roundPolynomial]
  | cons r refreshers ih =>
    rw [roundPolynomial, List.map_cons, List.sum_cons, eval_add, List.map_cons, List.sum_cons, ← ih,
      Refresher.polynomial, eval_listPolynomial]
    rfl

theorem roundPolynomial_degree (positive : 0 < threshold) :
    (roundPolynomial threshold refreshers).degree < threshold := by
  induction refreshers with
  | nil =>
    rw [roundPolynomial, List.map_nil, List.sum_nil, degree_zero]
    exact WithBot.bot_lt_coe _
  | cons r refreshers ih =>
    rw [roundPolynomial, List.map_cons, List.sum_cons]
    exact lt_of_le_of_lt (degree_add_le _ _) (max_lt (r.degree_lt positive) ih)

/-- A share after the refreshers' shares for it are added. -/
noncomputable def refreshedShare (threshold : Nat) (refreshers : List Refresher) (share : SecretShare) :
    SecretShare where
  idx := share.idx
  seckey := scalarToBytes (scalarFromBytes share.seckey +
    (roundPolynomial threshold refreshers).eval (indexToScalar share.idx))

@[simp] theorem refreshedShare_idx (share : SecretShare) :
    (refreshedShare threshold refreshers share).idx = share.idx := by
  simp only [refreshedShare]

theorem refreshRound_eq (positive : 0 < threshold)
    (members : ∀ share ∈ shares, share.idx ∈ shareIndices shareMax)
    (nonzero : ∀ r ∈ refreshers, ∀ c ∈ r.coeffs threshold, c ≠ 0) :
    refreshRound Pt threshold shareMax shares refreshers =
      .ok (shares.map (refreshedShare threshold refreshers)) := by
  have dealt : ∀ r ∈ refreshers,
      genRefreshShares Pt r.index threshold shareMax r.secrets r.random =
        .ok ⟨r.index, (r.coeffs threshold).map fun c => encodePoint (scalarBaseMulti Pt c),
          (shareIndices shareMax).map (shareAt (0 :: r.coeffs threshold))⟩ := by
    intro r member
    rw [genRefreshShares_commits r positive, getShareCommits_eq (nonzero r member), ok_bind]
    rfl
  rw [refreshRound, mapM_ok dealt, ok_bind]
  apply mapM_ok
  intro share member
  have sent := @filterMap_addressedTo _ refreshers
    (fun r => ⟨r.index, (r.coeffs threshold).map fun c => encodePoint (scalarBaseMulti Pt c),
      (shareIndices shareMax).map (shareAt (0 :: r.coeffs threshold))⟩) _ _
    fun r _ => addressedTo_map (fun _ => rfl) (members share member)
  have added := @combineSet_eq share.idx (share ::
    refreshers.map fun r => shareAt (0 :: r.coeffs threshold) share.idx) (List.cons_ne_nil _ _)
    (by simp)
  rw [sent, refreshShare, added, refreshedShare, eval_roundPolynomial, List.map_cons, List.sum_cons,
    List.map_map]
  simp only [Function.comp_def, shareAt, scalarFromBytes_scalarToBytes]

/-- One round keeps a sharing of the same secret. -/
theorem Sharing.refreshed (positive : 0 < threshold) (sharing : Sharing threshold shareMax f shares) :
    Sharing threshold shareMax (f + roundPolynomial threshold refreshers)
      (shares.map (refreshedShare threshold refreshers)) := by
  refine ⟨?_, ?_, ?_⟩
  · exact lt_of_le_of_lt (degree_add_le _ _)
      (max_lt sharing.small (roundPolynomial_degree positive))
  · intro share member
    obtain ⟨before, inside, rfl⟩ := List.mem_map.mp member
    rw [refreshedShare_idx]
    exact sharing.members before inside
  · intro share member
    obtain ⟨before, inside, rfl⟩ := List.mem_map.mp member
    rw [IsShare, refreshedShare_idx, eval_add, ← (sharing.shared before inside).value, refreshedShare]

/-- No member of a round that got through has drawn a coefficient zero. -/
theorem refreshRound_ok {refreshed : List SecretShare} (positive : 0 < threshold)
    (done : refreshRound Pt threshold shareMax shares refreshers = .ok refreshed) :
    ∀ r ∈ refreshers, ∀ c ∈ r.coeffs threshold, c ≠ 0 := by
  intro r member
  obtain ⟨pkgs, dealt, _⟩ := bind_ok done
  obtain ⟨pkg, made⟩ := of_mapM_ok dealt r member
  rw [genRefreshShares_commits r positive] at made
  obtain ⟨commits, committed, _⟩ := bind_ok made
  exact getShareCommits_ok committed

end Round

/-! ## Any number of rounds -/

section Rounds

variable {rounds : List (List Refresher)}

/-- By induction over the rounds: they get through, and leave a sharing of the same
secret. -/
theorem refreshRounds_eq (positive : 0 < threshold) (sharing : Sharing threshold shareMax f shares)
    (nonzero : ∀ refreshers ∈ rounds, ∀ r ∈ refreshers, ∀ c ∈ r.coeffs threshold, c ≠ 0) :
    ∃ refreshed g, refreshRounds Pt threshold shareMax shares rounds = .ok refreshed ∧
      refreshed.map (·.idx) = shares.map (·.idx) ∧
      Sharing threshold shareMax g refreshed ∧ g.eval 0 = f.eval 0 := by
  induction rounds generalizing f shares with
  | nil => exact ⟨shares, f, rfl, rfl, sharing, rfl⟩
  | cons refreshers rounds ih =>
    rw [List.forall_mem_cons] at nonzero
    have next : Sharing threshold shareMax (f + roundPolynomial threshold refreshers)
        (shares.map (refreshedShare threshold refreshers)) := sharing.refreshed positive
    obtain ⟨refreshed, g, done, indices, after, same⟩ := ih next nonzero.2
    refine ⟨refreshed, g, ?_, ?_, after, ?_⟩
    · rw [refreshRounds, List.foldlM_cons, refreshRound_eq positive sharing.members nonzero.1]
      exact done
    · rw [indices, List.map_map]
      simp only [Function.comp_def, refreshedShare_idx]
    · rw [same, eval_add, roundPolynomial_eval_zero, add_zero]

theorem refreshRounds_ok {refreshed : List SecretShare} (positive : 0 < threshold)
    (done : refreshRounds Pt threshold shareMax shares rounds = .ok refreshed) :
    ∀ refreshers ∈ rounds, ∀ r ∈ refreshers, ∀ c ∈ r.coeffs threshold, c ≠ 0 := by
  induction rounds generalizing shares with
  | nil => simp
  | cons refreshers rounds ih =>
    rw [refreshRounds, List.foldlM_cons] at done
    obtain ⟨next, first, rest⟩ := bind_ok done
    exact List.forall_mem_cons.mpr ⟨refreshRound_ok positive first, ih rest⟩

/-- The rounds get through exactly when nobody has to commit to zero, and then any `t` of
the shares they leave still give the secret. -/
theorem refresh_preserves_secret (positive : 0 < threshold)
    (sharing : Sharing threshold shareMax f shares) :
    ((∃ refreshed, refreshRounds Pt threshold shareMax shares rounds = .ok refreshed) ↔
      ∀ refreshers ∈ rounds, ∀ r ∈ refreshers, ∀ c ∈ r.coeffs threshold, c ≠ 0) ∧
    ∀ refreshed, refreshRounds Pt threshold shareMax shares rounds = .ok refreshed →
      refreshed.map (·.idx) = shares.map (·.idx) ∧
      ∀ subset : List SecretShare, subset.Nodup → subset ⊆ refreshed → threshold ≤ subset.length →
        deriveSharesSecret subset = .ok (scalarToBytes (f.eval 0)) := by
  refine ⟨⟨?_, ?_⟩, ?_⟩
  · rintro ⟨refreshed, done⟩
    exact refreshRounds_ok positive done
  · intro nonzero
    obtain ⟨refreshed, _, done, _⟩ := @refreshRounds_eq Pt _ _ _ _ _ _ _ _ positive sharing nonzero
    exact ⟨refreshed, done⟩
  · intro refreshed done
    obtain ⟨_, g, same, indices, after, secret⟩ :=
      @refreshRounds_eq Pt _ _ _ _ _ _ _ _ positive sharing (refreshRounds_ok positive done)
    cases done.symm.trans same
    refine ⟨indices, ?_⟩
    intro subset nodup within enough
    rw [after.derive nodup within enough, secret]

/-- Two rounds with two refreshers and one, over the shares of `5 + x`: the last two shares
of three still give 5. -/
theorem refresh_preserves_secret_twice :
    ∃ refreshed,
      refreshRounds Scalar 2 3 ((shareIndices 3).map (shareAt [5, 1]))
        [[⟨1, [Bytes.ofNat 32 1], fun _ => Bytes.ofNat 32 0⟩,
          ⟨2, [], fun _ => Bytes.ofNat 32 7⟩], [⟨3, [Bytes.ofNat 32 2], fun _ => Bytes.ofNat 32 0⟩]] =
        .ok refreshed ∧
      deriveSharesSecret (refreshed.drop 1) = .ok (scalarToBytes 5) := by
  have sharing : Sharing 2 3 (listPolynomial [5, 1]) ((shareIndices 3).map (shareAt [5, 1])) :=
    sharing_createShares [5, 1] 3
  obtain ⟨through, kept⟩ := @refresh_preserves_secret Scalar _ _ _ 2 3 _ _
    [[⟨1, [Bytes.ofNat 32 1], fun _ => Bytes.ofNat 32 0⟩,
      ⟨2, [], fun _ => Bytes.ofNat 32 7⟩], [⟨3, [Bytes.ofNat 32 2], fun _ => Bytes.ofNat 32 0⟩]]
    (by decide) sharing
  have first : Refresher.coeffs ⟨1, [Bytes.ofNat 32 1], fun _ => Bytes.ofNat 32 0⟩ 2 = [1] := by
    decide +kernel
  have second : Refresher.coeffs ⟨2, [], fun _ => Bytes.ofNat 32 7⟩ 2 = [7] := by decide +kernel
  have third : Refresher.coeffs ⟨3, [Bytes.ofNat 32 2], fun _ => Bytes.ofNat 32 0⟩ 2 = [2] := by
    decide +kernel
  obtain ⟨refreshed, done⟩ := through.mpr (by
    simp only [List.forall_mem_cons, List.not_mem_nil, false_implies, implies_true, and_true,
      first, second, third]
    decide +kernel)
  obtain ⟨indices, secret⟩ := kept refreshed done
  have numbers : refreshed.map (·.idx) = [1, 2, 3] := by
    rw [indices, List.map_map]
    exact (List.map_id _).trans (by decide +kernel)
  have nodup : refreshed.Nodup := List.Nodup.of_map (·.idx) (by rw [numbers]; decide)
  have count : refreshed.length = 3 := by simpa using congrArg List.length numbers
  have enough : 2 ≤ (refreshed.drop 1).length := by rw [List.length_drop, count]
  refine ⟨refreshed, done, ?_⟩
  rw [secret _ (nodup.sublist (List.drop_sublist 1 _)) (List.drop_subset 1 _) enough,
    eval_listPolynomial, horner_zero]
  rfl

/-- A refresher whose only coefficient is zero deals out nothing. -/
theorem refresh_stops_at_zero :
    ¬ ∃ refreshed, refreshRounds Scalar 2 3 ((shareIndices 3).map (shareAt [5, 1]))
      [[⟨1, [Bytes.ofNat 32 0], fun _ => Bytes.ofNat 32 0⟩]] = .ok refreshed := by
  rintro ⟨refreshed, done⟩
  have drawn : Refresher.coeffs ⟨1, [Bytes.ofNat 32 0], fun _ => Bytes.ofNat 32 0⟩ 2 = [0] := by
    decide +kernel
  refine refreshRounds_ok (by decide) done _ List.mem_cons_self _ List.mem_cons_self 0 ?_ rfl
  rw [drawn]
  exact List.mem_cons_self

end Rounds

end Refresh

end Pomade.Frost
