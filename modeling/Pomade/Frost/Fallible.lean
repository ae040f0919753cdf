import Pomade.Frost.Dkg
import Pomade.Frost.Recovery

/-! # Functions that return an error value

`verify_share`, `combine_set`, `merge_shares`, `create_dealer_set`, `gen_recovery_shares`,
`gen_refresh_shares` and `dkg_finalize` return a `Result`, and some inputs make them panic all
the same: a threshold that a list is too short for, a threshold of zero, a scalar of zero that
is committed to, and points that cancel each other.
-/

namespace Pomade.Frost

open Pomade.Lib

/-! ## Loops -/

section Loops

variable {α β : Type}

/-- The list has an element with the second property after elements with the first one. -/
def FirstWith (passed stops : α → Prop) (l : List α) : Prop :=
  ∃ earlier a later, l = earlier ++ a :: later ∧ (∀ b ∈ earlier, passed b) ∧ stops a

theorem not_firstWith_nil {passed stops : α → Prop} : ¬ FirstWith passed stops [] := by
  intro ⟨earlier, a, later, split, _⟩
  simp at split

theorem firstWith_cons {passed stops : α → Prop} {a : α} {l : List α} :
    FirstWith passed stops (a :: l) ↔ stops a ∨ passed a ∧ FirstWith passed stops l := by
  constructor
  · intro ⟨earlier, b, later, split, before, stop⟩
    cases earlier with
    | nil =>
      cases split
      exact .inl stop
    | cons c earlier =>
      cases split
      rw [List.forall_mem_cons] at before
      exact .inr ⟨before.1, earlier, b, later, rfl, before.2, stop⟩
  · intro first
    cases first with
    | inl stop => exact ⟨[], a, l, rfl, by simp, stop⟩
    | inr rest =>
      obtain ⟨pass, earlier, b, later, rfl, before, stop⟩ := rest
      exact ⟨a :: earlier, b, later, rfl, List.forall_mem_cons.mpr ⟨pass, before⟩, stop⟩

/-- The same by positions. -/
theorem firstWith_iff_getElem {passed stops : α → Prop} {l : List α} :
    FirstWith passed stops l ↔
      ∃ (j : Nat) (a : α), l[j]? = some a ∧ stops a ∧ ∀ i < j, ∀ b, l[i]? = some b → passed b := by
  constructor
  · intro ⟨earlier, a, later, split, before, stop⟩
    refine ⟨earlier.length, a, by simp [split], stop, fun i less b found => before b ?_⟩
    rw [split, List.getElem?_append_left less] at found
    exact List.mem_of_getElem? found
  · intro ⟨j, a, found, stop, before⟩
    obtain ⟨inside, same⟩ := List.getElem?_eq_some_iff.mp found
    refine ⟨l.take j, a, l.drop (j + 1), ?_, fun b member => ?_, stop⟩
    · rw [← same, List.getElem_cons_drop, List.take_append_drop]
    · obtain ⟨i, less, here⟩ := List.mem_take_iff_getElem.mp member
      have inside' : i < l.length := by omega
      exact before i (by omega) b (by rw [List.getElem?_eq_getElem inside', here])

/-- A loop panics in a round after rounds that got through. -/
theorem panics_mapM {f : α → Result β} {l : List α} :
    Panics (l.mapM f) ↔ FirstWith (fun a => ∃ b, f a = .ok b) (fun a => Panics (f a)) l := by
  induction l with
  | nil => simp [not_firstWith_nil]
  | cons a l ih =>
    rw [List.mapM_cons, panics_bind, firstWith_cons, ← ih]
    refine or_congr_right ?_
    rw [← exists_and_right]
    refine exists_congr fun b => and_congr_right fun _ => ?_
    rw [panics_bind]
    simp

theorem panics_forM {f : α → Result Unit} {l : List α} :
    Panics (forM l f) ↔ FirstWith (fun a => f a = .ok ()) (fun a => Panics (f a)) l := by
  induction l with
  | nil => simp [not_firstWith_nil]
  | cons a l ih =>
    have passed : (∃ done, f a = .ok done) ↔ f a = .ok () :=
      ⟨fun ⟨_, same⟩ => same, fun same => ⟨(), same⟩⟩
    rw [List.forM_cons, panics_bind, firstWith_cons, ← ih, ← passed, exists_and_right]

theorem forM_ok {f : α → Result Unit} {l : List α} :
    forM l f = .ok () ↔ ∀ a ∈ l, f a = .ok () := by
  induction l with
  | nil => simp [pure, Except.pure]
  | cons a l ih =>
    rw [List.forM_cons, List.forall_mem_cons, ← ih]
    cases f a with
    | error fault => simp
    | ok done => simp

theorem panics_forM_bind {f : α → Result Unit} {l : List α} {rest : Unit → Result β} :
    Panics (forM l f >>= rest) ↔
      FirstWith (fun a => f a = .ok ()) (fun a => Panics (f a)) l ∨
        (∀ a ∈ l, f a = .ok ()) ∧ Panics (rest ()) := by
  rw [panics_bind, panics_forM, ← forM_ok]
  refine or_congr_right ⟨fun ⟨_, done, panics⟩ => ⟨done, panics⟩, fun ⟨done, panics⟩ => ?_⟩
  exact ⟨(), done, panics⟩

theorem not_panics_assertOk (value : Bool) (message : String) : ¬ Panics (assertOk value message) := by
  cases value
  · exact not_panics_err _
  · exact not_panics_ok _

theorem panics_assertOk_bind {value : Bool} {message : String} {f : Unit → Result α} :
    Panics (assertOk value message >>= f) ↔ value = true ∧ Panics (f ()) := by
  cases value
  · simp [assertOk]
  · simp [assertOk]

theorem panics_calcLagrangeCoeff_bind {l : List Scalar} {p x : Scalar} {f : Scalar → Result α} :
    Panics (calcLagrangeCoeff l p x >>= f) ↔ l.Nodup ∧ Panics (f (weight l p x)) := by
  rw [panics_bind_of_not (not_panics_calcLagrangeCoeff _ _ _)]
  simp only [calcLagrangeCoeff_ok, and_assoc, exists_and_left, exists_eq_left]

theorem panics_checkedSub_bind {a b : Nat} {f : Nat → Result α} :
    Panics (checkedSub a b >>= f) ↔ a < b ∨ b ≤ a ∧ Panics (f (a - b)) := by
  rw [checkedSub]
  by_cases less : a < b
  · simp [less]
  · simp [less, not_lt.mp less]

end Loops

/-! ## Combining shares -/

section Shares

theorem panics_combineSet {shares : List SecretShare} : Panics (combineSet shares) ↔ shares = [] := by
  have equal := not_panics_assertOk (allEqual (shares.map (·.idx))) "set does not have equal items"
  rw [combineSet.eq_def, isEqualSet, panics_bind_of_not equal]
  cases shares with
  | nil =>
    refine ⟨fun _ => rfl, fun _ => ⟨(), rfl, panics_panic _⟩⟩
  | cons first rest => simp

/-- The two shares that are combined are there. -/
theorem not_panics_mergeShares (sharesA sharesB : List SecretShare) :
    ¬ Panics (mergeShares sharesA sharesB) := by
  refine not_panics_bind (not_panics_assertOk _ _) fun _ _ => ?_
  rw [panics_mapM]
  intro ⟨_, curr, _, _, _, panics⟩
  dsimp only at panics
  cases found : sharesB.find? fun s => s.idx == curr.idx with
  | none =>
    rw [found] at panics
    exact not_panics_throw _ panics
  | some aux =>
    rw [found, panics_combineSet] at panics
    cases panics

end Shares

/-! ## Committing to scalars -/

section Commits

variable (Pt : Type) [AddCommGroup Pt] [Module Scalar Pt] [Curve Pt]

theorem panics_getShareCommits {coeffs : List Scalar} :
    Panics (getShareCommits Pt coeffs) ↔ 0 ∈ coeffs := by
  have zero : ∀ c : Scalar, Panics (serializePoint (scalarBaseMulti Pt c)) ↔ c = 0 := by
    intro c
    rw [panics_serializePoint, scalarBaseMulti_eq_zero]
  rw [getShareCommits, panics_mapM]
  simp only [zero]
  constructor
  · intro ⟨earlier, c, later, split, _, same⟩
    rw [split, same]
    simp
  · intro listed
    -- Before the first zero every scalar has an encoding.
    obtain ⟨earlier, later, split, first⟩ := List.eq_append_cons_of_mem listed
    refine ⟨earlier, 0, later, split, fun c member => ?_, rfl⟩
    have nonzero : c ≠ 0 := fun zero => first (zero ▸ member)
    exact ⟨_, serializePoint_eq (scalarBaseMulti_ne_zero nonzero)⟩

variable {shareMax idx target : UInt32} {threshold : Nat} {secrets : List (Bytes 32)}
variable {random : Nat → Bytes 32}

theorem panics_createShareSet :
    Panics (createShareSet Pt threshold shareMax secrets random) ↔
      0 ∈ createShareCoeffs secrets threshold random := by
  rw [createShareSet, createShares_eq, ok_bind, panics_bind, panics_getShareCommits]
  simp

/-- A dealer set is made unless there is no coefficient, or one is zero. -/
theorem panics_createDealerSet :
    Panics (createDealerSet Pt threshold shareMax secrets random) ↔
      threshold = 0 ∨ 0 ∈ createShareCoeffs secrets threshold random := by
  by_cases listed : 0 ∈ createShareCoeffs secrets threshold random
  · rw [createDealerSet.eq_def, panics_bind, panics_createShareSet]
    simp [listed]
  · have nonzero : ∀ c ∈ createShareCoeffs secrets threshold random, c ≠ 0 :=
      fun c member zero => listed (zero ▸ member)
    have none : threshold = 0 ↔ createShareCoeffs secrets threshold random = [] := by
      rw [← List.length_eq_zero_iff, createShareCoeffs_length]
    rw [createDealerSet.eq_def, createShareSet, createShares_eq, ok_bind, getShareCommits_eq nonzero,
      none]
    cases coeffs : createShareCoeffs secrets threshold random with
    | nil =>
      refine ⟨fun _ => .inl rfl, fun _ => panics_panic _⟩
    | cons c rest =>
      rw [coeffs] at listed
      refine ⟨fun panics => absurd panics (not_panics_pure _), fun impossible => ?_⟩
      cases impossible with
      | inl empty => cases empty
      | inr zero => exact absurd zero listed

/-- Refresh shares are made unless the threshold is zero or a coefficient is. -/
theorem panics_genRefreshShares :
    Panics (genRefreshShares Pt idx threshold shareMax secrets random) ↔
      threshold = 0 ∨ 0 ∈ createShareCoeffs secrets (threshold - 1) random := by
  rw [genRefreshShares, panics_checkedSub_bind]
  dsimp only
  rw [createShares_eq, ok_bind, panics_bind, panics_getShareCommits]
  simp only [not_panics_pure, and_false, exists_false, or_false]
  by_cases none : threshold = 0
  · simp [none]
  · have positive : ¬ threshold < 1 ∧ 1 ≤ threshold := by omega
    simp [none, positive]

/-! ## Recovery shares -/

/-- Recovery shares are computed: there are as many members as the threshold says, the others
are distinct, and the target is not among them. -/
def Recoverable (members : List UInt32) (idx target : UInt32) (threshold : Nat) : Prop :=
  members.length = threshold ∧ (members.filter fun i => decide (i ≠ idx)).Nodup ∧
    ¬ (target ∈ members ∧ target ≠ idx)

/-- With nobody to recover with, or a zero among the scalars that are committed to, the
computation panics. -/
theorem panics_genRecoveryShares {members : List UInt32} {share : SecretShare} :
    Panics (genRecoveryShares Pt members share target threshold secrets random) ↔
      Recoverable members share.idx target threshold ∧
        (threshold = 0 ∨ 0 ∈ repairPieces members target share
          (createShareCoeffs secrets (threshold - 1) random)) := by
  let places := ((members.insertionSort fun a b => a ≤ b).filter fun i =>
    decide (i ≠ share.idx)).map indexToScalar
  have listed : places.Nodup ↔ (members.filter fun i => decide (i ≠ share.idx)).Nodup := by
    have arranged := (List.perm_insertionSort (fun a b : UInt32 => a ≤ b) members).filter
      fun i => decide (i ≠ share.idx)
    rw [List.nodup_map_iff indexToScalar_injective, arranged.nodup_iff]
  have coefficient : weight places (indexToScalar share.idx) (indexToScalar target) =
      weight (members.map indexToScalar) (indexToScalar share.idx) (indexToScalar target) :=
    weight_sorted (List.Perm.refl members)
  have vanishes : weight places (indexToScalar share.idx) (indexToScalar target) = 0 ↔
      target ∈ members ∧ target ≠ share.idx := by
    rw [coefficient, weight_eq_zero_iff, mem_others, List.mem_map_of_injective indexToScalar_injective,
      indexToScalar_injective.ne_iff]
  have folded : ∀ l : List Scalar, l.foldl (· + ·) 0 = l.sum := fun _ => List.sum_eq_foldl.symm
  rw [genRecoveryShares, Recoverable, ← listed, ← vanishes, panics_assertOk_bind,
    panics_assertOk_bind]
  dsimp only
  rw [panics_calcLagrangeCoeff_bind, panics_assertOk_bind, panics_checkedSub_bind, folded,
    panics_bind, panics_getShareCommits, repairPieces, ← coefficient]
  simp only [not_panics_pure, and_false, exists_false, or_false, decide_eq_true_eq, Nat.lt_one_iff]
  constructor
  · intro ⟨_, equal, nodup, nonzero, rest⟩
    refine ⟨⟨equal, nodup, nonzero⟩, ?_⟩
    cases rest with
    | inl none => exact .inl none
    | inr zero => exact .inr zero.2
  · intro ⟨⟨equal, nodup, nonzero⟩, rest⟩
    refine ⟨equal.ge, equal, nodup, nonzero, ?_⟩
    cases rest with
    | inl none => exact .inl none
    | inr zero =>
      by_cases none : threshold = 0
      · exact .inl none
      · exact .inr ⟨Nat.pos_of_ne_zero none, zero⟩

/-! ## Verifying shares -/

/-- Every commitment is the encoding of a point. -/
def Decodable (commits : List (Bytes 33)) : Prop := ∀ c ∈ commits, ∃ P : Pt, liftX c.data = .ok P

variable {Pt} {commits : List (Bytes 33)} {sIp : Option Pt}

theorem Decodable.decoded (decodable : Decodable Pt commits) :
    ∃ points : List Pt, Decoded commits commits.length points := by
  obtain ⟨points, done⟩ := exists_mapM_ok decodable
  exact ⟨points, le_refl _, by rwa [List.take_length]⟩

theorem panics_addCommit {j : Nat} :
    Panics (addCommit Pt commits idx sIp j) ↔ commits.length ≤ j := by
  rw [addCommit, itemAt]
  cases found : commits[j]? with
  | none =>
    rw [List.getElem?_eq_none_iff] at found
    simp [found]
  | some c =>
    have inside : j < commits.length := (List.getElem?_eq_some_iff.mp found).1
    refine ⟨fun panics => ?_, fun outside => absurd inside (not_lt.mpr outside)⟩
    rw [ok_bind, panics_bind_of_not (not_panics_liftX _)] at panics
    obtain ⟨P, _, panics⟩ := panics
    cases sIp with
    | none => exact absurd panics (not_panics_pure _)
    | some acc => exact absurd panics (not_panics_pure _)

/-- What the loop has gone through is there and has been decoded. -/
theorem decodable_of_addCommits {t : Nat} {out : Option Pt}
    (done : (List.range t).foldlM (addCommit Pt commits idx) none = .ok out) :
    t ≤ commits.length ∧ Decodable Pt (commits.take t) := by
  induction t generalizing out with
  | zero => simp [Decodable]
  | succ t ih =>
    rw [List.range_succ, List.foldlM_append] at done
    obtain ⟨acc, before, round⟩ := bind_ok done
    obtain ⟨_, earlier⟩ := ih before
    obtain ⟨_, round, _⟩ := bind_ok round
    rw [addCommit] at round
    obtain ⟨c, read, round⟩ := bind_ok round
    obtain ⟨P, lifted, _⟩ := bind_ok round
    rw [itemAt] at read
    cases found : commits[t]? with
    | none =>
      rw [found] at read
      cases read
    | some c' =>
      rw [found] at read
      cases read
      obtain ⟨inside, same⟩ := List.getElem?_eq_some_iff.mp found
      refine ⟨inside, ?_⟩
      rw [Decodable, List.take_succ_eq_append_getElem inside, List.forall_mem_append]
      exact ⟨earlier, by simpa [same] using ⟨P, lifted⟩⟩

theorem panics_addCommits {t : Nat} :
    Panics ((List.range t).foldlM (addCommit Pt commits idx) none) ↔
      commits.length < t ∧ Decodable Pt commits := by
  induction t with
  | zero => simp
  | succ t ih =>
    rw [List.range_succ, List.foldlM_append, panics_bind, ih]
    have round : ∀ acc, Panics ([t].foldlM (addCommit Pt commits idx) acc) ↔ commits.length ≤ t := by
      intro acc
      rw [List.foldlM_cons, panics_bind, panics_addCommit]
      simp
    simp only [round]
    constructor
    · intro panics
      cases panics with
      | inl before => exact ⟨by omega, before.2⟩
      | inr last =>
        -- The loop went through all commitments, and no further.
        obtain ⟨acc, done, short⟩ := last
        obtain ⟨long, decodable⟩ := decodable_of_addCommits done
        rw [List.take_of_length_le short] at decodable
        exact ⟨by omega, decodable⟩
    · intro ⟨short, decodable⟩
      by_cases before : commits.length < t
      · exact .inl ⟨before, decodable⟩
      · have whole : t = commits.length := by omega
        obtain ⟨points, decoded⟩ := decodable.decoded
        rw [whole]
        exact .inr ⟨_, foldlM_addCommit decoded idx, le_refl _⟩

/-- The commitments are read up to the threshold, however many there are. -/
theorem panics_verifyShare {share : SecretShare} :
    Panics (verifyShare Pt commits share threshold) ↔
      commits.length < threshold ∧ Decodable Pt commits := by
  rw [verifyShare, panics_bind_of_rest, panics_addCommits]
  intro sum _
  cases sum with
  | none => exact not_panics_throw _
  | some P => exact not_panics_pure _

end Commits

end Pomade.Frost
