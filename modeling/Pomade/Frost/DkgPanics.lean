import Pomade.Frost.Fallible

/-! # Where key generation panics

`dkg_finalize` runs on what the other participants sent.  It panics on a proof of possession with
a response of zero, on a commitment list that is shorter than the threshold, and where the
points that it adds up cancel each other; and nowhere else.
-/

namespace Pomade.Frost

open Pomade.Lib

section Dkg

variable {Pt : Type} [AddCommGroup Pt] [Module Scalar Pt] [Curve Pt]

/-! ## Proofs of possession -/

section Pop

variable [Sha2] {c : DkgCommitPackage}

/-- The nonce and the first commitment of a package are the encodings of `R` and `C`. -/
structure PopPoints (c : DkgCommitPackage) (c0 : Bytes 33) (R C : Pt) : Prop where
  head : c.vssCommits.head? = some c0
  nonce : liftX c.pop.r.data = .ok R
  commit : liftX c0.data = .ok C

variable (Pt) in
/-- The proof verifies, and has a response other than zero. -/
def PopHolds (c : DkgCommitPackage) : Prop :=
  ∃ c0, ∃ R C : Pt, PopPoints c c0 R C ∧ scalarFromBytes c.pop.z ≠ 0 ∧
    scalarBaseMulti Pt (scalarFromBytes c.pop.z) = R + dkgPopChallenge c.idx c0 c.pop.r • C

variable (Pt) in
/-- The response is zero, or the nonce cancels the commitment. -/
def PopCancels (c : DkgCommitPackage) : Prop :=
  ∃ c0, ∃ R C : Pt, PopPoints c c0 R C ∧
    (scalarFromBytes c.pop.z = 0 ∨ R + dkgPopChallenge c.idx c0 c.pop.r • C = 0)

omit [AddCommGroup Pt] [Module Scalar Pt] [Curve Pt] [Sha2] in
theorem ite_throw_ok {value : Bool} {e : Error} :
    (if !value then throw (.err e) else pure () : Result Unit) = .ok () ↔ value = true := by
  cases value
  · simp [throw, throwThe, MonadExceptOf.throw]
  · simp [pure, Except.pure]

omit [AddCommGroup Pt] [Module Scalar Pt] [Curve Pt] [Sha2] in
theorem not_panics_ite_throw {value : Bool} {e : Error} :
    ¬ Panics (if !value then throw (.err e) else pure () : Result Unit) := by
  cases value
  · exact not_panics_throw _
  · exact not_panics_pure _

omit [Sha2] in
theorem encodePoint_injective {P Q : Pt} (finite : P ≠ 0) (finite' : Q ≠ 0)
    (same : encodePoint P = encodePoint Q) : P = Q := by
  have lifted : (liftX (encodePoint P).data : Result Pt) = .ok P := liftX_encodePoint finite
  rw [same, liftX_encodePoint finite'] at lifted
  cases lifted
  rfl

/-- Both sides of the equation are serialized. -/
theorem verifyDkgPop_points {c0 : Bytes 33} {R C : Pt} (points : PopPoints c c0 R C) :
    verifyDkgPop Pt c.idx c0 c.pop = do
      let lhs ← serializePoint (scalarBaseMulti Pt (scalarFromBytes c.pop.z))
      let rhs ← serializePoint (R + dkgPopChallenge c.idx c0 c.pop.r • C)
      return decide (lhs = rhs) := by
  rw [verifyDkgPop, points.nonce, ok_bind, points.commit, ok_bind]
  rfl

/-- A proof that was checked consists of encodings of points. -/
theorem popPoints_of_done {c0 : Bytes 33} (head : c.vssCommits.head? = some c0) {value : Bool}
    (done : verifyDkgPop Pt c.idx c0 c.pop = .ok value) : ∃ R C : Pt, PopPoints c c0 R C := by
  rw [verifyDkgPop] at done
  obtain ⟨R, nonce, done⟩ := bind_ok done
  obtain ⟨C, commit, _⟩ := bind_ok done
  exact ⟨R, C, head, nonce, commit⟩

theorem panics_checkDkgPop : Panics (checkDkgPop Pt c) ↔ PopCancels Pt c := by
  rw [checkDkgPop, PopCancels]
  cases head : c.vssCommits.head? with
  | none =>
    refine ⟨fun panics => absurd panics (not_panics_throw _), ?_⟩
    rintro ⟨c0, R, C, points, _⟩
    rw [points.head] at head
    cases head
  | some c0 =>
    dsimp only
    rw [panics_bind_of_rest fun _ _ => not_panics_ite_throw]
    constructor
    · intro panics
      rw [verifyDkgPop, panics_bind_of_not (not_panics_liftX _)] at panics
      obtain ⟨R, nonce, panics⟩ := panics
      rw [panics_bind_of_not (not_panics_liftX _)] at panics
      obtain ⟨C, commit, panics⟩ := panics
      refine ⟨c0, R, C, ⟨head, nonce, commit⟩, ?_⟩
      dsimp only at panics
      rw [elementAdd, ok_bind, panics_bind, panics_serializePoint, scalarBaseMulti_eq_zero] at panics
      refine panics.imp_right ?_
      rintro ⟨_, _, panics⟩
      rw [panics_bind_of_rest fun _ _ => not_panics_pure _, panics_serializePoint] at panics
      exact panics
    · rintro ⟨c0', R, C, points, cancels⟩
      have same := points.head
      rw [head] at same
      cases same
      rw [verifyDkgPop_points points, panics_bind, panics_serializePoint, scalarBaseMulti_eq_zero]
      by_cases zero : scalarFromBytes c.pop.z = 0
      · exact .inl zero
      · refine .inr ⟨_, serializePoint_eq (scalarBaseMulti_ne_zero zero), ?_⟩
        rw [panics_bind, panics_serializePoint]
        exact .inl (cancels.resolve_left zero)

theorem checkDkgPop_ok : checkDkgPop Pt c = .ok () ↔ PopHolds Pt c := by
  rw [checkDkgPop, PopHolds]
  cases head : c.vssCommits.head? with
  | none =>
    constructor
    · intro done
      cases done
    · intro ⟨c0, R, C, points, _⟩
      rw [points.head] at head
      cases head
  | some c0 =>
    dsimp only
    constructor
    · intro done
      obtain ⟨value, verified, done⟩ := bind_ok done
      rw [ite_throw_ok] at done
      obtain ⟨R, C, points⟩ := popPoints_of_done head verified
      rw [verifyDkgPop_points points, done] at verified
      obtain ⟨lhs, left, verified⟩ := bind_ok verified
      obtain ⟨rhs, right, verified⟩ := bind_ok verified
      have finite := serializePoint_ok left
      have finite' := serializePoint_ok right
      rw [serializePoint_eq finite] at left
      rw [serializePoint_eq finite'] at right
      cases left
      cases right
      refine ⟨c0, R, C, points, scalarBaseMulti_eq_zero.not.mp finite, ?_⟩
      exact encodePoint_injective finite finite' (of_decide_eq_true (Except.ok.inj verified))
    · intro ⟨c0', R, C, points, nonzero, equation⟩
      have same := points.head
      rw [head] at same
      cases same
      have finite : scalarBaseMulti Pt (scalarFromBytes c.pop.z) ≠ 0 := scalarBaseMulti_ne_zero nonzero
      rw [verifyDkgPop_points points, ← equation, serializePoint_eq finite, ok_bind, ok_bind,
        decide_eq_true rfl]
      rfl

end Pop

/-! ## Shares -/

section Shares

variable {allCommits : List DkgCommitPackage} {threshold : Nat} {pkg : DkgSharePackage}

variable (Pt) in
/-- The share is right by the commitments of its sender. -/
def ShareHolds (allCommits : List DkgCommitPackage) (threshold : Nat) (pkg : DkgSharePackage) : Prop :=
  ∃ sender, allCommits.find? (fun c => c.idx == pkg.senderIdx) = some sender ∧
    verifyDkgShare Pt pkg sender threshold = .ok true

variable (Pt) in
/-- The sender has made fewer commitments than the threshold says. -/
def ShareOverruns (allCommits : List DkgCommitPackage) (threshold : Nat) (pkg : DkgSharePackage) :
    Prop :=
  ∃ sender, allCommits.find? (fun c => c.idx == pkg.senderIdx) = some sender ∧
    sender.vssCommits.length < threshold ∧ Decodable Pt sender.vssCommits

theorem panics_checkDkgShare :
    Panics (checkDkgShare Pt allCommits threshold pkg) ↔ ShareOverruns Pt allCommits threshold pkg := by
  rw [checkDkgShare, ShareOverruns]
  cases allCommits.find? fun c => c.idx == pkg.senderIdx with
  | none => simp
  | some sender =>
    dsimp only
    rw [panics_bind_of_rest fun _ _ => not_panics_ite_throw, verifyDkgShare, panics_verifyShare]
    simp

theorem checkDkgShare_ok :
    checkDkgShare Pt allCommits threshold pkg = .ok () ↔ ShareHolds Pt allCommits threshold pkg := by
  rw [checkDkgShare, ShareHolds]
  cases allCommits.find? fun c => c.idx == pkg.senderIdx with
  | none => simp [throw, throwThe, MonadExceptOf.throw]
  | some sender =>
    simp only [Option.some.injEq, exists_eq_left']
    constructor
    · intro done
      obtain ⟨value, verified, done⟩ := bind_ok done
      rw [verified, ite_throw_ok.mp done]
    · intro verified
      rw [verified]
      rfl

end Shares

/-! ## Sums of commitments -/

section Sums

/-- A list of commitments encodes these points. -/
abbrev Encodes (commits : List (Bytes 33)) (points : List Pt) : Prop :=
  List.Forall₂ (fun c P => liftX c.data = .ok P) commits points

theorem foldlM_points {rest : List (Bytes 33)} {points : List Pt} (encodes : Encodes rest points)
    (acc : Pt) :
    rest.foldlM (fun acc p => do
      let point : Pt ← liftX p.data
      return acc + point) acc = .ok (acc + points.sum) := by
  induction encodes generalizing acc with
  | nil => simp [pure, Except.pure]
  | @cons c P rest points lifted _ ih =>
    rw [List.foldlM_cons, lifted, ok_bind]
    show List.foldlM _ (acc + P) rest = _
    rw [ih, List.sum_cons, add_assoc]

/-- First commitments that are decoded are added up; the sum is serialized. -/
theorem sumPoints_eq {commits : List (Bytes 33)} {points : List Pt} (encodes : Encodes commits points)
    (some_ : commits ≠ []) : sumPoints Pt commits = serializePoint points.sum := by
  cases encodes with
  | nil => exact absurd rfl some_
  | @cons c P rest points lifted encodes =>
    rw [sumPoints, lifted, ok_bind, foldlM_points encodes, ok_bind, List.sum_cons]

/-- The loop over the commitments with their positions is the loop over the positions. -/
theorem foldlM_addVssTerm (before rest : List (Bytes 33)) (idx : UInt32) (acc : Option Pt) :
    (rest.zipIdx before.length).foldlM (addVssTerm Pt idx) acc =
      (List.range' before.length rest.length).foldlM (addCommit Pt (before ++ rest) idx) acc := by
  induction rest generalizing before acc with
  | nil => rfl
  | cons c rest ih =>
    have read : itemAt (before ++ c :: rest) before.length = .ok c := by simp [itemAt]
    have round : addCommit Pt (before ++ c :: rest) idx acc before.length =
        addVssTerm Pt idx acc (c, before.length) := by
      rw [addCommit, read]
      rfl
    have next := ih (before ++ [c])
    simp only [List.length_append, List.length_singleton, List.append_assoc, List.singleton_append]
      at next
    rw [List.zipIdx_cons, List.length_cons, List.range'_succ, List.foldlM_cons, List.foldlM_cons, round]
    cases addVssTerm Pt idx acc (c, before.length) with
    | error fault => rfl
    | ok acc => exact next acc

/-- The public key of an index is serialized if all commitments are decoded. -/
theorem evalVssPubkey_eq {commits : List (Bytes 33)} {points : List Pt} (some_ : points ≠ [])
    (encodes : Encodes commits points) (idx : UInt32) :
    evalVssPubkey Pt commits idx = serializePoint (vssPoint idx points) := by
  have loop := foldlM_addVssTerm [] commits idx (none : Option Pt)
  rw [List.length_nil, List.nil_append, ← List.range_eq_range'] at loop
  have decoded : Decoded commits commits.length points := by
    refine ⟨le_refl _, ?_⟩
    rw [List.take_length]
    exact mapM_eq_ok_iff.mpr encodes
  have nonempty : ¬ commits.isEmpty = true := by
    intro empty
    rw [List.isEmpty_iff.mp empty] at encodes
    exact some_ (List.forall₂_nil_left_iff.mp encodes)
  rw [evalVssPubkey, if_neg nonempty, loop, foldlM_addCommit decoded, ok_bind, sumSoFar, if_neg some_]

/-- It is not computed if one of them is not. -/
theorem exists_encodes_of_panics {commits : List (Bytes 33)} {idx : UInt32}
    (panics : Panics (evalVssPubkey Pt commits idx)) : ∃ points : List Pt, Encodes commits points := by
  have loop := foldlM_addVssTerm [] commits idx (none : Option Pt)
  rw [List.length_nil, List.nil_append, ← List.range_eq_range'] at loop
  have calm : ¬ Panics (commits.zipIdx.foldlM (addVssTerm Pt idx) none) := by
    rw [loop, panics_addCommits]
    exact fun panics => lt_irrefl _ panics.1
  rw [evalVssPubkey] at panics
  by_cases empty : commits.isEmpty = true
  · rw [if_pos empty] at panics
    exact absurd panics (not_panics_throw _)
  rw [if_neg empty, panics_bind_of_not calm, loop] at panics
  obtain ⟨acc, done, _⟩ := panics
  obtain ⟨_, decodable⟩ := decodable_of_addCommits done
  rw [List.take_length] at decodable
  obtain ⟨points, decoded⟩ := decodable.decoded
  have encodes := mapM_eq_ok_iff.mp decoded.2
  rw [List.take_length] at encodes
  exact ⟨points, encodes⟩

end Sums

/-! ## Merging -/

section Merging

/-- The commitments of one participant. -/
abbrev Row : Type := List (Bytes 33)

variable {prev row next : Row} {rows : List Row}

variable (Pt) in
/-- The point that a row encodes at a position. -/
def rowPoint (row : Row) (j : Nat) : Option Pt :=
  row[j]?.bind fun c => (liftX c.data : Result Pt).toOption

variable (Pt) in
/-- The sum of what the rows encode at a position. -/
def columnSum (rows : List Row) (j : Nat) : Option Pt :=
  (rows.mapM fun row => rowPoint Pt row j).map List.sum

/-- The sum of what two rows encode at a position. -/
def pairSum (prev row : Row) (j : Nat) : Option Pt :=
  (rowPoint Pt prev j).bind fun P => (rowPoint Pt row j).map fun Q => P + Q

theorem columnSum_single (row : Row) (j : Nat) : columnSum Pt [row] j = rowPoint Pt row j := by
  rw [columnSum, List.mapM_cons, List.mapM_nil]
  cases rowPoint Pt row j with
  | none => rfl
  | some P => simp

theorem columnSum_concat (rows : List Row) (row : Row) (j : Nat) :
    columnSum Pt (rows ++ [row]) j =
      (columnSum Pt rows j).bind fun S => (rowPoint Pt row j).map fun Q => S + Q := by
  rw [columnSum, columnSum, List.mapM_append, List.mapM_cons, List.mapM_nil]
  cases rows.mapM fun row => rowPoint Pt row j with
  | none => rfl
  | some points =>
    cases rowPoint Pt row j with
    | none => rfl
    | some Q => simp

variable (Pt) in
/-- One round of the loop of `merge_share_commits`. -/
def mergePair (pair : Bytes 33 × Bytes 33) : Result (Bytes 33) := do
  let pa : Pt ← liftX pair.1.data
  let pb : Pt ← liftX pair.2.data
  serializePoint (pa + pb)

theorem mergePair_cases {a b : Bytes 33} {j : Nat} (left : prev[j]? = some a)
    (right : row[j]? = some b) :
    (Panics (mergePair Pt (a, b)) ↔ pairSum prev row j = some (0 : Pt)) ∧
    ∀ c, mergePair Pt (a, b) = .ok c ↔
      ∃ S : Pt, S ≠ 0 ∧ pairSum prev row j = some S ∧ c = encodePoint S := by
  have calmA : ¬ Panics (liftX a.data : Result Pt) := not_panics_liftX _
  have calmB : ¬ Panics (liftX b.data : Result Pt) := not_panics_liftX _
  rw [mergePair, pairSum, rowPoint, rowPoint, left, right, Option.bind_some, Option.bind_some]
  cases first : (liftX a.data : Result Pt) with
  | error fault =>
    rw [first] at calmA
    cases fault with
    | err e => simp [Except.toOption]
    | panic reason => exact absurd (panics_panic reason) calmA
  | ok P =>
    cases second : (liftX b.data : Result Pt) with
    | error fault =>
      rw [second] at calmB
      cases fault with
      | err e => simp [Except.toOption]
      | panic reason => exact absurd (panics_panic reason) calmB
    | ok Q =>
      simp only [ok_bind, Except.toOption, Option.bind_some, Option.map_some, Option.some.injEq,
        panics_serializePoint, true_and]
      intro c
      by_cases cancelled : P + Q = 0
      · rw [cancelled, serializePoint, if_pos ((Curve.isIdentity_iff (0 : Pt)).mpr rfl)]
        constructor
        · intro done
          cases done
        · rintro ⟨S, finite, zero, _⟩
          exact absurd zero.symm finite
      · rw [serializePoint_eq cancelled]
        constructor
        · intro done
          cases done
          exact ⟨_, cancelled, rfl, rfl⟩
        · rintro ⟨S, _, same, encoded⟩
          rw [encoded, ← same]

theorem rowPoint_isSome_length {j : Nat} {P : Pt} (found : rowPoint Pt row j = some P) :
    j < row.length := by
  rw [rowPoint] at found
  by_contra outside
  rw [List.getElem?_eq_none (not_lt.mp outside)] at found
  cases found

/-- Merging panics at the first sum that is the identity. -/
theorem panics_mergeShareCommits :
    Panics (mergeShareCommits Pt prev row) ↔ prev.length = row.length ∧
      ∃ j, pairSum prev row j = some (0 : Pt) ∧
        ∀ i < j, ∃ S : Pt, S ≠ 0 ∧ pairSum prev row i = some S := by
  rw [mergeShareCommits, equalArrSize, panics_assertOk_bind, decide_eq_true_eq]
  refine and_congr_right fun size => ?_
  show Panics ((prev.zip row).mapM (mergePair Pt)) ↔ _
  rw [panics_mapM, firstWith_iff_getElem]
  constructor
  · intro ⟨j, pair, found, panics, before⟩
    obtain ⟨left, right⟩ := List.getElem?_zip_eq_some.mp found
    refine ⟨j, (mergePair_cases left right).1.mp panics, fun i less => ?_⟩
    obtain ⟨inside, _⟩ := List.getElem?_eq_some_iff.mp left
    have here : i < prev.length := less.trans inside
    have there : i < row.length := size ▸ here
    have pairs : (prev.zip row)[i]? = some (prev[i], row[i]) :=
      List.getElem?_zip_eq_some.mpr ⟨List.getElem?_eq_getElem here, List.getElem?_eq_getElem there⟩
    obtain ⟨c, done⟩ := before i less _ pairs
    obtain ⟨S, finite, sum, _⟩ := ((mergePair_cases (List.getElem?_eq_getElem here)
      (List.getElem?_eq_getElem there)).2 c).mp done
    exact ⟨S, finite, sum⟩
  · intro ⟨j, zero, before⟩
    have here : j < prev.length := by
      rw [pairSum] at zero
      obtain ⟨P, found, _⟩ := Option.bind_eq_some_iff.mp zero
      exact rowPoint_isSome_length found
    have there : j < row.length := size ▸ here
    refine ⟨j, (prev[j], row[j]), ?_, ?_, fun i less pair found => ?_⟩
    · exact List.getElem?_zip_eq_some.mpr
        ⟨List.getElem?_eq_getElem here, List.getElem?_eq_getElem there⟩
    · exact (mergePair_cases (List.getElem?_eq_getElem here)
        (List.getElem?_eq_getElem there)).1.mpr zero
    · obtain ⟨left, right⟩ := List.getElem?_zip_eq_some.mp found
      obtain ⟨S, finite, sum⟩ := before i less
      exact ⟨_, ((mergePair_cases left right).2 _).mpr ⟨S, finite, sum, rfl⟩⟩

/-- Rows that were merged have one length and no sum that is the identity. -/
theorem of_mergeShareCommits_ok (done : mergeShareCommits Pt prev row = .ok next) :
    prev.length = row.length ∧ next.length = prev.length ∧
      ∀ j < prev.length, ∃ S : Pt, S ≠ 0 ∧ pairSum prev row j = some S ∧
        next[j]? = some (encodePoint S) := by
  rw [mergeShareCommits, equalArrSize, assertOk] at done
  by_cases size : prev.length = row.length
  case neg =>
    rw [if_neg (by simpa using size)] at done
    cases done
  rw [if_pos (by simpa using size), ok_bind] at done
  have done : (prev.zip row).mapM (mergePair Pt) = .ok next := done
  have rounds := mapM_eq_ok_iff.mp done
  have length := rounds.length_eq
  rw [List.length_zip, ← size, min_self] at length
  refine ⟨size, length.symm, fun j inside => ?_⟩
  have there : j < row.length := size ▸ inside
  have here : j < next.length := length ▸ inside
  have round := List.forall₂_iff_get.mp rounds
  have made := round.2 j (by simp [inside, there]) here
  simp only [List.get_eq_getElem, List.getElem_zip] at made
  obtain ⟨S, finite, sum, encoded⟩ := ((mergePair_cases (List.getElem?_eq_getElem inside)
    (List.getElem?_eq_getElem there)).2 _).mp made
  exact ⟨S, finite, sum, by rw [List.getElem?_eq_getElem here, encoded]⟩

theorem mergeShareCommits_ok (size : prev.length = row.length)
    (each : ∀ j < prev.length, ∃ S : Pt, S ≠ 0 ∧ pairSum prev row j = some S) :
    ∃ next, mergeShareCommits Pt prev row = .ok next := by
  have rounds : ∀ pair ∈ prev.zip row, ∃ c, mergePair Pt pair = .ok c := by
    intro pair listed
    obtain ⟨j, found⟩ := List.mem_iff_getElem?.mp listed
    obtain ⟨left, right⟩ := List.getElem?_zip_eq_some.mp found
    obtain ⟨S, finite, sum⟩ := each j (List.getElem?_eq_some_iff.mp left).1
    exact ⟨_, ((mergePair_cases left right).2 _).mpr ⟨S, finite, sum, rfl⟩⟩
  obtain ⟨next, done⟩ := exists_mapM_ok rounds
  refine ⟨next, ?_⟩
  rw [mergeShareCommits, equalArrSize, assertOk, if_pos (by simpa using size), ok_bind]
  exact done

/-! ## Merging all rows -/

variable (Pt) in
/-- A row can be added to the rows before it: it is as long, everything is decoded, and no sum is
the identity. -/
def Grows (before : List Row) (row : Row) : Prop :=
  before = [] ∨ (∀ r ∈ before, r.length = row.length) ∧
    ∀ j < row.length, ∃ S : Pt, S ≠ 0 ∧ columnSum Pt (before ++ [row]) j = some S

variable (Pt) in
/-- Adding a row to the rows before it, position by position, comes to a sum that is the
identity. -/
def CancelsNext (before : List Row) (row : Row) : Prop :=
  before ≠ [] ∧ (∀ r ∈ before, r.length = row.length) ∧
    ∃ j, columnSum Pt (before ++ [row]) j = some 0 ∧
      ∀ i < j, ∃ S : Pt, S ≠ 0 ∧ columnSum Pt (before ++ [row]) i = some S

variable (Pt) in
/-- The rows can be added up one by one. -/
def Mergeable (rows : List Row) : Prop :=
  ∀ before row after, rows = before ++ row :: after → Grows Pt before row

variable (Pt) in
/-- Adding the rows up one by one comes to a sum that is the identity. -/
def MergeCancels (rows : List Row) : Prop :=
  ∃ before row after, rows = before ++ row :: after ∧ Mergeable Pt before ∧ CancelsNext Pt before row

omit [AddCommGroup Pt] [Module Scalar Pt] [Curve Pt] in
/-- A list with one more element is split at that element or before it. -/
theorem concat_split {α : Type} {l before after : List α} {a b : α}
    (split : l ++ [a] = before ++ b :: after) :
    (l = before ∧ a = b) ∨ ∃ after', l = before ++ b :: after' := by
  cases List.eq_nil_or_concat after with
  | inl empty =>
    rw [empty] at split
    obtain ⟨same, last⟩ := List.append_inj' split rfl
    exact .inl ⟨same, by simpa using last⟩
  | inr last =>
    obtain ⟨after', c, rfl⟩ := last
    rw [List.concat_eq_append, ← List.cons_append, ← List.append_assoc] at split
    exact .inr ⟨after', (List.append_inj' split rfl).1⟩

theorem mergeable_nil : Mergeable Pt [] := by
  intro before row after split
  simp at split

theorem mergeable_concat : Mergeable Pt (rows ++ [row]) ↔ Mergeable Pt rows ∧ Grows Pt rows row := by
  constructor
  · intro mergeable
    refine ⟨fun before r after split => ?_, mergeable rows row [] rfl⟩
    exact mergeable before r (after ++ [row]) (by simp [split])
  · intro ⟨mergeable, grows⟩ before r after split
    cases concat_split split with
    | inl last =>
      obtain ⟨rfl, rfl⟩ := last
      exact grows
    | inr earlier =>
      obtain ⟨after', split⟩ := earlier
      exact mergeable before r after' split

theorem not_mergeCancels_nil : ¬ MergeCancels Pt [] := by
  intro ⟨before, row, after, split, _⟩
  simp at split

theorem mergeCancels_concat :
    MergeCancels Pt (rows ++ [row]) ↔
      MergeCancels Pt rows ∨ Mergeable Pt rows ∧ CancelsNext Pt rows row := by
  constructor
  · intro ⟨before, r, after, split, mergeable, cancels⟩
    cases concat_split split with
    | inl last =>
      obtain ⟨rfl, rfl⟩ := last
      exact .inr ⟨mergeable, cancels⟩
    | inr earlier =>
      obtain ⟨after', split⟩ := earlier
      exact .inl ⟨before, r, after', split, mergeable, cancels⟩
  · intro cancels
    cases cancels with
    | inl earlier =>
      obtain ⟨before, r, after, split, mergeable, cancels⟩ := earlier
      exact ⟨before, r, after ++ [row], by simp [split], mergeable, cancels⟩
    | inr last => exact ⟨rows, row, [], rfl, last.1, last.2⟩

variable (Pt) in
/-- What the code holds after adding up some rows: as many commitments as each row has, of the
sums. -/
structure Merged (rows : List Row) (prev : Row) : Prop where
  length (r : Row) : r ∈ rows → r.length = prev.length
  sums (j : Nat) : rowPoint Pt prev j = columnSum Pt rows j

theorem Merged.single (row : Row) : Merged Pt [row] row where
  length r member := by rw [List.mem_singleton.mp member]
  sums j := (columnSum_single row j).symm

theorem Merged.pairSum {rows : List Row} {prev : Row} (merged : Merged Pt rows prev)
    (row : Row) (j : Nat) : pairSum prev row j = columnSum Pt (rows ++ [row]) j := by
  rw [Frost.pairSum, merged.sums, columnSum_concat]

/-- Adding one more row panics where the sum is the identity. -/
theorem Merged.panics {rows : List Row} {prev : Row} (merged : Merged Pt rows prev)
    (some_ : rows ≠ []) (row : Row) :
    Panics (mergeShareCommits Pt prev row) ↔ CancelsNext Pt rows row := by
  rw [panics_mergeShareCommits, CancelsNext]
  simp only [merged.pairSum, some_, ne_eq, not_false_eq_true, true_and]
  refine and_congr_left fun _ => ?_
  constructor
  · intro same r member
    rw [merged.length r member, same]
  · intro same
    obtain ⟨r, member⟩ := List.exists_mem_of_ne_nil rows some_
    rw [← merged.length r member, same r member]

theorem Merged.step {rows : List Row} {prev row next : Row} (merged : Merged Pt rows prev)
    (done : mergeShareCommits Pt prev row = .ok next) :
    Grows Pt rows row ∧ Merged Pt (rows ++ [row]) next := by
  obtain ⟨same, size, each⟩ := of_mergeShareCommits_ok done
  refine ⟨.inr ⟨fun r member => by rw [merged.length r member, same], fun j inside => ?_⟩, ?_, ?_⟩
  · obtain ⟨S, finite, sum, _⟩ := each j (same ▸ inside)
    exact ⟨S, finite, by rwa [merged.pairSum] at sum⟩
  · intro r member
    rw [size]
    cases List.mem_append.mp member with
    | inl before => exact merged.length r before
    | inr last => rw [List.mem_singleton.mp last, same]
  · intro j
    by_cases inside : j < prev.length
    · obtain ⟨S, finite, sum, made⟩ := each j inside
      rw [merged.pairSum] at sum
      rw [sum, rowPoint, made, Option.bind_some, liftX_encodePoint finite]
      rfl
    · have outside : row.length ≤ j := same ▸ not_lt.mp inside
      have short : next.length ≤ j := size ▸ not_lt.mp inside
      rw [columnSum_concat, rowPoint, List.getElem?_eq_none short, rowPoint,
        List.getElem?_eq_none outside]
      cases columnSum Pt rows j with
      | none => rfl
      | some S => rfl

theorem Merged.grows {rows : List Row} {prev row : Row} (merged : Merged Pt rows prev)
    (some_ : rows ≠ []) (grows : Grows Pt rows row) :
    ∃ next, mergeShareCommits Pt prev row = .ok next := by
  obtain ⟨same, each⟩ := grows.resolve_left some_
  obtain ⟨r, member⟩ := List.exists_mem_of_ne_nil rows some_
  have size : prev.length = row.length := by rw [← merged.length r member, same r member]
  refine mergeShareCommits_ok size fun j inside => ?_
  rw [merged.pairSum]
  exact each j (size ▸ inside)

variable (Pt) in
/-- The loop that merges the commitments. -/
theorem mergeCommits_run (cs : List DkgCommitPackage) :
    (Panics (cs.foldlM (mergeCommits Pt) none) ↔ MergeCancels Pt (cs.map (·.vssCommits))) ∧
    (∀ out, cs.foldlM (mergeCommits Pt) none = .ok out → Mergeable Pt (cs.map (·.vssCommits)) ∧
      (cs = [] ∧ out = none ∨
        cs ≠ [] ∧ ∃ prev, out = some prev ∧ Merged Pt (cs.map (·.vssCommits)) prev)) ∧
    (Mergeable Pt (cs.map (·.vssCommits)) → ∃ out, cs.foldlM (mergeCommits Pt) none = .ok out) := by
  induction cs using List.reverseRecOn with
  | nil =>
    refine ⟨?_, ?_, fun _ => ⟨none, rfl⟩⟩
    · simp [not_mergeCancels_nil]
    · intro out done
      cases done
      exact ⟨mergeable_nil, .inl ⟨rfl, rfl⟩⟩
  | append_singleton cs c ih =>
    obtain ⟨panics, through, exists_⟩ := ih
    have last : ∀ acc, [c].foldlM (mergeCommits Pt) acc = mergeCommits Pt acc c := by
      intro acc
      rw [List.foldlM_cons]
      cases mergeCommits Pt acc c with
      | error fault => rfl
      | ok out => rfl
    rw [List.foldlM_append, List.map_append, List.map_cons, List.map_nil, mergeCancels_concat,
      mergeable_concat]
    simp only [last]
    by_cases empty : cs = []
    · -- The first row is taken as it is.
      subst empty
      refine ⟨?_, fun out done => ?_, fun _ => ⟨some c.vssCommits, rfl⟩⟩
      · simp [not_mergeCancels_nil, CancelsNext, mergeCommits, pure, Except.pure]
      · cases done
        exact ⟨⟨mergeable_nil, .inl rfl⟩, .inr ⟨by simp, _, rfl, Merged.single _⟩⟩
    have some_ : cs.map (·.vssCommits) ≠ [] := by simpa using empty
    refine ⟨?_, fun out done => ?_, fun ⟨mergeable, grows⟩ => ?_⟩
    · rw [panics_bind, panics]
      refine or_congr_right ?_
      constructor
      · intro ⟨acc, done, stops⟩
        obtain ⟨mergeable, held⟩ := through acc done
        obtain ⟨_, prev, rfl, merged⟩ := held.resolve_left fun none => empty none.1
        rw [mergeCommits, panics_bind_of_rest fun _ _ => not_panics_pure _, merged.panics some_]
          at stops
        exact ⟨mergeable, stops⟩
      · intro ⟨mergeable, cancels⟩
        obtain ⟨acc, done⟩ := exists_ mergeable
        obtain ⟨_, held⟩ := through acc done
        obtain ⟨_, prev, rfl, merged⟩ := held.resolve_left fun none => empty none.1
        refine ⟨_, done, ?_⟩
        rw [mergeCommits, panics_bind, merged.panics some_]
        exact .inl cancels
    · obtain ⟨acc, before, done⟩ := bind_ok done
      obtain ⟨mergeable, held⟩ := through acc before
      obtain ⟨_, prev, rfl, merged⟩ := held.resolve_left fun none => empty none.1
      obtain ⟨next, made, done⟩ := bind_ok done
      cases done
      obtain ⟨grows, merged⟩ := merged.step made
      exact ⟨⟨mergeable, grows⟩, .inr ⟨by simp, next, rfl, merged⟩⟩
    · obtain ⟨acc, done⟩ := exists_ mergeable
      obtain ⟨_, held⟩ := through acc done
      obtain ⟨_, prev, rfl, merged⟩ := held.resolve_left fun none => empty none.1
      obtain ⟨next, made⟩ := merged.grows some_ grows
      refine ⟨some next, ?_⟩
      rw [done, ok_bind, mergeCommits, made]
      rfl

end Merging

/-! ## Finalizing -/

section Finalize

variable [Sha2] {myIdx : UInt32} {myCoeffs : List (Bytes 32)} {received : List DkgSharePackage}
variable {allCommits cs : List DkgCommitPackage} {threshold : Nat}

/-- The commitments in the order of the indices. -/
def sortedRows (allCommits : List DkgCommitPackage) : List Row :=
  (allCommits.insertionSort fun a b => a.idx ≤ b.idx).map (·.vssCommits)

variable (Pt) in
/-- Points of the participants cancel each other: the first commitments; or the commitments at a
position, those of the participants up to one of them; or what the sums say is the public key of
a participant. -/
def SumsCancel (allCommits : List DkgCommitPackage) : Prop :=
  (allCommits ≠ [] ∧ columnSum Pt (sortedRows allCommits) 0 = some 0) ∨
  MergeCancels Pt (sortedRows allCommits) ∨
  Mergeable Pt (sortedRows allCommits) ∧ ∃ sums : List Pt,
    (∀ row ∈ sortedRows allCommits, row.length = sums.length) ∧
    (∀ j : Nat, columnSum Pt (sortedRows allCommits) j = sums[j]?) ∧
    ∃ c ∈ allCommits, vssPoint c.idx sums = 0

variable (Pt) in
/-- A proof of possession is what stops the finalization; or all proofs hold, and a share is; or
all shares are right as well, and points cancel each other. -/
def DkgStops (myIdx : UInt32) (received : List DkgSharePackage) (allCommits : List DkgCommitPackage)
    (threshold : Nat) : Prop :=
  FirstWith (PopHolds Pt) (PopCancels Pt) allCommits ∨
  (∀ c ∈ allCommits, PopHolds Pt c) ∧
    (FirstWith (ShareHolds Pt allCommits threshold) (ShareOverruns Pt allCommits threshold) received ∨
    (∀ pkg ∈ received, ShareHolds Pt allCommits threshold pkg) ∧ myIdx ≠ 0 ∧ SumsCancel Pt allCommits)

/-- After the proofs the first commitments are there and decoded. -/
theorem first_commits (holds : ∀ c ∈ cs, PopHolds Pt c) :
    ∃ (heads : List (Bytes 33)) (points : List Pt),
      cs.mapM (fun c => itemAt c.vssCommits 0) = .ok heads ∧ Encodes heads points ∧
        heads.length = cs.length ∧
        (cs.map (·.vssCommits)).mapM (fun row => rowPoint Pt row 0) = some points := by
  induction cs with
  | nil => exact ⟨[], [], rfl, .nil, rfl, rfl⟩
  | cons c cs ih =>
    rw [List.forall_mem_cons] at holds
    obtain ⟨heads, points, read, encodes, size, decoded⟩ := ih holds.2
    obtain ⟨c0, R, C, popPoints, _⟩ := holds.1
    have head := popPoints.head
    rw [List.head?_eq_getElem?] at head
    refine ⟨c0 :: heads, C :: points, ?_, .cons popPoints.commit encodes, by simp [size], ?_⟩
    · rw [List.mapM_cons, itemAt, head, ok_bind, read]
      rfl
    · rw [List.map_cons, List.mapM_cons, rowPoint, head, Option.bind_some, popPoints.commit, decoded]
      rfl

/-- The sum of the first commitments is serialized. -/
theorem panics_firstSum (holds : ∀ c ∈ cs, PopHolds Pt c) (some_ : cs ≠ []) :
    ∃ heads, cs.mapM (fun c => itemAt c.vssCommits 0) = .ok heads ∧
      (Panics (sumPoints Pt heads) ↔ columnSum Pt (cs.map (·.vssCommits)) 0 = some 0) ∧
      (¬ Panics (sumPoints Pt heads) → ∃ groupPk, sumPoints Pt heads = .ok groupPk) := by
  obtain ⟨heads, points, read, encodes, size, decoded⟩ := first_commits holds
  have nonempty : heads ≠ [] := by
    rw [← List.length_pos_iff, size]
    exact List.length_pos_iff.mpr some_
  refine ⟨heads, read, ?_, ?_⟩
  · rw [sumPoints_eq encodes nonempty, panics_serializePoint, columnSum, decoded]
    simp
  · rw [sumPoints_eq encodes nonempty, panics_serializePoint]
    exact fun finite => ⟨_, serializePoint_eq finite⟩

omit [Sha2] in
theorem encodes_iff {commits : List (Bytes 33)} {points : List Pt} :
    Encodes commits points ↔
      commits.length = points.length ∧ ∀ j : Nat, rowPoint Pt commits j = points[j]? := by
  rw [Encodes, List.forall₂_iff_get]
  refine and_congr_right fun size => ⟨fun each j => ?_, fun each j inside inside' => ?_⟩
  · by_cases inside : j < commits.length
    · have inside' : j < points.length := size ▸ inside
      have lifted := each j inside inside'
      rw [List.get_eq_getElem, List.get_eq_getElem] at lifted
      rw [rowPoint, List.getElem?_eq_getElem inside, List.getElem?_eq_getElem inside',
        Option.bind_some, lifted]
      rfl
    · rw [rowPoint, List.getElem?_eq_none (not_lt.mp inside),
        List.getElem?_eq_none (size ▸ not_lt.mp inside)]
      rfl
  · have found := each j
    rw [rowPoint, List.getElem?_eq_getElem inside, List.getElem?_eq_getElem inside',
      Option.bind_some] at found
    rw [List.get_eq_getElem, List.get_eq_getElem]
    cases lifted : (liftX commits[j].data : Result Pt) with
    | error fault =>
      rw [lifted] at found
      cases found
    | ok P =>
      rw [lifted] at found
      cases found
      rfl

omit [Sha2] in
/-- The commitments that were merged encode the sums. -/
theorem Merged.encodes {rows : List Row} {prev : Row} (merged : Merged Pt rows prev) (some_ : rows ≠ [])
    (sums : List Pt) :
    Encodes prev sums ↔ (∀ row ∈ rows, row.length = sums.length) ∧
      ∀ j : Nat, columnSum Pt rows j = sums[j]? := by
  rw [encodes_iff]
  simp only [merged.sums]
  refine and_congr_left fun _ => ?_
  constructor
  · intro size row member
    rw [merged.length row member, size]
  · intro same
    obtain ⟨row, member⟩ := List.exists_mem_of_ne_nil rows some_
    rw [← merged.length row member, same row member]

omit [AddCommGroup Pt] [Module Scalar Pt] [Curve Pt] [Sha2] in
/-- If all elements stop or pass, any that stops has a first one. -/
theorem firstWith_of_total {α : Type} {passed stops : α → Prop} {l : List α}
    (total : ∀ a ∈ l, passed a ∨ stops a) : FirstWith passed stops l ↔ ∃ a ∈ l, stops a := by
  induction l with
  | nil => simp [not_firstWith_nil]
  | cons a l ih =>
    rw [List.forall_mem_cons] at total
    rw [firstWith_cons, ih total.2, List.exists_mem_cons_iff]
    tauto

/-- The packages of the members are made unless a public key is the identity. -/
theorem panics_members (holds : ∀ c ∈ cs, PopHolds Pt c) {commits : List (Bytes 33)}
    (nonempty : commits ≠ []) :
    Panics (cs.mapM (dkgMember Pt commits)) ↔
      ∃ sums : List Pt, Encodes commits sums ∧ ∃ c ∈ cs, vssPoint c.idx sums = 0 := by
  have head : ∀ c ∈ cs, ∃ c0, itemAt c.vssCommits 0 = .ok c0 := by
    intro c member
    obtain ⟨c0, R, C, points, _⟩ := holds c member
    have head := points.head
    rw [List.head?_eq_getElem?] at head
    exact ⟨c0, by rw [itemAt, head]⟩
  have stops : ∀ c ∈ cs, Panics (dkgMember Pt commits c) ↔ Panics (evalVssPubkey Pt commits c.idx) := by
    intro c member
    obtain ⟨c0, read⟩ := head c member
    rw [dkgMember, panics_bind_of_rest]
    intro _ _
    rw [read, ok_bind]
    exact not_panics_pure _
  have some_ : ∀ sums : List Pt, Encodes commits sums → sums ≠ [] := by
    intro sums encodes empty
    rw [empty] at encodes
    exact nonempty (List.forall₂_nil_right_iff.mp encodes)
  rw [panics_mapM]
  constructor
  · rintro ⟨earlier, c, later, split, _, panics⟩
    have member : c ∈ cs := by simp [split]
    have panics := (stops c member).mp panics
    obtain ⟨sums, encodes⟩ := exists_encodes_of_panics panics
    rw [evalVssPubkey_eq (some_ sums encodes) encodes, panics_serializePoint] at panics
    exact ⟨sums, encodes, c, member, panics⟩
  · rintro ⟨sums, encodes, c, member, cancelled⟩
    have evaluated := evalVssPubkey_eq (some_ sums encodes) encodes
    rw [firstWith_of_total]
    · refine ⟨c, member, ?_⟩
      rw [stops c member, evaluated, panics_serializePoint]
      exact cancelled
    · intro a listed
      rw [stops a listed, evaluated, panics_serializePoint, dkgMember, evaluated]
      obtain ⟨c0, read⟩ := head a listed
      by_cases zero : vssPoint a.idx sums = 0
      · exact .inr zero
      · refine .inl ⟨⟨a.idx, encodePoint (vssPoint a.idx sums), some c0⟩, ?_⟩
        rw [serializePoint_eq zero, read]
        rfl

variable (Pt) in
/-- The rest of the function after the checks. -/
def finishGroup {β : Type} (sorted : List DkgCommitPackage)
    (rest : Bytes 33 → List (Bytes 33) → List MemberPackage → Result β) : Result β := do
  let firstCommits ← sorted.mapM fun c => itemAt c.vssCommits 0
  let groupPk ← sumPoints Pt firstCommits
  match ← sorted.foldlM (mergeCommits Pt) none with
  | none => throw (.err (.assertion "no VSS commits to merge"))
  | some groupVssCommits => do
    let members ← sorted.mapM (dkgMember Pt groupVssCommits)
    rest groupPk groupVssCommits members

/-- Of rows that begin with a commitment none is empty, and so is not what they are merged to. -/
theorem Merged.ne_nil (holds : ∀ c ∈ cs, PopHolds Pt c) (some_ : cs ≠ []) {prev : Row}
    (merged : Merged Pt (cs.map (·.vssCommits)) prev) : prev ≠ [] := by
  obtain ⟨c, member⟩ := List.exists_mem_of_ne_nil cs some_
  obtain ⟨c0, R, C, points, _⟩ := holds c member
  have size := merged.length c.vssCommits (List.mem_map_of_mem member)
  have head := List.length_pos_of_mem (List.mem_of_mem_head? (Option.mem_def.mpr points.head))
  intro empty
  rw [empty, List.length_nil] at size
  omega

/-- After the checks it is the sums that may panic. -/
theorem panics_finishGroup (holds : ∀ c ∈ cs, PopHolds Pt c) {β : Type}
    {rest : Bytes 33 → List (Bytes 33) → List MemberPackage → Result β}
    (calm : ∀ groupPk commits members, ¬ Panics (rest groupPk commits members)) :
    Panics (finishGroup Pt cs rest) ↔
      (cs ≠ [] ∧ columnSum Pt (cs.map (·.vssCommits)) 0 = some 0) ∨
      MergeCancels Pt (cs.map (·.vssCommits)) ∨
      Mergeable Pt (cs.map (·.vssCommits)) ∧ ∃ sums : List Pt,
        (∀ row ∈ cs.map (·.vssCommits), row.length = sums.length) ∧
        (∀ j : Nat, columnSum Pt (cs.map (·.vssCommits)) j = sums[j]?) ∧
        ∃ c ∈ cs, vssPoint c.idx sums = 0 := by
  by_cases some_ : cs = []
  · subst some_
    refine ⟨fun panics => absurd panics (not_panics_throw _), fun impossible => ?_⟩
    simp [not_mergeCancels_nil] at impossible
  obtain ⟨heads, read, firstSum, added⟩ := panics_firstSum holds some_
  obtain ⟨merging, through, exists_⟩ := mergeCommits_run Pt cs
  rw [finishGroup, read, ok_bind, panics_bind, firstSum]
  by_cases cancelled : columnSum Pt (cs.map (·.vssCommits)) 0 = some 0
  · simp [cancelled, some_]
  obtain ⟨groupPk, sum⟩ := added (firstSum.not.mpr cancelled)
  rw [or_iff_right cancelled, or_iff_right fun both => cancelled both.2, sum]
  simp only [Except.ok.injEq, exists_eq_left']
  rw [panics_bind, merging]
  refine or_congr_right ?_
  -- What the members get is computed from the merged commitments, which encode the sums.
  have members : ∀ prev, Merged Pt (cs.map (·.vssCommits)) prev →
      (Panics (cs.mapM (dkgMember Pt prev) >>= rest groupPk prev) ↔ ∃ sums : List Pt,
        (∀ row ∈ cs.map (·.vssCommits), row.length = sums.length) ∧
        (∀ j : Nat, columnSum Pt (cs.map (·.vssCommits)) j = sums[j]?) ∧
        ∃ c ∈ cs, vssPoint c.idx sums = 0) := by
    intro prev merged
    rw [panics_bind_of_rest fun _ _ => calm _ _ _, panics_members holds (merged.ne_nil holds some_)]
    simp only [merged.encodes (by simpa using some_), and_assoc]
  constructor
  · intro ⟨out, done, panics⟩
    obtain ⟨mergeable, held⟩ := through out done
    obtain ⟨_, prev, rfl, merged⟩ := held.resolve_left fun none => some_ none.1
    exact ⟨mergeable, (members prev merged).mp panics⟩
  · intro ⟨mergeable, cancels⟩
    obtain ⟨out, done⟩ := exists_ mergeable
    obtain ⟨_, held⟩ := through out done
    obtain ⟨_, prev, rfl, merged⟩ := held.resolve_left fun none => some_ none.1
    exact ⟨_, done, (members prev merged).mpr cancels⟩

/-- Finalizing stops in the proofs, in the shares or in the sums, and nowhere else. -/
theorem panics_dkgFinalize :
    Panics (dkgFinalize Pt myIdx myCoeffs received allCommits threshold) ↔
      DkgStops Pt myIdx received allCommits threshold := by
  have perm := List.perm_insertionSort (fun a b : DkgCommitPackage => a.idx ≤ b.idx) allCommits
  rw [dkgFinalize, panics_forM_bind, DkgStops]
  simp only [panics_checkDkgPop, checkDkgPop_ok]
  refine or_congr_right (and_congr_right fun holds => ?_)
  rw [panics_forM_bind]
  simp only [panics_checkDkgShare, checkDkgShare_ok]
  refine or_congr_right (and_congr_right fun _ => ?_)
  by_cases zero : myIdx = 0
  · have failed : dkgRound2 myIdx myCoeffs myIdx = .error (.err (.assertion "x is zero")) := by
      rw [dkgRound2, evaluateX, if_pos (indexToScalar_eq_zero.mpr zero)]
      rfl
    rw [failed, error_bind]
    simp [zero]
  have own : dkgRound2 myIdx myCoeffs myIdx = .ok ⟨myIdx, myIdx,
      scalarToBytes (horner (myCoeffs.map scalarFromBytes) (indexToScalar myIdx))⟩ := by
    rw [dkgRound2, evaluateX_eq _ (indexToScalar_eq_zero.not.mpr zero)]
    rfl
  have combined : ∀ seckey, ∃ aggregate, combineSet (⟨myIdx, seckey⟩ ::
      received.map fun pkg => ⟨myIdx, pkg.seckey⟩) = .ok aggregate := by
    intro seckey
    have own : ∀ s ∈ (⟨myIdx, seckey⟩ : SecretShare) ::
        received.map fun pkg => ⟨myIdx, pkg.seckey⟩, s.idx = myIdx := by
      simp
    exact ⟨_, combineSet_eq (by simp) own⟩
  rw [own, ok_bind]
  dsimp only
  obtain ⟨aggregate, done⟩ := combined
    (scalarToBytes (horner (myCoeffs.map scalarFromBytes) (indexToScalar myIdx)))
  rw [done, ok_bind]
  let sorted := allCommits.insertionSort fun a b => a.idx ≤ b.idx
  have some_ : allCommits ≠ [] ↔ sorted ≠ [] := by
    rw [ne_eq, ne_eq, ← List.length_eq_zero_iff, ← List.length_eq_zero_iff, perm.length_eq]
  have finished : Panics (finishGroup Pt sorted fun groupPk groupVssCommits members =>
      pure (⟨⟨myIdx, aggregate.seckey⟩, ⟨groupPk, threshold, members⟩, groupVssCommits⟩ :
        DkgOutput)) ↔ _ :=
    panics_finishGroup (fun c member => holds c (perm.mem_iff.mp member))
      fun _ _ _ => not_panics_pure _
  rw [SumsCancel, sortedRows, some_]
  simp only [zero, ne_eq, not_false_eq_true, true_and, ← perm.mem_iff]
  exact finished

end Finalize

end Dkg

/-! ## All functions -/

/-- `verify_share` returns unless all commitments are decoded and there are fewer than the
threshold; `combine_set` unless there is nothing to combine; `merge_shares` always.  Dealing and
refreshing return unless the threshold or a coefficient is zero, recovery unless it gets through
its checks and is to commit to zero, and key generation unless it is stopped. -/
theorem fallible_functions_return_iff (Pt : Type) [AddCommGroup Pt] [Module Scalar Pt] [Curve Pt]
    [Sha2] :
    (∀ commits share threshold, ¬ Panics (verifyShare Pt commits share threshold) ↔
      (threshold ≤ commits.length ∨ ¬ Decodable Pt commits)) ∧
    (∀ shares, ¬ Panics (combineSet shares) ↔ shares ≠ []) ∧
    (∀ sharesA sharesB, ¬ Panics (mergeShares sharesA sharesB)) ∧
    (∀ threshold shareMax secrets random,
      ¬ Panics (createDealerSet Pt threshold shareMax secrets random) ↔
        threshold ≠ 0 ∧ 0 ∉ createShareCoeffs secrets threshold random) ∧
    (∀ members share target threshold secrets random,
      ¬ Panics (genRecoveryShares Pt members share target threshold secrets random) ↔
        (Recoverable members share.idx target threshold →
          threshold ≠ 0 ∧ 0 ∉ repairPieces members target share
            (createShareCoeffs secrets (threshold - 1) random))) ∧
    (∀ index threshold shareMax secrets random,
      ¬ Panics (genRefreshShares Pt index threshold shareMax secrets random) ↔
        threshold ≠ 0 ∧ 0 ∉ createShareCoeffs secrets (threshold - 1) random) ∧
    (∀ myIdx myCoeffs received allCommits threshold,
      ¬ Panics (dkgFinalize Pt myIdx myCoeffs received allCommits threshold) ↔
        ¬ DkgStops Pt myIdx received allCommits threshold) := by
  refine ⟨?_, ?_, not_panics_mergeShares, ?_, ?_, ?_, ?_⟩
  · intro commits share threshold
    rw [panics_verifyShare, not_and_or, not_lt]
  · intro shares
    rw [panics_combineSet]
  · intro threshold shareMax secrets random
    rw [panics_createDealerSet, not_or]
  · intro members share target threshold secrets random
    rw [panics_genRecoveryShares, not_and, not_or]
  · intro index threshold shareMax secrets random
    rw [panics_genRefreshShares, not_or]
  · intro myIdx myCoeffs received allCommits threshold
    rw [panics_dkgFinalize]

/-- A package with a proof whose response is zero. -/
def zeroResponse : DkgCommitPackage where
  idx := 1
  vssCommits := [encodePoint (1 : Scalar)]
  pop := ⟨encodePoint (1 : Scalar), Bytes.ofNat 32 0⟩

/-- Without commitments, shares or a threshold, and on a response of zero, the functions panic. -/
theorem fallible_functions_panic :
    let _ := lastBytes
    (∀ share, Panics (verifyShare Scalar [] share 1)) ∧ Panics (combineSet []) ∧
      (∀ shareMax secrets random, Panics (createDealerSet Scalar 0 shareMax secrets random)) ∧
      (∀ share target secrets random, Panics (genRecoveryShares Scalar [] share target 0 secrets random)) ∧
      (∀ index shareMax secrets random,
        Panics (genRefreshShares Scalar index 0 shareMax secrets random)) ∧
      ∀ myIdx myCoeffs threshold, Panics (dkgFinalize Scalar myIdx myCoeffs [] [zeroResponse] threshold) := by
  intro hash
  have finite : (1 : Scalar) ≠ 0 := one_ne_zero
  refine ⟨?_, ?_, ?_, ?_, ?_, ?_⟩
  · intro share
    rw [panics_verifyShare]
    simp [Decodable]
  · rw [panics_combineSet]
  · intro shareMax secrets random
    rw [panics_createDealerSet]
    exact .inl rfl
  · intro share target secrets random
    rw [panics_genRecoveryShares]
    simp [Recoverable]
  · intro index shareMax secrets random
    rw [panics_genRefreshShares]
    exact .inl rfl
  · intro myIdx myCoeffs threshold
    have zero : scalarFromBytes (Bytes.ofNat 32 0) = 0 := by decide +kernel
    rw [panics_dkgFinalize]
    refine .inl ⟨[], zeroResponse, [], rfl, by simp, encodePoint 1, 1, 1, ⟨rfl, ?_, ?_⟩, .inl zero⟩
    · exact liftX_encodePoint finite
    · exact liftX_encodePoint finite

end Pomade.Frost
