import Pomade.Frost.Points
import Pomade.Frost.Sharing

/-! # Verifying a share

`verify_share` of `shares.rs`.  The commitments are the coefficients of a polynomial in the
exponent; the share is right if its public key is the value of that polynomial at its index.
The code compares x-coordinates, and so accepts the negative of the right share as well.
-/

namespace Pomade.Frost

open Pomade.Lib

/-- `items[i]`. -/
def itemAt {α : Type} (items : List α) (i : Nat) : Result α :=
  match items[i]? with
  | some a => .ok a
  | none => .error (.panic ("index out of bounds: the len is " ++ toString items.length ++
      " but the index is " ++ toString i))

section Verify

variable (Pt : Type) [AddCommGroup Pt] [Module Scalar Pt] [Curve Pt]

/-- One round of the loop of `verify_share`. -/
def addCommit (commits : List (Bytes 33)) (idx : UInt32) (sIp : Option Pt) (j : Nat) :
    Result (Option Pt) := do
  let commit ← itemAt commits j
  let point : Pt ← liftX commit.data
  let exp := powN idx.toNat j
  let prod := scalarMulti point exp
  match sIp with
  | none => return some prod
  | some acc => return some (acc + prod)

/-- Verify a secret share against VSS commitments. -/
def verifyShare (commits : List (Bytes 33)) (share : SecretShare) (threshold : Nat) :
    Result Bool := do
  let scalar := scalarFromBytes share.seckey
  let sI := scalarBaseMulti Pt scalar
  let sIp ← (List.range threshold).foldlM (addCommit Pt commits share.idx) none
  match sIp with
  | none => throw (.err (.assertion "no commits"))
  -- x-coordinates are compared
  | some sIp => return decide (Curve.affineX sI = Curve.affineX sIp)

end Verify

/-! ## The polynomial in the exponent -/

section Terms

variable {Pt : Type} [AddCommGroup Pt] [Module Scalar Pt]

/-- The terms `idx ^ j * C_j`. -/
def vssTerms (idx : UInt32) (points : List Pt) : List Pt :=
  points.mapIdx fun j C => indexToScalar idx ^ j • C

/-- What the commitments say the public key of the share with this index is. -/
def vssPoint (idx : UInt32) (points : List Pt) : Pt := (vssTerms idx points).sum

@[simp] theorem vssTerms_nil (idx : UInt32) : vssTerms idx ([] : List Pt) = [] := rfl

theorem vssTerms_concat (idx : UInt32) (points : List Pt) (C : Pt) :
    vssTerms idx (points ++ [C]) = vssTerms idx points ++ [indexToScalar idx ^ points.length • C] := by
  simp [vssTerms, List.mapIdx_append]

theorem vssPoint_concat (idx : UInt32) (points : List Pt) (C : Pt) :
    vssPoint idx (points ++ [C]) = vssPoint idx points + indexToScalar idx ^ points.length • C := by
  simp [vssPoint, vssTerms_concat]

end Terms

/-! ## What is computed -/

section Loop

variable {Pt : Type} [AddCommGroup Pt] [Module Scalar Pt] [Curve Pt]
variable {commits : List (Bytes 33)} {share : SecretShare} {threshold : Nat} {points : List Pt}

/-- The first `threshold` commitments are encodings of these points. -/
def Decoded (commits : List (Bytes 33)) (threshold : Nat) (points : List Pt) : Prop :=
  threshold ≤ commits.length ∧ (commits.take threshold).mapM (fun c => liftX c.data) = .ok points

theorem Decoded.length (decoded : Decoded commits threshold points) : points.length = threshold := by
  rw [length_of_mapM_ok decoded.2, List.length_take, min_eq_left decoded.1]

/-- The last of the commitments that are read. -/
theorem Decoded.last (decoded : Decoded commits (threshold + 1) points) :
    ∃ before commit C, Decoded commits threshold before ∧ points = before ++ [C] ∧
      itemAt commits threshold = .ok commit ∧ liftX commit.data = .ok C ∧
      commits.take (threshold + 1) = commits.take threshold ++ [commit] := by
  obtain ⟨short, lifted⟩ := decoded
  have inside : threshold < commits.length := short
  rw [List.take_succ_eq_append_getElem inside, List.mapM_append] at lifted
  obtain ⟨before, first, lifted⟩ := bind_ok lifted
  obtain ⟨rest, last, same⟩ := bind_ok lifted
  rw [List.mapM_cons] at last
  obtain ⟨C, found, last⟩ := bind_ok last
  cases last
  cases same
  refine ⟨before, commits[threshold], C, ⟨inside.le, first⟩, rfl, ?_, found,
    List.take_succ_eq_append_getElem inside⟩
  rw [itemAt, List.getElem?_eq_getElem inside]

/-- There is one way to decode commitments. -/
theorem Decoded.exists_iff (decoded : Decoded commits threshold points) {p : List Pt → Prop} :
    (∃ points', Decoded commits threshold points' ∧ p points') ↔ p points := by
  constructor
  · rintro ⟨points', again, holds⟩
    have same := again.2
    rw [decoded.2] at same
    cases same
    exact holds
  · exact fun holds => ⟨points, decoded, holds⟩

theorem decoded_zero (commits : List (Bytes 33)) : Decoded commits 0 ([] : List Pt) :=
  ⟨Nat.zero_le _, rfl⟩

/-- Commitments that are read one by one. -/
theorem exists_decoded (enough : threshold ≤ commits.length)
    (each : ∀ j < threshold, ∃ commit, itemAt commits j = .ok commit ∧
      ∃ C : Pt, liftX commit.data = .ok C) : ∃ points : List Pt, Decoded commits threshold points := by
  obtain ⟨points, lifted⟩ := exists_mapM_ok (l := commits.take threshold)
    (f := fun c => (liftX c.data : Result Pt)) fun c listed => by
      obtain ⟨j, inside, rfl⟩ := List.mem_take_iff_getElem.mp listed
      obtain ⟨commit, read, lifted⟩ := each j (by omega)
      rw [itemAt, List.getElem?_eq_getElem (by omega), Except.ok.injEq] at read
      rwa [read]
  exact ⟨points, enough, lifted⟩

/-- The sum so far; there is none before the first round. -/
def sumSoFar (idx : UInt32) (points : List Pt) : Option Pt :=
  if points = [] then none else some (vssPoint idx points)

theorem foldlM_addCommit (decoded : Decoded commits threshold points) (idx : UInt32) :
    (List.range threshold).foldlM (addCommit Pt commits idx) none = .ok (sumSoFar idx points) := by
  induction threshold generalizing points with
  | zero =>
    have empty : points = [] := List.length_eq_zero_iff.mp decoded.length
    rw [empty, sumSoFar, if_pos rfl]
    rfl
  | succ t ih =>
    obtain ⟨before, commit, C, earlier, rfl, read, lifted, _⟩ := decoded.last
    have power : powN idx.toNat t = indexToScalar idx ^ before.length := by
      rw [earlier.length, powN_index]
    rw [List.range_succ, List.foldlM_append, ih earlier, ok_bind, List.foldlM_cons, addCommit, read,
      ok_bind, lifted, ok_bind, power, sumSoFar, sumSoFar, vssPoint_concat]
    cases before with
    | nil =>
      simp only [vssPoint, vssTerms_nil, List.sum_nil, zero_add]
      rfl
    | cons first before => rfl

/-- The share is accepted if its public key is the point of its index, or the negative. -/
theorem verifyShare_iff (decoded : Decoded commits threshold points) :
    verifyShare Pt commits share threshold = .ok true ↔ points ≠ [] ∧
      (scalarBaseMulti Pt (scalarFromBytes share.seckey) = vssPoint share.idx points ∨
        scalarBaseMulti Pt (scalarFromBytes share.seckey) = -vssPoint share.idx points) := by
  rw [verifyShare, foldlM_addCommit decoded, ok_bind, sumSoFar]
  by_cases empty : points = []
  · simp [empty]
  · rw [if_neg empty, ← Curve.affineX_eq_iff]
    show Except.ok (decide _) = Except.ok true ↔ _
    simp [empty]

/-- No answer is given unless the commitments decode. -/
theorem decoded_of_verifyShare {accepted : Bool} (enough : threshold ≤ commits.length)
    (done : verifyShare Pt commits share threshold = .ok accepted) :
    ∃ points : List Pt, Decoded commits threshold points := by
  obtain ⟨sum, folded, _⟩ := bind_ok done
  refine exists_decoded enough fun j below => ?_
  obtain ⟨before, after, round⟩ := of_foldlM_ok folded j (List.mem_range.mpr below)
  obtain ⟨commit, read, round⟩ := bind_ok round
  obtain ⟨C, lifted, _⟩ := bind_ok round
  exact ⟨commit, read, C, lifted⟩

end Loop

end Pomade.Frost
