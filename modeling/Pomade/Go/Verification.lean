import Pomade.Frost.Verification
import Pomade.Go.PartialSignatures

/-! # Verifying a share with the Go library

`VerifyShare` of `shares.go`, and when the two libraries accept a share.  Both take the negative
of the right share for right.  The Go library has no encoding of the identity, and gives up
where the public key of the share or a sum on the way is the identity.  It reads x-coordinates
modulo the field prime, and so takes commitments that the Rust crate refuses.
-/

namespace Pomade.Go

open Pomade.Lib Pomade.Frost

namespace Taproot

/-- Computes base^exp mod N. -/
def powN (base exp : Nat) : Scalar := if exp = 0 then 1 else powNLoop 1 (modN base) exp

section Verify

variable (Pt : Type) [AddCommGroup Pt] [Module Scalar Pt] [Curve Pt]

/-- One round of the loop of `VerifyShare`. -/
def addCommit (commits : List (Bytes 33)) (id : UInt32) (sip : Option (Point Pt)) (j : Nat) :
    Result (Option (Point Pt)) := do
  let commit ← itemAt commits j
  let point : Point Pt ← liftX commit.data
  let exp := powN id.toNat j
  let prod := scalarMulti point exp
  let sip ← elementAdd sip (some prod)
  return some sip

/-- Verifies a secret share against VSS commitments. -/
def verifyShare (commits : List (Bytes 33)) (share : SecretShare) (threshold : Nat) :
    Result Bool := do
  let si : Point Pt ← liftX (scalarBaseMultiCT Pt share.seckey).data
  if threshold = 0 then throw (.err (.assertion "no commits"))
  if commits.length < threshold then
    throw (.err (.assertion "threshold exceeds commit count"))
  let sip ← (List.range threshold).foldlM (addCommit Pt commits share.idx) none
  match sip with
  | none => throw (.panic "invalid memory address or nil pointer dereference")
  | some sip => return decide (si.x = sip.x)

end Verify

end Taproot

/-! ## The sum -/

/-- No point but the identity has the x-coordinate zero. -/
def NoZeroAbscissa (Pt : Type) [AddCommGroup Pt] [Module Scalar Pt] [Curve Pt] : Prop :=
  ∀ P : Pt, P ≠ 0 → Curve.affineX P ≠ Bytes.ofNat 32 0

section Sums

variable {Pt : Type} [AddCommGroup Pt]

theorem partialSums_concat {sum : Pt} {points : List Pt} {P : Pt} :
    PartialSums sum (points ++ [P]) ↔ PartialSums sum points ∧ sum + points.sum + P ≠ 0 := by
  induction points generalizing sum with
  | nil => simp [PartialSums]
  | cons Q points ih => simp [PartialSums, ih, and_assoc, add_assoc]

end Sums

section Loop

variable {Pt : Type} [AddCommGroup Pt] [Module Scalar Pt] [Curve Pt]
variable {commits : List (Bytes 33)} {share : SecretShare} {threshold : Nat} {points : List Pt}

/-- No commitment is in the compact form, and no sum of the loop is the identity. -/
def Summable (commits : List (Bytes 33)) (threshold : Nat) (idx : UInt32) (points : List Pt) :
    Prop :=
  (∀ c ∈ commits.take threshold, c.data.head? ≠ some 0x05) ∧ PartialSums 0 (vssTerms idx points)

theorem powN_taproot (base exp : Nat) : Taproot.powN base exp = Frost.powN base exp := by
  rw [Taproot.powN, Frost.powN]
  by_cases zero : exp = 0
  · rw [if_pos zero, zero, powNLoop, if_pos rfl]
  · rw [if_neg zero]

theorem liftX_compact {bytes : Bytes 33} (compact : bytes.data.head? = some 0x05) :
    (Taproot.liftX bytes.data : Result (Taproot.Point Pt)) = .error (.err .invalidPoint) := by
  have long : ¬ bytes.data.length = 32 := by
    rw [bytes.size]
    decide
  rw [Taproot.liftX, if_neg long, if_pos bytes.size, compact]
  rfl

/-- The coordinate of a point that the Rust crate reads is reduced. -/
theorem canonical_of_lifted (reduced : Reduced Pt) {bytes : Bytes 33} {P : Pt}
    (lifted : liftX bytes.data = .ok P) (plain : bytes.data.head? ≠ some 0x05) :
    Canonical bytes := by
  refine ⟨plain, ?_⟩
  rw [liftX_bytes33, deserializePoint] at lifted
  split at lifted
  next Q found =>
    have same : Curve.affineX Q = bytes.tail := by
      split at found
      · exact ((Curve.decompress_eq_some _ _ _).mp found).2.1
      · exact ((Curve.decompress_eq_some _ _ _).mp found).2.1
      · exact ((Curve.decompress_eq_some _ _ _).mp found).2.1
      · cases found
    rw [← same]
    exact reduced Q
  next => cases lifted

theorem elementAdd_opposite (P : Pt) :
    Taproot.elementAdd (some (Taproot.fromSecpPoint P)) (some (Taproot.fromSecpPoint (-P))) =
      .error (.err .invalidPoint) := by
  have coordinates : Curve.affineX (-P) = Curve.affineX P :=
    (Curve.affineX_eq_iff _ _).mpr (.inr rfl)
  have identity : Curve.isIdentity (-P) = Curve.isIdentity P := by
    rw [Bool.eq_iff_iff, Curve.isIdentity_iff, Curve.isIdentity_iff, neg_eq_zero]
  rw [Taproot.elementAdd, if_pos]
  refine ⟨?_, ?_⟩
  · rw [Taproot.fromSecpPoint, Taproot.fromSecpPoint, coordinates, identity]
  · exact (Curve.isIdentity_iff _).mpr (add_neg_cancel P)

/-- One round of the loop, if the sums before it are there. -/
theorem addCommit_taproot (reduced : Reduced Pt) {idx : UInt32} {commit : Bytes 33} {C : Pt}
    (read : itemAt commits points.length = .ok commit) (lifted : liftX commit.data = .ok C)
    (plain : commit.data.head? ≠ some 0x05) :
    Taproot.addCommit Pt commits idx ((sumSoFar idx points).map Taproot.fromSecpPoint)
        points.length =
      (Taproot.elementAdd ((sumSoFar idx points).map Taproot.fromSecpPoint)
        (some (Taproot.fromSecpPoint (indexToScalar idx ^ points.length • C))) >>= fun sip =>
          .ok (some sip)) := by
  rw [Taproot.addCommit, read, ok_bind, liftX_of_ok (canonical_of_lifted reduced lifted plain) lifted,
    ok_bind, powN_taproot, powN_index]
  rfl

omit [Curve Pt] in
theorem sumSoFar_getD (idx : UInt32) (points : List Pt) :
    (sumSoFar idx points).getD 0 = vssPoint idx points := by
  by_cases empty : points = []
  · simp [sumSoFar, empty, vssPoint]
  · simp [sumSoFar, empty]

/-- The first sum is a commitment, and nothing lifts to the identity. -/
theorem ne_nil_of_opposite {idx : UInt32} {commit : Bytes 33} {C : Pt}
    (lifted : liftX commit.data = .ok C)
    (opposite : vssPoint idx points + indexToScalar idx ^ points.length • C = 0) : points ≠ [] := by
  intro empty
  apply ne_zero_of_liftX lifted
  simpa [empty, vssPoint] using opposite

theorem foldlM_addCommit_taproot (reduced : Reduced Pt) (decoded : Decoded commits threshold points)
    (idx : UInt32) :
    (Summable commits threshold idx points →
      (List.range threshold).foldlM (Taproot.addCommit Pt commits idx) none =
        .ok ((sumSoFar idx points).map Taproot.fromSecpPoint)) ∧
    (¬ Summable commits threshold idx points →
      (List.range threshold).foldlM (Taproot.addCommit Pt commits idx) none =
        .error (.err .invalidPoint)) := by
  induction threshold generalizing points with
  | zero =>
    have empty : points = [] := List.length_eq_zero_iff.mp decoded.length
    rw [empty]
    refine ⟨fun _ => rfl, ?_⟩
    intro unsummable
    exact absurd ⟨by simp, trivial⟩ unsummable
  | succ t ih =>
    obtain ⟨before, commit, C, earlier, rfl, read, lifted, taken⟩ := decoded.last
    obtain ⟨through, stopped⟩ := ih earlier
    have place : t = before.length := earlier.length.symm
    -- What was summable before stays so if the new commitment is plain and the new sum is finite.
    have grown : Summable commits (t + 1) idx (before ++ [C]) ↔
        Summable commits t idx before ∧ commit.data.head? ≠ some 0x05 ∧
          vssPoint idx before + indexToScalar idx ^ before.length • C ≠ 0 := by
      rw [Summable, Summable, taken, vssTerms_concat, partialSums_concat, List.forall_mem_append,
        zero_add, vssPoint]
      simp only [List.mem_singleton, forall_eq]
      tauto
    rw [grown, List.range_succ, List.foldlM_append]
    by_cases summable : Summable commits t idx before
    case neg =>
      rw [stopped summable]
      refine ⟨fun all => absurd all.1 summable, fun _ => rfl⟩
    rw [through summable, ok_bind, List.foldlM_cons]
    by_cases compact : commit.data.head? = some 0x05
    case pos =>
      refine ⟨fun all => absurd compact all.2.1, fun _ => ?_⟩
      rw [Taproot.addCommit, read, ok_bind, liftX_compact compact]
      rfl
    subst place
    rw [addCommit_taproot reduced read lifted compact]
    by_cases opposite : vssPoint idx before + indexToScalar idx ^ before.length • C = 0
    · refine ⟨fun all => absurd opposite all.2.2, fun _ => ?_⟩
      have term : indexToScalar idx ^ before.length • C = -vssPoint idx before :=
        (neg_eq_of_add_eq_zero_right opposite).symm
      rw [sumSoFar, if_neg (ne_nil_of_opposite lifted opposite), term, Option.map_some,
        elementAdd_opposite]
      rfl
    · refine ⟨fun _ => ?_, fun none => absurd ⟨summable, compact, opposite⟩ none⟩
      rw [elementAdd_sum (by rwa [sumSoFar_getD]), sumSoFar_getD, ← vssPoint_concat]
      rw [sumSoFar, if_neg (by simp)]
      rfl

/-! ## Coordinates that are not reduced -/

/-- The encoding with its x-coordinate modulo the field prime. -/
def reduceCoordinate (bytes : Bytes 33) : Bytes 33 :=
  Bytes.cons (bytes.data.headD 0) (Bytes.ofNat 32 (bytes.tail.toNat % secp256k1P))

theorem toNat_reduced (bytes : Bytes 33) :
    (reduceCoordinate bytes).tail.toNat = bytes.tail.toNat % secp256k1P := by
  have less : bytes.tail.toNat % secp256k1P < secp256k1P := Nat.mod_lt _ (by decide)
  have fits : secp256k1P < 256 ^ 32 := by norm_num [secp256k1P]
  exact Bytes.toNat_ofNat (less.trans fits)

theorem head_reduced (bytes : Bytes 33) :
    (reduceCoordinate bytes).data.head? = bytes.data.head? := by
  obtain ⟨_ | ⟨tag, x⟩, size⟩ := bytes
  · cases size
  · simp [reduceCoordinate]

/-- The Go library lifts both encodings to one point. -/
theorem liftX_reduced {β : Type} (bytes : Bytes 33) (next : Pt → Result β) :
    ((Taproot.liftX (reduceCoordinate bytes).data : Result (Taproot.Point Pt)) >>= fun p =>
      next p.pt) = Taproot.liftX bytes.data >>= fun p => next p.pt := by
  have same : ∀ (x : Nat) (odd : Bool),
      ((Taproot.liftCoordinate (x % secp256k1P) odd : Result (Taproot.Point Pt)) >>= fun p =>
        next p.pt) = Taproot.liftCoordinate x odd >>= fun p => next p.pt := by
    intro x odd
    rw [Taproot.liftCoordinate, Taproot.liftCoordinate, Nat.mod_mod]
    cases (Curve.decompress (Bytes.ofNat 32 (x % secp256k1P)) odd : Option Pt) <;> rfl
  have coordinate : bytesToNat (reduceCoordinate bytes).data.tail =
      bytesToNat bytes.data.tail % secp256k1P := toNat_reduced bytes
  have long : ∀ bytes : Bytes 33, bytes.data.length ≠ 32 := by simp
  rw [Taproot.liftX, Taproot.liftX, if_neg (long _), if_neg (long _), if_pos (by simp),
    if_pos (by simp), head_reduced, coordinate]
  split
  · exact same _ false
  · exact same _ true
  · rfl

theorem addCommit_reduced (idx : UInt32) (sum : Option (Taproot.Point Pt)) (j : Nat) :
    Taproot.addCommit Pt (commits.map reduceCoordinate) idx sum j =
      Taproot.addCommit Pt commits idx sum j := by
  rw [Taproot.addCommit, Taproot.addCommit, itemAt, itemAt, List.getElem?_map, List.length_map]
  cases commits[j]? with
  | none => rfl
  | some commit =>
    rw [Option.map_some]
    dsimp only
    rw [ok_bind, ok_bind]
    exact liftX_reduced commit fun C => do
      let term := Taproot.fromSecpPoint (Taproot.powN idx.toNat j • C)
      let sum ← Taproot.elementAdd sum (some term)
      return some sum

/-- Only the residues of the x-coordinates matter to the Go library. -/
theorem verifyShare_reduced :
    Taproot.verifyShare Pt (commits.map reduceCoordinate) share threshold =
      Taproot.verifyShare Pt commits share threshold := by
  have rounds : Taproot.addCommit Pt (commits.map reduceCoordinate) share.idx =
      Taproot.addCommit Pt commits share.idx := by
    funext sum j
    exact addCommit_reduced share.idx sum j
  rw [Taproot.verifyShare, Taproot.verifyShare, rounds, List.length_map]

/-- What the Go library lifts is an encoding once it is reduced. -/
theorem lifted_reduced {bytes : Bytes 33} {p : Taproot.Point Pt}
    (lifted : Taproot.liftX bytes.data = .ok p) :
    ∃ C : Pt, liftX (reduceCoordinate bytes).data = .ok C := by
  have read := liftX_reduced bytes fun P : Pt => (.ok P : Result Pt)
  rw [lifted, ok_bind] at read
  obtain ⟨q, again, _⟩ := bind_ok read
  have plain : (reduceCoordinate bytes).data.head? ≠ some 0x05 := by
    intro compact
    rw [liftX_compact compact] at again
    cases again
  have less : (reduceCoordinate bytes).tail.toNat < secp256k1P := by
    rw [toNat_reduced]
    exact Nat.mod_lt _ (by decide)
  rcases @liftX_canonical Pt _ _ _ _ ⟨plain, less⟩ with ⟨C, found, _⟩ | ⟨_, failed⟩
  · exact ⟨C, found⟩
  · rw [again] at failed
    cases failed

/-- No share is accepted unless the reduced commitments decode. -/
theorem decoded_of_taproot (done : Taproot.verifyShare Pt commits share threshold = .ok true) :
    ∃ points : List Pt, Decoded (commits.map reduceCoordinate) threshold points := by
  obtain ⟨key, _, done⟩ := bind_ok done
  by_cases none : threshold = 0
  · rw [if_pos none] at done
    cases done
  rw [if_neg none] at done
  by_cases short : commits.length < threshold
  · rw [if_pos short] at done
    cases done
  rw [if_neg short] at done
  obtain ⟨sum, folded, _⟩ := bind_ok done
  refine exists_decoded (by simpa using short) fun j below => ?_
  obtain ⟨before, after, round⟩ := of_foldlM_ok folded j (List.mem_range.mpr below)
  obtain ⟨commit, read, round⟩ := bind_ok round
  obtain ⟨p, lifted, _⟩ := bind_ok round
  refine ⟨reduceCoordinate commit, ?_, lifted_reduced lifted⟩
  have inside : j < commits.length := by omega
  rw [itemAt, List.getElem?_eq_getElem inside, Except.ok.injEq] at read
  rw [itemAt, List.getElem?_map, List.getElem?_eq_getElem inside, read]
  rfl

/-! ## When a share is accepted -/

/-- The public key of the share is the point of its index. -/
def RightShare (share : SecretShare) (points : List Pt) : Prop :=
  scalarBaseMulti Pt (scalarFromBytes share.seckey) = vssPoint share.idx points

/-- It is the negative of that point, and not the point as well. -/
def NegatedShare (share : SecretShare) (points : List Pt) : Prop :=
  scalarBaseMulti Pt (scalarFromBytes share.seckey) = -vssPoint share.idx points ∧
    vssPoint share.idx points ≠ 0

theorem ne_neg {P : Pt} (nonzero : P ≠ 0) : P ≠ -P := by
  intro same
  have parity := Curve.yIsOdd_neg P nonzero
  rw [← same] at parity
  simp at parity

theorem not_negated_of_right (right : RightShare share points) : ¬ NegatedShare share points := by
  intro negated
  apply ne_neg negated.2
  rw [← negated.1]
  exact right.symm

/-- The public key is the point of the index up to sign. -/
theorem right_or_negated :
    RightShare share points ∨ NegatedShare share points ↔
      scalarBaseMulti Pt (scalarFromBytes share.seckey) = vssPoint share.idx points ∨
        scalarBaseMulti Pt (scalarFromBytes share.seckey) = -vssPoint share.idx points := by
  rw [RightShare, NegatedShare]
  by_cases zero : vssPoint share.idx points = 0
  · simp [zero]
  · simp [zero]

/-- Against no commitments only the zero share is right. -/
theorem right_nil : RightShare share ([] : List Pt) ↔ scalarFromBytes share.seckey = 0 := by
  rw [RightShare, vssPoint, vssTerms_nil, List.sum_nil, scalarBaseMulti_eq_zero]

theorem not_negated_nil : ¬ NegatedShare share ([] : List Pt) := by
  simp [NegatedShare, vssPoint]

theorem liftX_key (reduced : Reduced Pt) (finite : scalarFromBytes share.seckey ≠ 0) :
    Taproot.liftX (Taproot.scalarBaseMultiCT Pt share.seckey).data =
      .ok (Taproot.fromSecpPoint (scalarBaseMulti Pt (scalarFromBytes share.seckey))) := by
  have nonzero : scalarBaseMulti Pt (scalarFromBytes share.seckey) ≠ 0 :=
    scalarBaseMulti_ne_zero finite
  rw [← liftX_encoded reduced nonzero, ← serializePoint_fromSecpPoint nonzero]
  rfl

/-- The encoding of the identity is not that of a point. -/
theorem liftX_key_zero (apart : NoZeroAbscissa Pt) (zero : scalarFromBytes share.seckey = 0) :
    (Taproot.liftX (Taproot.scalarBaseMultiCT Pt share.seckey).data : Result (Taproot.Point Pt)) =
      .error (.err .invalidPoint) := by
  have identity : Taproot.scalarBaseMulti Pt (scalarFromBytes share.seckey) = ⟨0, (0 : Pt)⟩ := by
    rw [zero, Taproot.scalarBaseMulti, zero_smul, Taproot.fromSecpPoint,
      if_pos ((Curve.isIdentity_iff 0).mpr rfl)]
  have bytes : Taproot.scalarBaseMultiCT Pt share.seckey = Bytes.cons 0x02 (Bytes.ofNat 32 0) := by
    have even : Taproot.yBit (⟨0, 0⟩ : Taproot.Point Pt) = false := by
      rw [Taproot.yBit, (Curve.isIdentity_iff (0 : Pt)).mpr rfl]
      rfl
    rw [Taproot.scalarBaseMultiCT, identity, Taproot.serializePoint, even]
    rfl
  have missing : (Curve.decompress (Bytes.ofNat 32 0) false : Option Pt) = none := by
    cases found : (Curve.decompress (Bytes.ofNat 32 0) false : Option Pt) with
    | none => rfl
    | some P =>
      obtain ⟨nonzero, abscissa, _⟩ := (Curve.decompress_eq_some _ _ _).mp found
      exact absurd abscissa (apart P nonzero)
  have less : (Bytes.ofNat 32 0).toNat < secp256k1P := by decide
  rw [bytes, Taproot.liftX, if_neg (by simp), if_pos (by simp)]
  exact liftCoordinate_none less missing

/-- The Go library gets through: the secret is not zero, and the loop has no identity and no
compact commitment on its way. -/
def GoReads (commits : List (Bytes 33)) (share : SecretShare) (threshold : Nat) (points : List Pt) :
    Prop :=
  scalarFromBytes share.seckey ≠ 0 ∧ Summable commits threshold share.idx points

omit [Curve Pt] in
theorem Summable.vssPoint_ne_zero {idx : UInt32} (summable : Summable commits threshold idx points)
    (some_ : points ≠ []) : vssPoint idx points ≠ 0 := by
  have terms : vssTerms idx points ≠ [] := by simpa [vssTerms] using some_
  have nonzero := summable.2.sum_ne_zero terms
  rwa [zero_add] at nonzero

/-- Coordinates as numbers are equal if they are equal as bytes. -/
theorem fromSecpPoint_x_eq {P Q : Pt} (nonzeroP : P ≠ 0) (nonzeroQ : Q ≠ 0) :
    (Taproot.fromSecpPoint P).x = (Taproot.fromSecpPoint Q).x ↔ P = Q ∨ P = -Q := by
  rw [fromSecpPoint_of_ne nonzeroP, fromSecpPoint_of_ne nonzeroQ, ← Curve.affineX_eq_iff]
  constructor
  · intro same
    rw [← Bytes.ofNat_toNat (Curve.affineX P), ← Bytes.ofNat_toNat (Curve.affineX Q)]
    exact congrArg (Bytes.ofNat 32) same
  · intro same
    rw [same]

theorem taproot_verifyShare_iff (reduced : Reduced Pt) (apart : NoZeroAbscissa Pt)
    (decoded : Decoded commits threshold points) :
    Taproot.verifyShare Pt commits share threshold = .ok true ↔
      GoReads commits share threshold points ∧ points ≠ [] ∧
        (scalarBaseMulti Pt (scalarFromBytes share.seckey) = vssPoint share.idx points ∨
          scalarBaseMulti Pt (scalarFromBytes share.seckey) = -vssPoint share.idx points) := by
  rw [Taproot.verifyShare, GoReads]
  by_cases zero : scalarFromBytes share.seckey = 0
  · rw [liftX_key_zero apart zero]
    simp [zero]
  rw [liftX_key reduced zero, ok_bind]
  by_cases empty : points = []
  · have none : threshold = 0 := by rw [← decoded.length, empty, List.length_nil]
    rw [if_pos none]
    refine ⟨fun done => ?_, fun accepted => absurd empty accepted.2.1⟩
    cases done
  have some_ : threshold ≠ 0 := by
    rw [← decoded.length]
    exact fun none => empty (List.length_eq_zero_iff.mp none)
  rw [if_neg some_, if_neg (not_lt.mpr decoded.1)]
  obtain ⟨through, stopped⟩ := foldlM_addCommit_taproot reduced decoded share.idx
  by_cases summable : Summable commits threshold share.idx points
  · rw [through summable, ok_bind, sumSoFar, if_neg empty, Option.map_some,
      ← fromSecpPoint_x_eq (scalarBaseMulti_ne_zero zero) (summable.vssPoint_ne_zero empty)]
    show Except.ok (decide _) = Except.ok true ↔ _
    simp [zero, summable, empty]
  · rw [stopped summable]
    simp [summable]

/-! ## When verification is exact -/

section Exact

variable (Pt) (commits : List (Bytes 33)) (share : SecretShare) (threshold : Nat)

/-- The commitments are encodings, and the share is the right one. -/
def IsRight : Prop := ∃ points : List Pt, Decoded commits threshold points ∧ RightShare share points

def IsNegated : Prop :=
  ∃ points : List Pt, Decoded commits threshold points ∧ NegatedShare share points

/-- The commitments are encodings, and the Go library gets through. -/
def IsReadByGo : Prop :=
  ∃ points : List Pt, Decoded commits threshold points ∧ GoReads commits share threshold points

/-- One of the commitments is no encoding; reduced modulo the field prime all of them are, the Go
library gets through, and the share is right for these or negated. -/
def IsRightModulo : Prop :=
  (¬ ∃ points : List Pt, Decoded commits threshold points) ∧
    ∃ points : List Pt, Decoded (commits.map reduceCoordinate) threshold points ∧
      GoReads (commits.map reduceCoordinate) share threshold points ∧
        (RightShare share points ∨ NegatedShare share points)

/-- Both libraries accept the share if and only if it is right. -/
def VerifiedExactly : Prop :=
  (verifyShare Pt commits share threshold = .ok true ↔ IsRight Pt commits share threshold) ∧
    (Taproot.verifyShare Pt commits share threshold = .ok true ↔
      IsRight Pt commits share threshold)

end Exact

/-- The three comparisons, in terms of what is compared. -/
theorem accepts_iff {right negated zero empty reads : Prop} (apart : right → ¬ negated)
    (nil : empty → (right ↔ zero) ∧ ¬ negated) (finite : reads → ¬ zero) :
    ((¬ empty ∧ (right ∨ negated) ↔ right) ↔ ¬ negated ∧ (empty → ¬ zero)) ∧
    (((¬ empty ∧ (right ∨ negated) ↔ right) ∧ (reads ∧ ¬ empty ∧ (right ∨ negated) ↔ right)) ↔
      ¬ negated ∧ (right → reads)) ∧
    ((¬ empty ∧ (right ∨ negated) ↔ reads ∧ ¬ empty ∧ (right ∨ negated)) ↔
      (¬ empty → right ∨ negated → reads)) := by
  by_cases nothing : empty
  · -- Neither accepts, and only the zero share is right.
    obtain ⟨same, unnegated⟩ := nil nothing
    tauto
  · tauto

/-- What is no encoding is accepted by the Go library alone. -/
theorem taproot_accepts_undecoded (reduced : Reduced Pt) (apart : NoZeroAbscissa Pt)
    (undecoded : ¬ ∃ points : List Pt, Decoded commits threshold points) :
    Taproot.verifyShare Pt commits share threshold = .ok true ↔
      IsRightModulo Pt commits share threshold := by
  have some_ : threshold ≠ 0 := by
    rintro rfl
    exact undecoded ⟨[], decoded_zero commits⟩
  rw [← verifyShare_reduced, IsRightModulo]
  constructor
  · intro done
    -- Go reduces each abscissa first, so what it accepts decodes once it is reduced.
    obtain ⟨points, decoded⟩ := decoded_of_taproot (verifyShare_reduced.symm.trans done)
    obtain ⟨reads, _, key⟩ := (taproot_verifyShare_iff reduced apart decoded).mp done
    exact ⟨undecoded, points, decoded, reads, right_or_negated.mpr key⟩
  · rintro ⟨_, points, decoded, reads, key⟩
    refine (taproot_verifyShare_iff reduced apart decoded).mpr ⟨reads, ?_, right_or_negated.mp key⟩
    rintro rfl
    exact some_ decoded.length.symm

/-- The Rust crate is exact unless the share is the negative of the right one, or zero against
no commitments.  Both are if moreover the Go library gets through for the right share, and does
not take residues for encodings; and they accept the same shares if it gets through for the right
share and its negative, and does not. -/
theorem share_verification_exact_iff (reduced : Reduced Pt) (apart : NoZeroAbscissa Pt)
    (enough : threshold ≤ commits.length) (share : SecretShare) :
    ((verifyShare Pt commits share threshold = .ok true ↔ IsRight Pt commits share threshold) ↔
      ¬ IsNegated Pt commits share threshold ∧
        (threshold = 0 → scalarFromBytes share.seckey ≠ 0)) ∧
    (VerifiedExactly Pt commits share threshold ↔
      ¬ IsNegated Pt commits share threshold ∧
        (IsRight Pt commits share threshold → IsReadByGo Pt commits share threshold) ∧
          ¬ IsRightModulo Pt commits share threshold) ∧
    ((verifyShare Pt commits share threshold = .ok true ↔
        Taproot.verifyShare Pt commits share threshold = .ok true) ↔
      (threshold ≠ 0 → IsRight Pt commits share threshold ∨ IsNegated Pt commits share threshold →
        IsReadByGo Pt commits share threshold) ∧ ¬ IsRightModulo Pt commits share threshold) := by
  rw [VerifiedExactly]
  by_cases decodable : ∃ points : List Pt, Decoded commits threshold points
  case neg =>
    -- Without points nothing is right or negated, and the Rust crate fails.
    have none : ∀ p : List Pt → Prop, ¬ ∃ points, Decoded commits threshold points ∧ p points :=
      fun p ⟨points, decoded, _⟩ => decodable ⟨points, decoded⟩
    have right : ¬ IsRight Pt commits share threshold := none _
    have negated : ¬ IsNegated Pt commits share threshold := none _
    have some_ : threshold ≠ 0 := by
      rintro rfl
      exact decodable ⟨[], decoded_zero commits⟩
    have rust : verifyShare Pt commits share threshold ≠ .ok true := fun done =>
      decodable (decoded_of_verifyShare enough done)
    rw [taproot_accepts_undecoded reduced apart decodable]
    simp [right, negated, rust, some_]
  obtain ⟨points, decoded⟩ := decodable
  have decodes : ¬ IsRightModulo Pt commits share threshold := fun loose =>
    loose.1 ⟨points, decoded⟩
  rw [IsRight, IsNegated, IsReadByGo, decoded.exists_iff, decoded.exists_iff, decoded.exists_iff]
  -- What is left is propositional: both libraries are told by the right and the negated share.
  have rust : verifyShare Pt commits share threshold = .ok true ↔
      points ≠ [] ∧ (RightShare share points ∨ NegatedShare share points) := by
    rw [verifyShare_iff decoded, right_or_negated]
  have go : Taproot.verifyShare Pt commits share threshold = .ok true ↔
      GoReads commits share threshold points ∧ points ≠ [] ∧
        (RightShare share points ∨ NegatedShare share points) := by
    rw [taproot_verifyShare_iff reduced apart decoded, right_or_negated]
  have none : threshold = 0 ↔ points = [] := by rw [← decoded.length, List.length_eq_zero_iff]
  have nil : points = [] → (RightShare share points ↔ scalarFromBytes share.seckey = 0) ∧
      ¬ NegatedShare share points := by
    rintro rfl
    exact ⟨right_nil, not_negated_nil⟩
  rw [rust, go]
  simp only [ne_eq, none, decodes, not_false_eq_true, and_true]
  have finite : GoReads commits share threshold points → scalarFromBytes share.seckey ≠ 0 :=
    fun reads => reads.1
  exact accepts_iff not_negated_of_right nil finite

end Loop

/-! ## The negative of a share -/

theorem noZeroAbscissa_scalar : NoZeroAbscissa Scalar := by
  intro P nonzero same
  have zero : Curve.affineX (0 : Scalar) = Bytes.ofNat 32 0 := by decide +kernel
  rcases (Curve.affineX_eq_iff P 0).mp (same.trans zero.symm) with equal | equal
  · exact nonzero equal
  · exact nonzero (by rw [equal, neg_zero])

/-- The share at index one of the commitment to the generator, or of another multiple. -/
def shareOf (secret : Scalar) : SecretShare := ⟨1, scalarToBytes secret⟩

def generatorCommits : List (Bytes 33) := [encodePoint (1 : Scalar)]

theorem decoded_generator : Decoded generatorCommits 1 [(1 : Scalar)] := by
  refine ⟨le_refl 1, ?_⟩
  rw [generatorCommits, List.take_of_length_le (le_refl 1), List.mapM_cons,
    liftX_encodePoint one_ne_zero]
  rfl

theorem key_shareOf (secret : Scalar) :
    scalarBaseMulti Scalar (scalarFromBytes (shareOf secret).seckey) = secret := by
  rw [shareOf, scalarFromBytes_scalarToBytes]
  exact mul_one secret

theorem vssPoint_generator (idx : UInt32) : vssPoint idx [(1 : Scalar)] = 1 := by
  simp [vssPoint, vssTerms]

theorem goReads_generator {secret : Scalar} (nonzero : secret ≠ 0) :
    GoReads generatorCommits (shareOf secret) 1 [(1 : Scalar)] := by
  refine ⟨?_, ?_, ?_⟩
  · rwa [shareOf, scalarFromBytes_scalarToBytes]
  · intro commit listed
    rw [List.mem_singleton.mp listed]
    exact (canonical_encodePoint reduced_scalar 1).1
  · simp [vssTerms, PartialSums]

theorem isRight_generator {secret : Scalar} :
    IsRight Scalar generatorCommits (shareOf secret) 1 ↔ secret = 1 := by
  rw [IsRight, decoded_generator.exists_iff, RightShare, key_shareOf, vssPoint_generator]

/-- The right share is verified exactly. -/
theorem share_verification_exact_generator :
    VerifiedExactly Scalar generatorCommits (shareOf 1) 1 := by
  have right : RightShare (shareOf 1) [(1 : Scalar)] := by
    rw [RightShare, key_shareOf, vssPoint_generator]
  refine (share_verification_exact_iff reduced_scalar noZeroAbscissa_scalar (le_refl 1)
    (shareOf 1)).2.1.mpr ⟨?_, fun _ => ?_, fun loose => loose.1 ⟨_, decoded_generator⟩⟩
  · rw [IsNegated, decoded_generator.exists_iff]
    exact not_negated_of_right right
  · exact ⟨_, decoded_generator, goReads_generator one_ne_zero⟩

/-- Both libraries accept the negative of the right share. -/
theorem negated_share_accepted :
    verifyShare Scalar generatorCommits (shareOf (-1)) 1 = .ok true ∧
      Taproot.verifyShare Scalar generatorCommits (shareOf (-1)) 1 = .ok true ∧
      ¬ IsRight Scalar generatorCommits (shareOf (-1)) 1 := by
  have key : scalarBaseMulti Scalar (scalarFromBytes (shareOf (-1)).seckey) =
      -vssPoint (shareOf (-1)).idx [(1 : Scalar)] := by
    rw [key_shareOf, vssPoint_generator]
  have reads : GoReads generatorCommits (shareOf (-1)) 1 [(1 : Scalar)] :=
    goReads_generator (neg_ne_zero.mpr one_ne_zero)
  refine ⟨?_, ?_, ?_⟩
  · rw [verifyShare_iff decoded_generator]
    exact ⟨List.cons_ne_nil _ _, .inr key⟩
  · rw [taproot_verifyShare_iff reduced_scalar noZeroAbscissa_scalar decoded_generator]
    exact ⟨reads, List.cons_ne_nil _ _, .inr key⟩
  · rw [isRight_generator]
    exact (ne_neg one_ne_zero).symm

end Pomade.Go
