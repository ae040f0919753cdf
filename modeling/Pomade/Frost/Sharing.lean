import Pomade.Frost.Shares
import Pomade.Lib.Interpolation
import Pomade.Lib.Traverse

/-! # Sharing a secret

A sharing is a polynomial `f`: the secret is its value at zero and the share of a member its
value at the member's index.  What the functions of `Pomade.Frost.Shares` do is told in
these terms: any `t` shares of a polynomial of degree below `t` give the secret back, a
share can be computed anew from any `t` others, and adding polynomials that vanish at zero
leaves the secret as it is.
-/

namespace Pomade.Frost

open Pomade.Lib Polynomial

/-! ## Loops that do not fail -/

section Loops

variable {α β : Type}

@[simp] theorem ok_bind (a : α) (f : α → Result β) : ((.ok a : Result α) >>= f) = f a := rfl

@[simp] theorem error_bind (fault : Fault) (f : α → Result β) :
    ((.error fault : Result α) >>= f) = .error fault := rfl

theorem bind_ok {x : Result α} {f : α → Result β} {b : β} (done : x >>= f = .ok b) :
    ∃ a, x = .ok a ∧ f a = .ok b := by
  cases x with
  | error fault => cases done
  | ok a => exact ⟨a, rfl, done⟩

theorem foldlM_ok {f : β → α → Result β} {g : β → α → β} {l : List α} (start : β)
    (each : ∀ b, ∀ a ∈ l, f b a = .ok (g b a)) : l.foldlM f start = .ok (l.foldl g start) := by
  induction l generalizing start with
  | nil => rfl
  | cons a l ih =>
    rw [List.foldlM_cons, each start a List.mem_cons_self]
    exact ih (g start a) fun b a' member => each b a' (List.mem_cons_of_mem _ member)

theorem foldl_add_map [AddCommMonoid β] (f : α → β) (l : List α) (start : β) :
    l.foldl (fun sum a => sum + f a) start = start + (l.map f).sum := by
  induction l generalizing start with
  | nil => simp
  | cons a l ih => rw [List.foldl_cons, ih, List.map_cons, List.sum_cons, add_assoc]

end Loops

/-! ## Interpolation -/

section Interpolation

variable {l : List Scalar} {p x : Scalar}

theorem isUniqueSet_of_nodup (nodup : l.Nodup) : isUniqueSet l = .ok () := by
  rw [isUniqueSet, if_pos]
  intro x member
  exact List.count_eq_one_of_mem nodup member

theorem scalarInvert_of_ne_zero {a : Scalar} (nonzero : a ≠ 0) : scalarInvert a = .ok a⁻¹ :=
  if_neg nonzero

/-- The members but for the holder of the share, as the code lists them. -/
theorem others_eq (l : List UInt32) (idx : UInt32) :
    (l.filter fun i => decide (i ≠ idx)).map indexToScalar =
      others (l.map indexToScalar) (indexToScalar idx) := by
  have same : (l.filter fun i => decide (i ≠ idx)) =
      l.filter ((fun q => decide (q ≠ indexToScalar idx)) ∘ indexToScalar) := by
    apply List.filter_congr
    intro i _
    simp only [Function.comp_apply, indexToScalar_injective.ne_iff]
  rw [others, List.filter_map, same]

theorem calcLagrangeCoeff_eq (nodup : l.Nodup) : calcLagrangeCoeff l p x = .ok (weight l p x) := by
  have inverse : scalarInvert ((others l p).map fun q => p + -q).prod =
      .ok (((others l p).map fun q => p + -q).prod)⁻¹ := by
    apply scalarInvert_of_ne_zero
    simpa only [← sub_eq_add_neg] using denominator_ne_zero
  rw [calcLagrangeCoeff, isUniqueSet_of_nodup nodup]
  show (scalarInvert ((others l p).map fun q => p + -q).prod >>= fun inv =>
    pure (((others l p).map fun q => x + -q).prod * inv)) = _
  rw [inverse]
  simp only [← sub_eq_add_neg]
  rfl

theorem interpolateX_eq (nodup : l.Nodup) (member : p ∈ l) : interpolateX l p = .ok (weight l p 0) := by
  have inverse : scalarInvert ((others l p).map fun q => q + -p).prod =
      .ok (((others l p).map fun q => q + -p).prod)⁻¹ := by
    apply scalarInvert_of_ne_zero
    apply prod_map_ne_zero
    intro q other
    rw [← sub_eq_add_neg]
    exact sub_ne_zero.mpr (mem_others.mp other).2
  have included : isIncluded l p = .ok () := if_pos member
  rw [interpolateX, included, isUniqueSet_of_nodup nodup, ← weight_neg]
  show (scalarInvert ((others l p).map fun q => q + -p).prod >>= fun inv =>
    pure ((others l p).prod * inv)) = _
  rw [inverse]
  simp only [← sub_eq_add_neg, sub_zero, List.map_id']
  rfl

theorem interpolateRoot_eq {points : List (Scalar × Scalar)} (nodup : (points.map Prod.fst).Nodup) :
    interpolateRoot points =
      .ok ((points.map fun point => weight (points.map Prod.fst) point.1 0 * point.2).sum) := by
  have rounds := foldlM_ok (l := points) (0 : Scalar)
    (f := fun p point => do
      let delta ← interpolateX (points.map Prod.fst) point.1
      return p + delta * point.2)
    (g := fun p point => p + weight (points.map Prod.fst) point.1 0 * point.2) (by
      intro p point member
      rw [interpolateX_eq nodup (List.mem_map_of_mem member)]
      rfl)
  rw [interpolateRoot]
  exact rounds.trans (by rw [foldl_add_map, zero_add])

theorem evaluateX_eq (coeffs : List Scalar) (nonzero : x ≠ 0) :
    evaluateX coeffs x = .ok (horner coeffs x) := by
  rw [evaluateX, if_neg nonzero, List.foldl_reverse]
  rfl

end Interpolation

/-! ## Shares of a polynomial -/

/-- The share of the secret `f(0)` that belongs to its index. -/
def IsShare (f : Scalar[X]) (share : SecretShare) : Prop :=
  share.seckey = scalarToBytes (f.eval (indexToScalar share.idx))

section Shares

variable {f g : Scalar[X]} {shares : List SecretShare}

theorem IsShare.value {share : SecretShare} (isShare : IsShare f share) :
    scalarFromBytes share.seckey = f.eval (indexToScalar share.idx) := by
  rw [isShare, scalarFromBytes_scalarToBytes]

/-- Two shares of one polynomial with the same index are the same. -/
theorem IsShare.eq {share share' : SecretShare} (left : IsShare f share) (right : IsShare f share')
    (same : share.idx = share'.idx) : share = share' := by
  obtain ⟨idx, seckey⟩ := share
  obtain ⟨idx', seckey'⟩ := share'
  cases same
  cases Eq.trans left right.symm
  rfl

theorem nodup_idx (shared : ∀ share ∈ shares, IsShare f share) (nodup : shares.Nodup) :
    (shares.map (·.idx)).Nodup := by
  apply nodup.map_on
  intro share member share' member' same
  exact (shared share member).eq (shared share' member') same

/-- Enough shares of a polynomial give its value at zero. -/
theorem deriveSharesSecret_eq (shared : ∀ share ∈ shares, IsShare f share) (nodup : shares.Nodup)
    (small : f.degree < shares.length) :
    deriveSharesSecret shares = .ok (scalarToBytes (f.eval 0)) := by
  have places : (shares.map fun s => indexToScalar s.idx).Nodup := by
    have := (nodup_idx shared nodup).map indexToScalar_injective
    rwa [List.map_map] at this
  have firsts : (shares.map fun s => (indexToScalar s.idx, scalarFromBytes s.seckey)).map Prod.fst =
      shares.map fun s => indexToScalar s.idx := by
    rw [List.map_map]
    rfl
  have sum : ((shares.map fun s => (indexToScalar s.idx, scalarFromBytes s.seckey)).map fun point =>
      weight (shares.map fun s => indexToScalar s.idx) point.1 0 * point.2).sum = f.eval 0 := by
    rw [← sum_weight places (by rwa [List.length_map]) 0, List.map_map, List.map_map]
    congr 1
    apply List.map_congr_left
    intro share member
    simp only [Function.comp_apply, (shared share member).value]
  rw [deriveSharesSecret, interpolateRoot_eq (by rwa [firsts]), firsts]
  show Except.ok (scalarToBytes _) = _
  rw [sum]

end Shares

/-! ## Creating shares -/

section Creating

variable {coeffs : List Scalar}

/-- The share with an index, of the polynomial with given coefficients. -/
def shareAt (coeffs : List Scalar) (idx : UInt32) : SecretShare where
  idx := idx
  seckey := scalarToBytes (horner coeffs (indexToScalar idx))

@[simp] theorem shareAt_idx (coeffs : List Scalar) (idx : UInt32) : (shareAt coeffs idx).idx = idx :=
  rfl

theorem isShare_shareAt (coeffs : List Scalar) (idx : UInt32) :
    IsShare (listPolynomial coeffs) (shareAt coeffs idx) := by
  rw [IsShare, eval_listPolynomial]
  rfl

/-- The indices that shares are created for. -/
def shareIndices (count : UInt32) : List UInt32 := (List.range' 1 count.toNat).map UInt32.ofNat

theorem toNat_of_mem_range {count : UInt32} {i : Nat} (member : i ∈ List.range' 1 count.toNat) :
    (UInt32.ofNat i).toNat = i ∧ 1 ≤ i := by
  obtain ⟨lower, upper⟩ := List.mem_range'_1.mp member
  have bound := count.toNat_lt
  have small : i < UInt32.size := by
    rw [UInt32.size]
    omega
  exact ⟨UInt32.toNat_ofNat_of_lt' small, lower⟩

theorem ne_zero_of_mem_shareIndices {count idx : UInt32} (member : idx ∈ shareIndices count) :
    idx ≠ 0 := by
  obtain ⟨i, inside, same⟩ := List.mem_map.mp member
  obtain ⟨value, positive⟩ := toNat_of_mem_range inside
  rintro rfl
  rw [same] at value
  have : (0 : UInt32).toNat = 0 := rfl
  omega

theorem createShares_eq (coeffs : List Scalar) (count : UInt32) :
    createShares coeffs count = .ok ((shareIndices count).map (shareAt coeffs)) := by
  rw [shareIndices, List.map_map]
  apply mapM_ok
  intro i member
  have nonzero : indexToScalar (UInt32.ofNat i) ≠ 0 := by
    rw [Ne, indexToScalar_eq_zero]
    exact ne_zero_of_mem_shareIndices (List.mem_map_of_mem member)
  dsimp only
  rw [evaluateX_eq coeffs nonzero]
  rfl

theorem createShareCoeffs_length (secrets : List (Bytes 32)) (threshold : Nat)
    (random : Nat → Bytes 32) : (createShareCoeffs secrets threshold random).length = threshold := by
  rw [createShareCoeffs, List.length_map, List.length_range]

/-- The first secret is the value at zero. -/
theorem horner_createShareCoeffs (first : Bytes 32) (rest : List (Bytes 32)) (threshold : Nat)
    (random : Nat → Bytes 32) :
    horner (createShareCoeffs (first :: rest) (threshold + 1) random) 0 = scalarFromBytes first := by
  rw [horner_zero, createShareCoeffs, List.range_succ_eq_map]
  rfl

theorem scalarToBytes_scalarFromBytes (bytes : Bytes 32) :
    scalarToBytes (scalarFromBytes bytes) = Bytes.ofNat 32 (bytes.toNat % N) := by
  rw [scalarToBytes, scalarFromBytes, modN, ZMod.val_natCast]

/-- Any `t` shares of `t` secrets give the first secret back, modulo the group order. -/
theorem shamir_round_trip (first : Bytes 32) (rest : List (Bytes 32)) (count : UInt32)
    (random : Nat → Bytes 32) :
    ∃ shares, createShares (createShareCoeffs (first :: rest) (rest.length + 1) random) count = .ok shares ∧
      shares.length = count.toNat ∧
      ∀ subset : List SecretShare, subset.Nodup → subset ⊆ shares → rest.length + 1 ≤ subset.length →
        deriveSharesSecret subset = .ok (Bytes.ofNat 32 (first.toNat % N)) := by
  refine ⟨_, createShares_eq _ count, ?_, ?_⟩
  · rw [List.length_map, shareIndices, List.length_map, List.length_range']
  intro subset nodup within enough
  set coeffs := createShareCoeffs (first :: rest) (rest.length + 1) random with coeffs_eq
  have shared : ∀ share ∈ subset, IsShare (listPolynomial coeffs) share := by
    intro share member
    obtain ⟨idx, _, same⟩ := List.mem_map.mp (within member)
    rw [← same]
    exact isShare_shareAt coeffs idx
  have small : (listPolynomial coeffs).degree < subset.length := by
    apply lt_of_lt_of_le (degree_listPolynomial coeffs)
    rw [coeffs_eq, createShareCoeffs_length]
    exact_mod_cast enough
  rw [deriveSharesSecret_eq shared nodup small, eval_listPolynomial, coeffs_eq,
    horner_createShareCoeffs, scalarToBytes_scalarFromBytes]

/-- The last and the first of three shares. -/
theorem shamir_round_trip_pair :
    ∃ a b c : SecretShare,
      createShares (createShareCoeffs [Bytes.ofNat 32 3, Bytes.ofNat 32 5] 2 fun _ => Bytes.ofNat 32 0) 3 =
        .ok [a, b, c] ∧
      deriveSharesSecret [c, a] = .ok (Bytes.ofNat 32 3) := by
  obtain ⟨shares, made, _, recovers⟩ :=
    shamir_round_trip (Bytes.ofNat 32 3) [Bytes.ofNat 32 5] 3 fun _ => Bytes.ofNat 32 0
  have listed := made.symm.trans (createShares_eq _ 3)
  have indices : shareIndices 3 = [1, 2, 3] := by decide
  rw [indices] at listed
  cases listed
  refine ⟨_, _, _, made, (recovers _ ?_ ?_ (by simp)).trans (by decide +kernel)⟩
  · rw [List.nodup_cons, List.mem_singleton]
    exact ⟨fun same => absurd (congrArg SecretShare.idx same) (by decide), List.nodup_singleton _⟩
  · intro share member
    simp only [List.mem_cons, List.not_mem_nil, or_false] at member
    rcases member with rfl | rfl <;> simp

end Creating

end Pomade.Frost
