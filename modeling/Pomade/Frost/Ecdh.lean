import Pomade.Frost.Points
import Pomade.Frost.ScalarCurve
import Pomade.Frost.Sharing

/-! # Threshold ECDH

Every member of a quorum multiplies the point by its weighted share, with the weight from
its own list of the members.  The sum is the point multiplied by the secret.
-/

namespace Pomade.Frost

open Pomade.Lib Polynomial

section Ecdh

variable (Pt : Type) [AddCommGroup Pt] [Module Scalar Pt] [Curve Pt]

/-- The outputs of the members that hold the given shares.  A member knows the others from
its `view`. -/
def ecdhExchange (held : List SecretShare) (view : SecretShare → List UInt32) (pubkey : List UInt8) :
    Result (List PublicShare) :=
  held.mapM fun share => createEcdhShare Pt (view share) share pubkey

/-- At least `threshold` members with distinct nonzero indices that hold shares of `f`, each
of which lists them in an order of its own.  No share is zero: a share that is zero makes the
identity point. -/
structure Quorum (threshold : Nat) (f : Scalar[X]) (held : List SecretShare)
    (view : SecretShare → List UInt32) : Prop where
  enough : threshold ≤ held.length
  distinct : (held.map (·.idx)).Nodup
  positive : ∀ share ∈ held, share.idx ≠ 0
  shared : ∀ share ∈ held, IsShare f share
  nonzero : ∀ share ∈ held, f.eval (indexToScalar share.idx) ≠ 0
  listed : ∀ share ∈ held, (view share).Perm (held.map (·.idx))

variable {Pt} {threshold : Nat} {f : Scalar[X]} {held : List SecretShare}
variable {view : SecretShare → List UInt32} {pubkey : List UInt8} {P : Pt}

/-! ## What a member puts in -/

/-- The places of the members. -/
def memberPlaces (held : List SecretShare) : List Scalar := (held.map (·.idx)).map indexToScalar

/-- The weighted share of the member with an index. -/
noncomputable def contribution (f : Scalar[X]) (held : List SecretShare) (idx : UInt32) : Scalar :=
  weight (memberPlaces held) (indexToScalar idx) 0 * f.eval (indexToScalar idx)

theorem Quorum.places_nodup (quorum : Quorum threshold f held view) : (memberPlaces held).Nodup :=
  quorum.distinct.map indexToScalar_injective

theorem Quorum.contribution_ne_zero (quorum : Quorum threshold f held view) {share : SecretShare}
    (member : share ∈ held) : contribution f held share.idx ≠ 0 := by
  refine mul_ne_zero (weight_ne_zero ?_) (quorum.nonzero share member)
  intro q inside _ zero
  obtain ⟨idx, listed, rfl⟩ := List.mem_map.mp inside
  obtain ⟨other, holder, rfl⟩ := List.mem_map.mp listed
  exact quorum.positive other holder (indexToScalar_eq_zero.mp zero)

/-- The contributions add up to the secret. -/
theorem Quorum.sum_contributions (quorum : Quorum threshold f held view)
    (small : f.degree < threshold) :
    (held.map fun share => contribution f held share.idx).sum = f.eval 0 := by
  have size : f.degree < (memberPlaces held).length := by
    apply lt_of_lt_of_le small
    rw [memberPlaces, List.length_map, List.length_map]
    exact_mod_cast quorum.enough
  rw [← sum_weight quorum.places_nodup size, memberPlaces, List.map_map, List.map_map]
  rfl

theorem createEcdhShare_eq (quorum : Quorum threshold f held view) (lifted : liftX pubkey = .ok P)
    {share : SecretShare} (member : share ∈ held) :
    createEcdhShare Pt (view share) share pubkey =
      .ok ⟨share.idx, encodePoint (contribution f held share.idx • P)⟩ := by
  have nodup : (((view share).filter fun i => decide (i ≠ share.idx)).map indexToScalar).Nodup :=
    (((quorum.listed share member).nodup_iff.mpr quorum.distinct).filter _).map indexToScalar_injective
  have coefficient := calcLagrangeCoeff_eq (p := indexToScalar share.idx) (x := 0) nodup
  have known : weight ((view share).map indexToScalar) (indexToScalar share.idx) 0 =
      weight (memberPlaces held) (indexToScalar share.idx) 0 :=
    weight_perm ((quorum.listed share member).map _)
  have point : contribution f held share.idx • P ≠ 0 :=
    smul_ne_zero (quorum.contribution_ne_zero member) (ne_zero_of_liftX lifted)
  rw [others_eq, weight_others, known] at coefficient
  unfold createEcdhShare
  rw [lifted, ok_bind]
  dsimp only
  rw [others_eq, coefficient, ok_bind, (quorum.shared share member).value]
  show (serializePoint (contribution f held share.idx • P) >>= _) = _
  rw [serializePoint_eq point]
  rfl

/-! ## What the sum is -/

theorem foldlM_elementAdd {point : PublicShare → Pt} {shares : List PublicShare}
    (decoded : ∀ s ∈ shares, liftX s.pubkey.data = .ok (point s)) (start : Pt) :
    shares.foldlM (fun (sum : Option Pt) share => do
      let pt : Pt ← liftX share.pubkey.data
      let next ← elementAdd sum (some pt)
      return some next) (some start) = .ok (some (start + (shares.map point).sum)) := by
  induction shares generalizing start with
  | nil => rw [List.map_nil, List.sum_nil, add_zero]; rfl
  | cons s shares ih =>
    rw [List.forall_mem_cons] at decoded
    rw [List.foldlM_cons, decoded.1, List.map_cons, List.sum_cons, ← add_assoc]
    exact ih decoded.2 (start + point s)

theorem deriveEcdhSecret_eq {point : PublicShare → Pt} {shares : List PublicShare}
    (nonempty : shares ≠ []) (decoded : ∀ s ∈ shares, liftX s.pubkey.data = .ok (point s)) :
    deriveEcdhSecret Pt shares = serializePoint (shares.map point).sum := by
  cases shares with
  | nil => exact absurd rfl nonempty
  | cons s shares =>
    rw [List.forall_mem_cons] at decoded
    have sum := foldlM_elementAdd decoded.2 (point s)
    rw [deriveEcdhSecret, List.foldlM_cons, decoded.1, ok_bind]
    show (List.foldlM _ (some (point s)) shares >>= _) = _
    rw [sum]
    rfl

/-- A quorum computes the secret multiple of the point, in whatever order its shares are
added up. -/
theorem Quorum.derive (quorum : Quorum threshold f held view) (small : f.degree < threshold)
    (secret : f.eval 0 ≠ 0) (lifted : liftX pubkey = .ok P) :
    ∃ shares, ecdhExchange Pt held view pubkey = .ok shares ∧
      ∀ arranged : List PublicShare, arranged.Perm shares →
        deriveEcdhSecret Pt arranged = .ok (encodePoint (f.eval 0 • P)) := by
  refine ⟨_, mapM_ok fun share member => createEcdhShare_eq quorum lifted member, ?_⟩
  intro arranged perm
  have decoded : ∀ s ∈ arranged, liftX s.pubkey.data = .ok (contribution f held s.idx • P) := by
    intro s member
    obtain ⟨share, holder, rfl⟩ := List.mem_map.mp (perm.mem_iff.mp member)
    exact liftX_encodePoint
      (smul_ne_zero (quorum.contribution_ne_zero holder) (ne_zero_of_liftX lifted))
  have sum : (arranged.map fun s => contribution f held s.idx • P).sum = f.eval 0 • P := by
    rw [(perm.map _).sum_eq, List.map_map, ← quorum.sum_contributions small, List.sum_smul,
      List.map_map]
    rfl
  have nonempty : arranged ≠ [] := by
    rintro rfl
    apply smul_ne_zero secret (ne_zero_of_liftX lifted)
    rw [← sum]
    rfl
  rw [deriveEcdhSecret_eq nonempty decoded, sum]
  exact serializePoint_eq (smul_ne_zero secret (ne_zero_of_liftX lifted))

/-- Any two quorums compute the same point, the secret multiple. -/
theorem threshold_ecdh {held' : List SecretShare} {view' : SecretShare → List UInt32}
    (small : f.degree < threshold) (secret : f.eval 0 ≠ 0) (lifted : liftX pubkey = .ok P)
    (quorum : Quorum threshold f held view) (quorum' : Quorum threshold f held' view') :
    ∃ shares shares', ecdhExchange Pt held view pubkey = .ok shares ∧
      ecdhExchange Pt held' view' pubkey = .ok shares' ∧
      ∀ arranged arranged' : List PublicShare, arranged.Perm shares → arranged'.Perm shares' →
        deriveEcdhSecret Pt arranged = .ok (encodePoint (f.eval 0 • P)) ∧
        deriveEcdhSecret Pt arranged' = deriveEcdhSecret Pt arranged := by
  obtain ⟨shares, made, derived⟩ := quorum.derive small secret lifted
  obtain ⟨shares', made', derived'⟩ := quorum'.derive small secret lifted
  refine ⟨shares, shares', made, made', ?_⟩
  intro arranged arranged' perm perm'
  rw [derived arranged perm, derived' arranged' perm']
  exact ⟨rfl, rfl⟩

/-- Members holding shares of a polynomial given by its coefficients, all with one list of
the members. -/
theorem quorum_shareAt {coeffs : List Scalar} {indices listed : List UInt32}
    (enough : threshold ≤ indices.length) (distinct : indices.Nodup)
    (positive : ∀ idx ∈ indices, idx ≠ 0)
    (nonzero : ∀ idx ∈ indices, horner coeffs (indexToScalar idx) ≠ 0) (perm : listed.Perm indices) :
    Quorum threshold (listPolynomial coeffs) (indices.map (shareAt coeffs)) fun _ => listed := by
  have back : (indices.map (shareAt coeffs)).map (·.idx) = indices := by
    rw [List.map_map]
    exact List.map_id _
  refine ⟨by rwa [List.length_map], by rwa [back], ?_, ?_, ?_, fun _ _ => by rwa [back]⟩
  · simpa using positive
  · intro share member
    obtain ⟨idx, _, rfl⟩ := List.mem_map.mp member
    exact isShare_shareAt coeffs idx
  · simpa [eval_listPolynomial] using nonzero

/-- Members 1 and 2, and members 3 and 1, of the sharing `5 + x`. -/
theorem threshold_ecdh_pairs :
    ∃ shares shares',
      ecdhExchange Scalar ([1, 2].map (shareAt [5, 1])) (fun _ => [2, 1])
        (encodePoint (1 : Scalar)).data = .ok shares ∧
      ecdhExchange Scalar ([3, 1].map (shareAt [5, 1])) (fun _ => [3, 1])
        (encodePoint (1 : Scalar)).data = .ok shares' ∧
      deriveEcdhSecret Scalar shares.reverse = .ok (encodePoint (5 : Scalar)) ∧
      deriveEcdhSecret Scalar shares' = deriveEcdhSecret Scalar shares.reverse := by
  have value : (listPolynomial ([5, 1] : List Scalar)).eval 0 = 5 := by
    rw [eval_listPolynomial, horner_zero]
    rfl
  have point : (5 : Scalar) • (1 : Scalar) = 5 := mul_one 5
  have one : horner ([5, 1] : List Scalar) (indexToScalar 1) ≠ 0 := by decide +kernel
  have two : horner ([5, 1] : List Scalar) (indexToScalar 2) ≠ 0 := by decide +kernel
  have three : horner ([5, 1] : List Scalar) (indexToScalar 3) ≠ 0 := by decide +kernel
  have first : Quorum 2 (listPolynomial [5, 1]) ([1, 2].map (shareAt [5, 1])) fun _ => [2, 1] :=
    quorum_shareAt (by decide) (by decide) (by simp) (by simp [one, two]) (List.Perm.swap ..)
  have second : Quorum 2 (listPolynomial [5, 1]) ([3, 1].map (shareAt [5, 1])) fun _ => [3, 1] :=
    quorum_shareAt (by decide) (by decide) (by simp) (by simp [one, three]) (List.Perm.refl _)
  have lifted : liftX (encodePoint (1 : Scalar)).data = .ok (1 : Scalar) :=
    liftX_encodePoint one_ne_zero
  obtain ⟨shares, shares', made, made', derived⟩ := threshold_ecdh
    (degree_listPolynomial [5, 1]) (by rw [value]; decide +kernel) lifted first second
  obtain ⟨secret, same⟩ := derived shares.reverse shares' (List.reverse_perm _) (List.Perm.refl _)
  rw [value, point] at secret
  exact ⟨shares, shares', made, made', secret, same⟩

end Ecdh

end Pomade.Frost
