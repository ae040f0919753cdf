import Pomade.Frost.NonceOrder
import Pomade.Frost.SignSession
import Pomade.Go.FinalSignature
import Pomade.Go.PointStates

/-! # Partial signatures and their sum

The second half of `sign.rs`: a partial signature is verified by itself, and the sum of the
partial signatures is verified as a signature of BIP340.  Both are told in points.  What a
partial signature should be is a point for each member, and the points of all members sum up to
what BIP340 asks for.
-/

namespace Pomade.Frost

open Pomade.Lib Polynomial
open Pomade.Go (secp256k1P Reduced NoZeroAbscissa Bip340 bip340Challenge rBytes sBytes tweakStep
  bindFactor)

/-! ## Schnorr signatures of the `k256` crate -/

/-- `schnorr::Signature` and `VerifyingKey`, which holds the point of the key. -/
class Schnorr (Pt : Type) where
  Signature : Type
  tryFrom : Bytes 64 → Option Signature
  verifyRaw : Pt → List UInt8 → Signature → Bool

/-- The halves of a signature are a field element and a scalar, neither of them zero. -/
def HalvesInRange (signature : Bytes 64) : Prop :=
  (0 < (rBytes signature).toNat ∧ (rBytes signature).toNat < secp256k1P) ∧
    0 < (sBytes signature).toNat ∧ (sBytes signature).toNat < N

instance (signature : Bytes 64) : Decidable (HalvesInRange signature) :=
  inferInstanceAs (Decidable (_ ∧ _))

/-- What the crate documents: a signature is read if its halves are in range, and `verify_raw` is
the verification of BIP340, the message not being hashed before. -/
class LawfulSchnorr (Pt : Type) [AddCommGroup Pt] [Module Scalar Pt] [Curve Pt] [Sha2]
    [Schnorr Pt] : Prop where
  tryFrom_isSome (signature : Bytes 64) :
    (Schnorr.tryFrom signature : Option (Schnorr.Signature Pt)).isSome = true ↔
      HalvesInRange signature
  verifyRaw_iff {x : Bytes 32} {key : Pt} {signature : Bytes 64} {read : Schnorr.Signature Pt}
    (message : List UInt8) (decoded : Curve.decompress x false = some key)
    (parsed : Schnorr.tryFrom signature = some read) :
    Schnorr.verifyRaw key message read = true ↔
      Bip340 Pt x message (rBytes signature) (sBytes signature)

section Code

variable (Pt : Type) [AddCommGroup Pt] [Module Scalar Pt] [Curve Pt] [Sha2]

/-- Aggregate partial signatures into a final BIP340 Schnorr signature. -/
def combinePartialSigs (ctx : GroupSigningCtx Pt) (psigs : List ShareSignature) :
    Result (Bytes 64) := do
  let commitPrefix := getGroupPrefix ctx.pnonces ctx.groupPk ctx.message
  let groupBinders := getGroupBinders ctx.pnonces commitPrefix
  let groupPnonce ← getGroupPubnonce Pt ctx.pnonces groupBinders
  let ps := (psigs.map fun s => scalarFromBytes s.psig).foldl (fun acc s => acc + s) 0
  let twk := ctx.challenge * ctx.groupPt.parity * ctx.groupPt.tweak
  return groupPnonce.tail.append (scalarToBytes (ps + twk))

/-- Verify a partial signature from one participant. -/
def verifyPartialSig (ctx : GroupSigningCtx Pt) (pnonce : PublicNonce) (sharePk : Bytes 33)
    (sharePsig : Bytes 32) : Result Bool := do
  let factor ← getBindFactor ctx.bindFactors pnonce.idx
  let binder := scalarFromBytes factor
  let hiddenElem : Pt ← liftX pnonce.hiddenPn.data
  let binderElem : Pt ← liftX pnonce.binderPn.data
  let publicElem : Pt ← liftX sharePk.data
  let rElem : Pt ← liftX ctx.groupPn.data
  let hiddenElem := if hasEvenY rElem then hiddenElem else -hiddenElem
  let binderElem := if hasEvenY rElem then binderElem else -binderElem
  let commitElem := scalarMulti binderElem binder
  let nonceElem ← elementAdd (some hiddenElem) (some commitElem)
  let indexes := ctx.indexes.map indexToScalar
  let lambda ← interpolateX indexes (indexToScalar pnonce.idx)
  let state := ctx.groupPt.parity * ctx.groupPt.state
  let chal := ctx.challenge * lambda * state
  let sg := scalarBaseMulti Pt (scalarFromBytes sharePsig)
  let pki := scalarMulti publicElem chal
  let r ← elementAdd (some nonceElem) (some pki)
  -- x-coordinates are compared
  return decide (Curve.affineX sg = Curve.affineX r)

/-- Verify a final aggregated BIP340 Schnorr signature.  Of the context it reads the key. -/
def verifyFinalSig [Schnorr Pt] (groupPk : Bytes 33) (message : List UInt8)
    (signature : Bytes 64) : Result Bool :=
  match (Curve.decompress groupPk.tail false : Option Pt) with
  | none => .error (.err .invalidPoint)
  | some key =>
    match (Schnorr.tryFrom signature : Option (Schnorr.Signature Pt)) with
    | none => .error (.err .invalidPoint)
    | some read => .ok (Schnorr.verifyRaw key message read)

end Code

/-! ## The context in points -/

section Contexts

variable {Pt : Type} [AddCommGroup Pt] [Module Scalar Pt] [Curve Pt]

theorem parityOf_smul (P Q : Pt) : parityOf P • Q = if hasEvenY P then Q else -Q := by
  rw [parityOf]
  cases hasEvenY P with
  | false => simp
  | true => simp

variable [Sha2]

/-- What a member adds to the group nonce. -/
def nonceShare (bindPrefix : List UInt8) (pn : PublicNonce) : Pt :=
  (nonceTerm Pt (bindFactor bindPrefix pn.idx) pn).toOption.getD 0

/-- What a context is made of: `K` is the group key before the tweaks, and `R` is the group
nonce. -/
structure ContextPoints (ctx : GroupSigningCtx Pt) (K R : Pt) : Prop where
  key : ctx.groupPt.point = ctx.groupPt.state • K + ctx.groupPt.tweak • Curve.generator
  parity : ctx.groupPt.parity = parityOf ctx.groupPt.point
  keyFinite : ctx.groupPt.point ≠ 0
  groupPk : ctx.groupPk = encodePoint ctx.groupPt.point
  bindPrefix : ctx.bindPrefix = getGroupPrefix ctx.pnonces ctx.groupPk ctx.message
  bindFactors : ctx.bindFactors = getGroupBinders ctx.pnonces ctx.bindPrefix
  terms : ∀ pn ∈ ctx.pnonces, ∃ T, nonceTerm Pt (bindFactor ctx.bindPrefix pn.idx) pn = .ok T
  nonce : R = (ctx.pnonces.map (nonceShare ctx.bindPrefix)).sum
  nonceFinite : R ≠ 0
  groupPn : ctx.groupPn = encodePoint R
  challenge : ctx.challenge = bip340Challenge (Curve.affineX ctx.groupPt.point) (Curve.affineX R)
    ctx.message
  indexes : ctx.indexes = ctx.pnonces.map (·.idx)

omit [Sha2] in
/-- The loop adds up what the members add. -/
theorem foldlM_addPubnonce {binders : List BindFactor} {factors : UInt32 → Bytes 32}
    {pnonces : List PublicNonce} (found : ∀ pn ∈ pnonces,
      getBindFactor binders pn.idx = .ok (factors pn.idx)) {acc out : Option Pt} :
    pnonces.foldlM (addPubnonce Pt binders) acc = .ok out ↔
      ∃ terms, pnonces.mapM (fun pn => nonceTerm Pt (factors pn.idx) pn) = .ok terms ∧
        out = if pnonces = [] then acc else some (acc.getD 0 + terms.sum) := by
  induction pnonces generalizing acc with
  | nil => simp [eq_comm, pure, Except.pure]
  | cons pn pnonces ih =>
    rw [List.forall_mem_cons] at found
    rw [List.foldlM_cons, addPubnonce_eq found.1, List.mapM_cons]
    cases term : nonceTerm Pt (factors pn.idx) pn with
    | error fault => simp
    | ok T =>
      simp only [ok_bind, ih found.2, List.cons_ne_nil, if_false]
      constructor
      · rintro ⟨terms, rest, rfl⟩
        refine ⟨T :: terms, by rw [rest]; rfl, ?_⟩
        by_cases last : pnonces = []
        · subst last
          cases rest
          simp
        · simp [last, add_assoc]
      · rintro ⟨_, whole, rfl⟩
        obtain ⟨terms, rest, same⟩ := bind_ok whole
        cases same
        refine ⟨terms, rest, ?_⟩
        by_cases last : pnonces = []
        · subst last
          cases rest
          simp
        · simp [last, add_assoc]

theorem mapM_nonceTerm {bindPrefix : List UInt8} {pnonces : List PublicNonce} {terms : List Pt}
    (done : pnonces.mapM (fun pn => nonceTerm Pt (bindFactor bindPrefix pn.idx) pn) = .ok terms) :
    (∀ pn ∈ pnonces, ∃ T, nonceTerm Pt (bindFactor bindPrefix pn.idx) pn = .ok T) ∧
      terms = pnonces.map (nonceShare bindPrefix) := by
  have each := of_mapM_ok done
  refine ⟨each, ?_⟩
  have same : pnonces.mapM (fun pn => nonceTerm Pt (bindFactor bindPrefix pn.idx) pn) =
      .ok (pnonces.map (nonceShare bindPrefix)) := by
    apply mapM_ok
    intro pn member
    obtain ⟨T, found⟩ := each pn member
    rw [nonceShare, found]
    rfl
  rw [done] at same
  exact Except.ok.inj same

theorem getBindFactor_binders {pnonces : List PublicNonce} (bindPrefix : List UInt8) :
    ∀ pn ∈ pnonces, getBindFactor (getGroupBinders pnonces bindPrefix) pn.idx =
      .ok (bindFactor bindPrefix pn.idx) := by
  intro pn member
  rw [getBindFactor_getGroupBinders, if_pos (List.mem_map_of_mem member)]
  rfl

/-- A context that is built is made of the group key and the nonces. -/
theorem contextPoints_of_built {groupPk : List UInt8} {pnonces : List PublicNonce}
    {message : List UInt8} {tweaks : List (Bytes 32)} {ctx : GroupSigningCtx Pt}
    (built : getGroupSigningCtx Pt groupPk pnonces message tweaks = .ok ctx) :
    ∃ K R, liftX groupPk = .ok K ∧ ContextPoints ctx K R ∧ ctx.pnonces = pnonces ∧
      ctx.message = message ∧ ctx.groupPt.point = (tweaks.foldl tweakStep (K, 1, 0)).1 := by
  rw [getGroupSigningCtx] at built
  obtain ⟨K, lifted, built⟩ := bind_ok built
  obtain ⟨_, _, built⟩ := bind_ok built
  rw [Pomade.Go.getPointState_eq, ok_bind] at built
  obtain ⟨groupPk', serialized, built⟩ := bind_ok built
  have finite := serializePoint_ok serialized
  rw [serializePoint_eq finite] at serialized
  cases serialized
  dsimp only at built
  obtain ⟨groupPn, summed, built⟩ := bind_ok built
  obtain ⟨challenge, hashed, built⟩ := bind_ok built
  obtain rfl := Except.ok.inj built
  rw [getGroupPubnonce] at summed
  obtain ⟨sum, rounds, summed⟩ := bind_ok summed
  obtain ⟨terms, each, same⟩ := (foldlM_addPubnonce (getBindFactor_binders _)).mp rounds
  subst same
  -- With no nonce at all the sum has no encoding, and the context is not built.
  by_cases empty : pnonces = []
  · subst empty
    cases summed
  rw [if_neg empty, Option.getD_none, zero_add] at summed
  have encoded : serializePoint terms.sum = .ok groupPn := summed
  have nonzero := serializePoint_ok encoded
  rw [serializePoint_eq nonzero] at encoded
  cases encoded
  rw [Pomade.Go.getChallenge_eq] at hashed
  obtain rfl := Except.ok.inj hashed
  obtain ⟨found, total⟩ := mapM_nonceTerm each
  refine ⟨K, terms.sum, lifted, ?_, rfl, rfl, rfl⟩
  exact {
    key := (Pomade.Go.accumulated_run (Pomade.Go.accumulated_start K) tweaks).point
    parity := rfl
    keyFinite := finite
    groupPk := rfl
    bindPrefix := rfl
    bindFactors := rfl
    terms := found
    nonce := by rw [total]
    nonceFinite := nonzero
    groupPn := rfl
    challenge := rfl
    indexes := rfl }

/-! ## The sum -/

variable {ctx : GroupSigningCtx Pt} {K R : Pt}

theorem ContextPoints.some_nonces (points : ContextPoints ctx K R) : ctx.pnonces ≠ [] := by
  intro empty
  have nonce := points.nonce
  rw [empty] at nonce
  exact points.nonceFinite nonce

theorem ContextPoints.groupPubnonce (points : ContextPoints ctx K R) :
    getGroupPubnonce Pt ctx.pnonces (getGroupBinders ctx.pnonces
      (getGroupPrefix ctx.pnonces ctx.groupPk ctx.message)) = .ok (encodePoint R) := by
  have each : ctx.pnonces.mapM (fun pn => nonceTerm Pt (bindFactor ctx.bindPrefix pn.idx) pn) =
      .ok (ctx.pnonces.map (nonceShare ctx.bindPrefix)) := by
    apply mapM_ok
    intro pn member
    obtain ⟨T, found⟩ := points.terms pn member
    rw [nonceShare, found]
    rfl
  rw [← points.bindPrefix, getGroupPubnonce,
    (foldlM_addPubnonce (getBindFactor_binders _)).mpr ⟨_, each, rfl⟩, ok_bind,
    if_neg points.some_nonces, Option.getD_none, zero_add, ← points.nonce]
  exact serializePoint_eq points.nonceFinite

/-- The scalar of the aggregate signature. -/
def totalScalar (ctx : GroupSigningCtx Pt) (psigs : List ShareSignature) : Scalar :=
  (psigs.map fun s => scalarFromBytes s.psig).sum +
    ctx.challenge * ctx.groupPt.parity * ctx.groupPt.tweak

/-- The aggregate signature, if `R` is the group nonce. -/
def aggregate (ctx : GroupSigningCtx Pt) (R : Pt) (psigs : List ShareSignature) : Bytes 64 :=
  (Curve.affineX R).append (scalarToBytes (totalScalar ctx psigs))

theorem combinePartialSigs_eq (points : ContextPoints ctx K R) (psigs : List ShareSignature) :
    combinePartialSigs Pt ctx psigs = .ok (aggregate ctx R psigs) := by
  rw [combinePartialSigs, points.groupPubnonce, ok_bind, aggregate, totalScalar, List.sum_eq_foldl]
  rfl

omit [Sha2] in
/-- The point with even y that has the same x-coordinate. -/
theorem eq_parity_smul_iff {P : Pt} (nonzero : R ≠ 0) :
    P = parityOf R • R ↔ P ≠ 0 ∧ Curve.affineX P = Curve.affineX R ∧ Curve.yIsOdd P = false := by
  have finite : Curve.isIdentity R = false := by
    rw [Bool.eq_false_iff]
    exact fun identity => nonzero ((Curve.isIdentity_iff R).mp identity)
  have even : hasEvenY R = !Curve.yIsOdd R := by
    rw [hasEvenY, finite]
    rfl
  rw [parityOf_smul, even, Curve.affineX_eq_iff]
  cases odd : Curve.yIsOdd R with
  | false =>
    simp only [Bool.not_false, if_true]
    constructor
    · rintro rfl
      exact ⟨nonzero, .inl rfl, odd⟩
    · rintro ⟨_, same | opposite, parity⟩
      · exact same
      · rw [opposite, Curve.yIsOdd_neg R nonzero, odd] at parity
        cases parity
  | true =>
    simp only [Bool.not_true, Bool.false_eq_true, if_false]
    constructor
    · rintro rfl
      exact ⟨neg_ne_zero.mpr nonzero, .inr rfl, by rw [Curve.yIsOdd_neg R nonzero, odd]; rfl⟩
    · rintro ⟨_, same | opposite, parity⟩
      · rw [same, odd] at parity
        cases parity
      · exact opposite

omit [Sha2] in
theorem decompress_affineX (nonzero : R ≠ 0) :
    (Curve.decompress (Curve.affineX R) false : Option Pt) = some (parityOf R • R) := by
  rw [Curve.decompress_eq_some]
  exact (eq_parity_smul_iff nonzero).mp rfl

theorem ContextPoints.tail (points : ContextPoints ctx K R) :
    ctx.groupPk.tail = Curve.affineX ctx.groupPt.point := by
  rw [points.groupPk]
  rfl

/-- The key that the signature is verified with. -/
theorem ContextPoints.decompress (points : ContextPoints ctx K R) :
    Curve.decompress ctx.groupPk.tail false =
      some (parityOf ctx.groupPt.point • ctx.groupPt.point) := by
  rw [points.tail, decompress_affineX points.keyFinite]

omit [Sha2] in
theorem toNat_scalarToBytes (s : Scalar) : (scalarToBytes s).toNat = s.val :=
  Bytes.toNat_ofNat ((ZMod.val_lt s).trans N_lt)

omit [Sha2] in
/-- The bytes of a nonce other than the identity and of a scalar are a signature that can be read,
unless the scalar is zero. -/
theorem halvesInRange_append (reduced : Reduced Pt) (apart : NoZeroAbscissa Pt) (nonzero : R ≠ 0)
    (s : Scalar) : HalvesInRange ((Curve.affineX R).append (scalarToBytes s)) ↔ s ≠ 0 := by
  obtain ⟨first, second⟩ := Pomade.Go.halves_append (Curve.affineX R) (scalarToBytes s)
  have positive : 0 < (Curve.affineX R).toNat := by
    apply Nat.pos_of_ne_zero
    intro zero
    apply apart R nonzero
    rw [← zero, Bytes.ofNat_toNat]
  rw [HalvesInRange, first, second, toNat_scalarToBytes, and_iff_right ⟨positive, reduced R⟩,
    and_iff_left (ZMod.val_lt s), Nat.pos_iff_ne_zero, Ne, ZMod.val_eq_zero]

/-- The point of the aggregate that BIP340 asks for. -/
def signaturePoint (ctx : GroupSigningCtx Pt) (R : Pt) : Pt :=
  parityOf R • R + (ctx.challenge * ctx.groupPt.parity) • ctx.groupPt.point

/-- A nonce and a scalar satisfy BIP340 for the tweaked key if and only if the point of the scalar is
the one that BIP340 asks for. -/
theorem bip340_iff_point (reduced : Reduced Pt) (points : ContextPoints ctx K R) (s : Scalar) :
    Bip340 Pt ctx.groupPk.tail ctx.message (Curve.affineX R) (scalarToBytes s) ↔
      s • (Curve.generator : Pt) = signaturePoint ctx R := by
  -- What is compared with the nonce.
  have nonce : modN (scalarToBytes s).toNat • (Curve.generator : Pt) -
      bip340Challenge ctx.groupPk.tail (Curve.affineX R) ctx.message •
        parityOf ctx.groupPt.point • ctx.groupPt.point = parityOf R • R ↔
      s • (Curve.generator : Pt) = signaturePoint ctx R := by
    rw [toNat_scalarToBytes, modN, ZMod.natCast_zmod_val, points.tail, ← points.challenge,
      signaturePoint, points.parity, smul_smul, sub_eq_iff_eq_add]
  rw [← nonce]
  constructor
  · rintro ⟨_, _, _, P, R', decoded, rfl, finite, abscissa, even⟩
    rw [points.decompress] at decoded
    obtain rfl := Option.some.inj decoded
    exact (eq_parity_smul_iff points.nonceFinite).mpr ⟨finite, abscissa, even⟩
  · intro right
    obtain ⟨finite, abscissa, even⟩ := (eq_parity_smul_iff points.nonceFinite).mp right
    refine ⟨points.tail ▸ reduced _, reduced _, ?_, _, _, points.decompress, rfl, finite, abscissa,
      even⟩
    rw [toNat_scalarToBytes]
    exact ZMod.val_lt s

/-- The point of the aggregate is right if and only if the points of the partial signatures sum up
to the group nonce and the group key without the tweaks. -/
theorem total_iff (points : ContextPoints ctx K R) (psigs : List ShareSignature) :
    totalScalar ctx psigs • (Curve.generator : Pt) = signaturePoint ctx R ↔
      (psigs.map fun s => scalarFromBytes s.psig • (Curve.generator : Pt)).sum =
        parityOf R • R + (ctx.challenge * ctx.groupPt.parity * ctx.groupPt.state) • K := by
  have spread : (psigs.map fun s => scalarFromBytes s.psig • (Curve.generator : Pt)).sum =
      (psigs.map fun s => scalarFromBytes s.psig).sum • (Curve.generator : Pt) := by
    rw [List.sum_smul, List.map_map]
    rfl
  rw [totalScalar, signaturePoint, points.key, spread, add_smul, smul_add, smul_smul, smul_smul,
    ← add_assoc]
  exact add_left_inj _

section Final

variable [Schnorr Pt] [LawfulSchnorr Pt]

/-- The aggregate is a signature of BIP340 if and only if its scalar is not zero and its point is
the one that BIP340 asks for. -/
theorem verifyFinalSig_iff (reduced : Reduced Pt) (apart : NoZeroAbscissa Pt)
    (points : ContextPoints ctx K R) (s : Scalar) :
    verifyFinalSig Pt ctx.groupPk ctx.message ((Curve.affineX R).append (scalarToBytes s)) =
        .ok true ↔
      s ≠ 0 ∧ s • (Curve.generator : Pt) = signaturePoint ctx R := by
  have readable : (Schnorr.tryFrom ((Curve.affineX R).append (scalarToBytes s)) :
      Option (Schnorr.Signature Pt)).isSome = true ↔ _ := LawfulSchnorr.tryFrom_isSome _
  rw [halvesInRange_append reduced apart points.nonceFinite] at readable
  rw [← readable, ← bip340_iff_point reduced points, verifyFinalSig, points.decompress]
  cases parsed : (Schnorr.tryFrom ((Curve.affineX R).append (scalarToBytes s)) :
      Option (Schnorr.Signature Pt)) with
  | none => simp
  | some read =>
    have raw := LawfulSchnorr.verifyRaw_iff ctx.message points.decompress parsed
    rw [(Pomade.Go.halves_append _ _).1, (Pomade.Go.halves_append _ _).2] at raw
    simp [raw]

/-- The aggregate is accepted if and only if the points of the partial signatures sum up to the
group nonce and the group key without the tweaks, and what BIP340 asks for is not the identity. -/
theorem verifyFinalSig_aggregate_iff (reduced : Reduced Pt) (apart : NoZeroAbscissa Pt)
    (points : ContextPoints ctx K R) (psigs : List ShareSignature) :
    verifyFinalSig Pt ctx.groupPk ctx.message (aggregate ctx R psigs) = .ok true ↔
      signaturePoint ctx R ≠ 0 ∧
        (psigs.map fun s => scalarFromBytes s.psig • (Curve.generator : Pt)).sum =
          parityOf R • R + (ctx.challenge * ctx.groupPt.parity * ctx.groupPt.state) • K := by
  rw [aggregate, verifyFinalSig_iff reduced apart points, ← total_iff points]
  apply and_congr_left
  intro right
  have zero : scalarBaseMulti Pt (totalScalar ctx psigs) = 0 ↔ totalScalar ctx psigs = 0 :=
    scalarBaseMulti_eq_zero
  rw [← right]
  exact not_congr zero.symm

theorem bip340_aggregate (reduced : Reduced Pt) (apart : NoZeroAbscissa Pt)
    (points : ContextPoints ctx K R) {psigs : List ShareSignature}
    (accepted : verifyFinalSig Pt ctx.groupPk ctx.message (aggregate ctx R psigs) = .ok true) :
    Bip340 Pt ctx.groupPk.tail ctx.message (rBytes (aggregate ctx R psigs))
      (sBytes (aggregate ctx R psigs)) := by
  have right := ((verifyFinalSig_iff reduced apart points _).mp accepted).2
  rw [aggregate, (Pomade.Go.halves_append _ _).1, (Pomade.Go.halves_append _ _).2]
  exact (bip340_iff_point reduced points _).mpr right

end Final

section Sample

variable (Pt) in
/-- The equation of BIP340, evaluated. -/
@[reducible] def sampleSchnorr : Schnorr Pt where
  Signature := Bytes 32 × Scalar
  tryFrom signature :=
    if HalvesInRange signature then some (rBytes signature, modN (sBytes signature).toNat) else none
  verifyRaw key message read :=
    let e := bip340Challenge (Curve.affineX key) read.1 message
    let R : Pt := scalarBaseMulti Pt read.2 + scalarMulti key (-e)
    !Curve.isIdentity R && !Curve.yIsOdd R && decide (Curve.affineX R = read.1)

attribute [local instance] sampleSchnorr

theorem lawful_sampleSchnorr (reduced : Reduced Pt) : LawfulSchnorr Pt where
  tryFrom_isSome signature := by
    by_cases within : HalvesInRange signature
    · simp [Schnorr.tryFrom, within]
    · simp [Schnorr.tryFrom, within]
  verifyRaw_iff {x key signature read} message decoded parsed := by
    obtain ⟨within, same⟩ := Option.ite_none_right_eq_some.mp parsed
    obtain rfl := Option.some.inj same
    obtain ⟨⟨_, small⟩, _, below⟩ := within
    obtain ⟨_, rfl, _⟩ := (Curve.decompress_eq_some x false key).mp decoded
    have finite : ∀ P : Pt, Curve.isIdentity P = false ↔ P ≠ 0 := by
      intro P
      rw [← Bool.not_eq_true, Curve.isIdentity_iff]
    simp only [Schnorr.verifyRaw, Bool.and_eq_true, Bool.not_eq_true', decide_eq_true_eq, finite,
      scalarBaseMulti, scalarMulti, neg_smul, ← sub_eq_add_neg]
    constructor
    · rintro ⟨⟨nonzero, even⟩, abscissa⟩
      exact ⟨reduced key, small, below, key, _, decoded, rfl, nonzero, abscissa, even⟩
    · rintro ⟨_, _, _, P, _, decoded', rfl, nonzero, abscissa, even⟩
      rw [decoded] at decoded'
      obtain rfl := Option.some.inj decoded'
      exact ⟨⟨nonzero, even⟩, abscissa⟩

end Sample

/-! ## One partial signature -/

/-- The Lagrange coefficient of a member in a context. -/
def coefficientOf (ctx : GroupSigningCtx Pt) (idx : UInt32) : Scalar :=
  weight (ctx.indexes.map indexToScalar) (indexToScalar idx) 0

/-- The point of the partial signature of a member, for the public key that is taken for his. -/
def rightPoint (ctx : GroupSigningCtx Pt) (R X : Pt) (pn : PublicNonce) : Pt :=
  parityOf R • nonceShare ctx.bindPrefix pn +
    (ctx.challenge * coefficientOf ctx pn.idx * (ctx.groupPt.parity * ctx.groupPt.state)) • X

/-- A partial signature is compared with the right point by the x-coordinate. -/
theorem verifyPartialSig_eq (points : ContextPoints ctx K R) {pn : PublicNonce}
    (listed : pn ∈ ctx.pnonces) (distinct : ctx.indexes.Nodup) {sharePk : Bytes 33} {X : Pt}
    (lifted : liftX sharePk.data = .ok X) (sharePsig : Bytes 32) :
    verifyPartialSig Pt ctx pn sharePk sharePsig = .ok (decide
      (Curve.affineX (scalarBaseMulti Pt (scalarFromBytes sharePsig)) =
        Curve.affineX (rightPoint ctx R X pn))) := by
  obtain ⟨T, term⟩ := points.terms pn listed
  have share := term
  rw [nonceTerm] at share
  obtain ⟨H, hidden, share⟩ := bind_ok share
  obtain ⟨B, binder, share⟩ := bind_ok share
  have sum : H + scalarFromBytes (bindFactor ctx.bindPrefix pn.idx) • B = T := Except.ok.inj share
  have factor := getBindFactor_binders ctx.bindPrefix pn listed
  have nonce : (liftX ctx.groupPn.data : Result Pt) = .ok R := by
    rw [points.groupPn, liftX_encodePoint points.nonceFinite]
  have member : indexToScalar pn.idx ∈ ctx.indexes.map indexToScalar := by
    rw [points.indexes]
    exact List.mem_map_of_mem (List.mem_map_of_mem listed)
  have coefficient := interpolateX_eq (distinct.map indexToScalar_injective) member
  have shared : nonceShare ctx.bindPrefix pn = T := by
    rw [nonceShare, term]
    rfl
  rw [verifyPartialSig, points.bindFactors, factor, ok_bind, hidden, ok_bind, binder, ok_bind,
    lifted, ok_bind, nonce, ok_bind]
  dsimp only
  rw [← parityOf_smul R H, ← parityOf_smul R B]
  show (interpolateX _ _ >>= _) = _
  rw [coefficient, ok_bind]
  show Except.ok (decide _) = _
  rw [rightPoint, shared, ← sum, smul_add, scalarMulti, scalarMulti, smul_comm (parityOf R)]
  rfl

/-- A partial signature is accepted if its point is the right one, or the negative. -/
theorem verifyPartialSig_iff (points : ContextPoints ctx K R) {pn : PublicNonce}
    (listed : pn ∈ ctx.pnonces) (distinct : ctx.indexes.Nodup) {sharePk : Bytes 33} {X : Pt}
    (lifted : liftX sharePk.data = .ok X) (sharePsig : Bytes 32) :
    verifyPartialSig Pt ctx pn sharePk sharePsig = .ok true ↔
      scalarBaseMulti Pt (scalarFromBytes sharePsig) = rightPoint ctx R X pn ∨
        scalarBaseMulti Pt (scalarFromBytes sharePsig) = -rightPoint ctx R X pn := by
  rw [verifyPartialSig_eq points listed distinct lifted, Except.ok.injEq, decide_eq_true_eq,
    Curve.affineX_eq_iff]

/-- The right points of all members sum up to what the aggregate should be. -/
theorem sum_rightPoint (points : ContextPoints ctx K R) (distinct : ctx.indexes.Nodup)
    {f : Scalar[X]} (small : f.degree < ctx.pnonces.length)
    (secret : K = f.eval 0 • Curve.generator) :
    (ctx.pnonces.map fun pn =>
        rightPoint ctx R (f.eval (indexToScalar pn.idx) • Curve.generator) pn).sum =
      parityOf R • R + (ctx.challenge * ctx.groupPt.parity * ctx.groupPt.state) • K := by
  have keys : (ctx.pnonces.map fun pn => (coefficientOf ctx pn.idx *
      f.eval (indexToScalar pn.idx)) • (Curve.generator : Pt)).sum = K := by
    have count : (ctx.indexes.map indexToScalar).length = ctx.pnonces.length := by
      rw [points.indexes, List.length_map, List.length_map]
    have interpolated := sum_weight (distinct.map indexToScalar_injective) (by rwa [count]) 0
    have weights : ∀ idx, coefficientOf ctx idx =
        weight (ctx.indexes.map indexToScalar) (indexToScalar idx) 0 := fun _ => rfl
    simp only [weights]
    generalize weight (ctx.indexes.map indexToScalar) = coefficients at interpolated ⊢
    rw [points.indexes, List.map_map, List.map_map] at interpolated
    rw [secret, ← interpolated, List.sum_smul, List.map_map]
    rfl
  have split : ∀ pn : PublicNonce,
      rightPoint ctx R (f.eval (indexToScalar pn.idx) • (Curve.generator : Pt)) pn =
        parityOf R • nonceShare ctx.bindPrefix pn +
          (ctx.challenge * ctx.groupPt.parity * ctx.groupPt.state) •
            (coefficientOf ctx pn.idx * f.eval (indexToScalar pn.idx)) • (Curve.generator : Pt) := by
    intro pn
    rw [rightPoint, smul_smul, smul_smul]
    congr 2
    ring
  simp only [split]
  rw [List.sum_map_add, ← keys, points.nonce, List.smul_sum, List.smul_sum, List.map_map,
    List.map_map]
  rfl

end Contexts

end Pomade.Frost
