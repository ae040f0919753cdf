import Pomade.Frost.Abort

/-! # Honest members sign

`frost/dealer.rs`, and what becomes of a signing session in which everybody does what the code
does.  A dealer shares a polynomial; the partial signature of a member has the right point; and
the right points of enough members sum up to what BIP340 asks for.
-/

namespace Pomade.Frost

open Pomade.Lib Polynomial
open Pomade.Go (Reduced NoZeroAbscissa Bip340 rBytes sBytes bindFactor tweakStep tweakedPoint)

/-- Output of the trusted dealer: group info + all secret shares. -/
structure DealerPackage where
  group : GroupPackage
  shares : List SharePackage

section Code

variable (Pt : Type) [AddCommGroup Pt] [Module Scalar Pt] [Curve Pt]

/-- Generate a complete dealer package: group info + all secret shares. -/
def generateDealerPackage (threshold : Nat) (shareCount : UInt32) (secrets : List (Bytes 32))
    (random : Nat → Bytes 32) : Result DealerPackage := do
  let dealerSet ← createDealerSet Pt threshold shareCount secrets random
  let shares := dealerSet.shares.map fun s => { idx := s.idx, seckey := s.seckey : SharePackage }
  let members ← dealerSet.shares.mapM fun s => do
    let pubkey ← getPubkey Pt s.seckey
    return { idx := s.idx, pubkey, identityPk := none : MemberPackage }
  return { group := { groupPk := dealerSet.groupPk, threshold, members }, shares }

/-- The public half of a nonce pair, tagged with its owner: the second half of
`generate_nonce_pair`, and `to_member_nonce`. -/
def toMemberNonce (idx : UInt32) (pair : SecretNoncePair) : Result MemberNonce := do
  let binderPn ← getPubkey Pt pair.binderSn
  let hiddenPn ← getPubkey Pt pair.hiddenSn
  return { idx, binderPn, hiddenPn, code := pair.code }

end Code

/-! ## Contexts and partial signatures -/

section Points

variable {Pt : Type} [AddCommGroup Pt] [Module Scalar Pt] [Curve Pt]

/-- Both nonces are points. -/
def Lifts (Pt : Type) [AddCommGroup Pt] [Module Scalar Pt] [Curve Pt] (pn : PublicNonce) : Prop :=
  (∃ H : Pt, liftX pn.hiddenPn.data = .ok H) ∧ ∃ B : Pt, liftX pn.binderPn.data = .ok B

/-- The public nonces of secret ones. -/
structure NonceOf (Pt : Type) [AddCommGroup Pt] [Module Scalar Pt] [Curve Pt] (hidden binder : Bytes 32)
    (pn : PublicNonce) : Prop where
  hidden : liftX pn.hiddenPn.data = .ok (scalarBaseMulti Pt (scalarFromBytes hidden))
  binder : liftX pn.binderPn.data = .ok (scalarBaseMulti Pt (scalarFromBytes binder))

theorem NonceOf.lifts {hidden binder : Bytes 32} {pn : PublicNonce}
    (nonce : NonceOf Pt hidden binder pn) : Lifts Pt pn :=
  ⟨⟨_, nonce.hidden⟩, ⟨_, nonce.binder⟩⟩

theorem getPubkey_ok {secret : Bytes 32} {pubkey : Bytes 33} (made : getPubkey Pt secret = .ok pubkey) :
    liftX pubkey.data = .ok (scalarBaseMulti Pt (scalarFromBytes secret)) := by
  have nonzero := serializePoint_ok made
  rw [getPubkey, serializePoint_eq nonzero] at made
  cases made
  exact liftX_encodePoint nonzero

theorem toMemberNonce_ok {idx : UInt32} {pair : SecretNoncePair} {nonce : MemberNonce}
    (made : toMemberNonce Pt idx pair = .ok nonce) : nonce.idx = idx ∧
      NonceOf Pt pair.hiddenSn pair.binderSn ⟨nonce.idx, nonce.binderPn, nonce.hiddenPn⟩ := by
  rw [toMemberNonce] at made
  obtain ⟨binderPn, binder, made⟩ := bind_ok made
  obtain ⟨hiddenPn, hidden, made⟩ := bind_ok made
  cases made
  exact ⟨rfl, getPubkey_ok hidden, getPubkey_ok binder⟩

variable [Sha2]

/-- Where every nonce is a point the context is built, unless a point is the identity on the way. -/
theorem exists_context {groupPk : List UInt8} {pnonces : List PublicNonce} {message : List UInt8}
    {tweaks : List (Bytes 32)} {K : Pt} (lifted : liftX groupPk = .ok K) (some_ : pnonces ≠ [])
    (lifts : ∀ pn ∈ pnonces, Lifts Pt pn)
    (calm : ¬ CancelsGroup Pt groupPk pnonces message tweaks) :
    ∃ ctx, getGroupSigningCtx Pt groupPk pnonces message tweaks = .ok ctx := by
  have state := Pomade.Go.getPointState_eq K tweaks
  have finite : (tweaks.foldl tweakStep (K, 1, 0)).1 ≠ 0 := fun zero =>
    calm ⟨K, lifted, _, state, .inl zero⟩
  have serialized := serializePoint_eq finite
  have rounds : ∀ groupPk : Bytes 33, nonceSum Pt groupPk pnonces message = .ok (some
      (pnonces.map (nonceShare (getGroupPrefix pnonces groupPk message)) : List Pt).sum) := by
    intro groupPk
    have terms : pnonces.mapM (fun pn => nonceTerm Pt
        (bindFactor (getGroupPrefix pnonces groupPk message) pn.idx) pn) =
          .ok (pnonces.map (nonceShare (getGroupPrefix pnonces groupPk message))) := by
      apply mapM_ok
      intro pn member
      obtain ⟨⟨H, hidden⟩, ⟨B, binder⟩⟩ := lifts pn member
      rw [nonceShare, nonceTerm, hidden, ok_bind, binder]
      rfl
    rw [nonceSum, (foldlM_addPubnonce (getBindFactor_binders _)).mpr ⟨_, terms, rfl⟩, if_neg some_,
      Option.getD_none, zero_add]
  have nonzero : ((pnonces.map (nonceShare (getGroupPrefix pnonces
      (encodePoint (tweaks.foldl tweakStep (K, 1, 0)).1) message))).sum : Pt) ≠ 0 := by
    intro zero
    exact calm ⟨K, lifted, _, state, .inr ⟨_, serialized, by rw [rounds, zero]⟩⟩
  have summed := rounds (encodePoint (tweaks.foldl tweakStep (K, 1, 0)).1)
  rw [nonceSum] at summed
  rw [getGroupSigningCtx, lifted, ok_bind, serializePoint_eq (ne_zero_of_liftX lifted), ok_bind, state,
    ok_bind, serialized, ok_bind]
  dsimp only
  rw [getGroupPubnonce, summed, ok_bind]
  dsimp only
  rw [serializePoint_eq nonzero, ok_bind, Pomade.Go.getChallenge_eq, ok_bind]
  exact ⟨_, rfl⟩

/-! ## One member signs -/

variable {ctx : GroupSigningCtx Pt} {K R : Pt}

omit [Sha2] in
theorem parityOf_mul (P : Pt) (k : Scalar) : parityOf P * k = if hasEvenY P then k else -k := by
  rw [parityOf]
  cases hasEvenY P with
  | false => simp
  | true => simp

theorem nonceShare_eq {bindPrefix : List UInt8} {hidden binder : Bytes 32} {pn : PublicNonce}
    (nonce : NonceOf Pt hidden binder pn) :
    nonceShare bindPrefix pn = scalarBaseMulti Pt (scalarFromBytes hidden +
      scalarFromBytes binder * scalarFromBytes (bindFactor bindPrefix pn.idx)) := by
  rw [nonceShare, nonceTerm, nonce.hidden, ok_bind, nonce.binder]
  show scalarBaseMulti Pt _ + scalarFromBytes (bindFactor bindPrefix pn.idx) •
    scalarBaseMulti Pt (scalarFromBytes binder) = _
  simp only [scalarBaseMulti, add_smul, smul_smul, mul_comm]

/-- A member whose nonce is listed signs with the right point. -/
theorem signMsg_eq (points : ContextPoints ctx K R) {pn : PublicNonce} (listed : pn ∈ ctx.pnonces)
    (distinct : ctx.indexes.Nodup) {share : SecretShare} {snonce : SecretNonce}
    (owner : pn.idx = share.idx) (same : snonce.idx = share.idx)
    (nonce : NonceOf Pt snonce.hiddenSn snonce.binderSn pn)
    (nonzero : scalarFromBytes share.seckey ≠ 0) :
    ∃ sig, signMsg ctx share snonce = .ok sig ∧ scalarBaseMulti Pt (scalarFromBytes sig.psig) =
      rightPoint ctx R (scalarBaseMulti Pt (scalarFromBytes share.seckey)) pn := by
  have factor := getBindFactor_binders ctx.bindPrefix pn listed
  have lifted : (liftX ctx.groupPn.data : Result Pt) = .ok R := by
    rw [points.groupPn, liftX_encodePoint points.nonceFinite]
  have member : indexToScalar pn.idx ∈ ctx.indexes.map indexToScalar := by
    rw [points.indexes]
    exact List.mem_map_of_mem (List.mem_map_of_mem listed)
  have coefficient := interpolateX_eq (distinct.map indexToScalar_injective) member
  rw [owner] at factor coefficient
  have key : getPubkey Pt share.seckey = .ok _ := serializePoint_eq (scalarBaseMulti_ne_zero nonzero)
  rw [signMsg, if_neg (not_not.mpr same)]
  dsimp only
  rw [points.bindFactors, factor, ok_bind, coefficient, ok_bind, lifted, ok_bind, key]
  refine ⟨_, rfl, ?_⟩
  dsimp only
  rw [scalarFromBytes_scalarToBytes, ← parityOf_mul, ← parityOf_mul, rightPoint, nonceShare_eq nonce,
    owner, coefficientOf, scalarBaseMulti, scalarBaseMulti, scalarBaseMulti, smul_smul, smul_smul,
    ← add_smul]
  refine congrArg (fun k : Scalar => k • (Curve.generator : Pt)) ?_
  ring

end Points

/-! ## What a dealer deals -/

section Dealer

variable {Pt : Type} [AddCommGroup Pt] [Module Scalar Pt] [Curve Pt]
variable {threshold : Nat} {shareCount : UInt32} {secrets : List (Bytes 32)}
variable {random : Nat → Bytes 32} {dealt : DealerPackage}

/-- The group and the shares belong to one polynomial, and the key of every share is listed. -/
structure Deals (Pt : Type) [AddCommGroup Pt] [Module Scalar Pt] [Curve Pt] (f : Scalar[X])
    (dealt : DealerPackage) : Prop where
  shared : SharesKey Pt f dealt.group
  value : ∀ share ∈ dealt.shares, scalarFromBytes share.seckey = f.eval (indexToScalar share.idx)
  nonzero : ∀ share ∈ dealt.shares, scalarFromBytes share.seckey ≠ 0
  listed : ∀ share ∈ dealt.shares, ∃ m ∈ dealt.group.members,
    m.pubkey = encodePoint (scalarBaseMulti Pt (scalarFromBytes share.seckey))

/-- The member of the group that holds a share. -/
def holderOf (Pt : Type) [AddCommGroup Pt] [Module Scalar Pt] [Curve Pt] (s : SecretShare) :
    MemberPackage where
  idx := s.idx
  pubkey := encodePoint (scalarBaseMulti Pt (scalarFromBytes s.seckey))
  identityPk := none

theorem getPubkey_eq {secret : Bytes 32} (nonzero : scalarFromBytes secret ≠ 0) :
    getPubkey Pt secret = .ok (encodePoint (scalarBaseMulti Pt (scalarFromBytes secret))) :=
  serializePoint_eq (scalarBaseMulti_ne_zero nonzero)

theorem ne_zero_of_getPubkey {secret : Bytes 32} {pubkey : Bytes 33}
    (made : getPubkey Pt secret = .ok pubkey) : scalarFromBytes secret ≠ 0 := by
  intro zero
  exact serializePoint_ok made (scalarBaseMulti_eq_zero.mpr zero)

/-- The first commitment of a dealer is the key of the value at zero. -/
theorem createDealerSet_ok {dealerSet : DealerShareSet}
    (made : createDealerSet Pt threshold shareCount secrets random = .ok dealerSet) :
    dealerSet.shares =
        (shareIndices shareCount).map (shareAt (createShareCoeffs secrets threshold random)) ∧
      liftX dealerSet.groupPk.data = .ok ((listPolynomial
        (createShareCoeffs secrets threshold random)).eval 0 • (Curve.generator : Pt)) := by
  rw [createDealerSet] at made
  obtain ⟨shareSet, created, made⟩ := bind_ok made
  rw [createShareSet, createShares_eq, ok_bind] at created
  obtain ⟨vssCommits, committed, created⟩ := bind_ok created
  cases created
  cases coeffs : createShareCoeffs secrets threshold random with
  | nil =>
    rw [coeffs] at committed
    cases committed
    cases made
  | cons c rest =>
    rw [coeffs, getShareCommits, List.mapM_cons] at committed
    obtain ⟨groupPk, first, committed⟩ := bind_ok committed
    obtain ⟨others, _, committed⟩ := bind_ok committed
    cases committed
    cases made
    have finite := serializePoint_ok first
    rw [serializePoint_eq finite] at first
    cases first
    refine ⟨by rw [coeffs], ?_⟩
    rw [liftX_encodePoint finite, eval_listPolynomial, horner_zero]
    rfl

theorem deals (made : generateDealerPackage Pt threshold shareCount secrets random = .ok dealt) :
    Deals Pt (listPolynomial (createShareCoeffs secrets threshold random)) dealt := by
  rw [generateDealerPackage] at made
  obtain ⟨dealerSet, created, made⟩ := bind_ok made
  obtain ⟨members, published, made⟩ := bind_ok made
  cases made
  obtain ⟨shares, key⟩ := createDealerSet_ok created
  have held : ∀ s ∈ dealerSet.shares, scalarFromBytes s.seckey ≠ 0 := by
    intro s member
    obtain ⟨_, done⟩ := of_mapM_ok published s member
    obtain ⟨_, pubkey, _⟩ := bind_ok done
    exact ne_zero_of_getPubkey pubkey
  have value : ∀ s ∈ dealerSet.shares, scalarFromBytes s.seckey =
      (listPolynomial (createShareCoeffs secrets threshold random)).eval (indexToScalar s.idx) := by
    intro s member
    rw [shares] at member
    obtain ⟨idx, _, rfl⟩ := List.mem_map.mp member
    exact (isShare_shareAt _ idx).value
  have roster : dealerSet.shares.mapM (fun s => do
      let pubkey ← getPubkey Pt s.seckey
      return { idx := s.idx, pubkey, identityPk := none : MemberPackage }) =
        .ok (dealerSet.shares.map (holderOf Pt)) := by
    apply mapM_ok
    intro s member
    rw [getPubkey_eq (held s member)]
    rfl
  rw [published] at roster
  cases roster
  constructor
  · constructor
    · exact key
    · exact (degree_listPolynomial _).trans_eq (by rw [createShareCoeffs_length])
    · intro m listed
      obtain ⟨s, member, rfl⟩ := List.mem_map.mp listed
      rw [holderOf, liftX_encodePoint (scalarBaseMulti_ne_zero (held s member)), value s member]
      rfl
  · intro share member
    obtain ⟨s, given, rfl⟩ := List.mem_map.mp member
    exact value s given
  · intro share member
    obtain ⟨s, given, rfl⟩ := List.mem_map.mp member
    exact held s given
  · intro share member
    obtain ⟨s, given, rfl⟩ := List.mem_map.mp member
    exact ⟨holderOf Pt s, List.mem_map_of_mem given, rfl⟩

end Dealer

/-! ## Everybody signs -/

section Complete

variable {Pt : Type} [AddCommGroup Pt] [Module Scalar Pt] [Curve Pt] [Sha2]

/-- The point that BIP340 asks for is the identity. -/
def CancelsSignature (Pt : Type) [AddCommGroup Pt] [Module Scalar Pt] [Curve Pt]
    (groupPk : List UInt8) (pnonces : List PublicNonce) (message : List UInt8)
    (tweaks : List (Bytes 32)) : Prop :=
  ∃ ctx : GroupSigningCtx Pt, getGroupSigningCtx Pt groupPk pnonces message tweaks = .ok ctx ∧
    ∃ R, liftX ctx.groupPn.data = .ok R ∧ signaturePoint ctx R = 0

variable {session : SignSession} {message : Message} {ctx : GroupSigningCtx Pt} {K R : Pt}
variable {f : Scalar[X]} {dealt : DealerPackage}

omit [Sha2] in
theorem fst_foldl_tweakStep (K : Pt) (tweaks : List (Bytes 32)) (state tweak : Scalar) :
    (tweaks.foldl tweakStep (K, state, tweak)).1 = tweaks.foldl tweakedPoint K := by
  induction tweaks generalizing K state tweak with
  | nil => rfl
  | cons t tweaks ih => exact ih _ _ _

/-- A member of the group whose nonce is listed makes a package that is accepted, with the point
that it is asked for. -/
theorem createPartialSigPackage_complete (only : session.messages = [message])
    (built : sessionCtx Pt session message = .ok ctx) (points : ContextPoints ctx K R)
    (owners : ctx.pnonces = buildPublicNonces session.nonces) (distinct : ctx.indexes.Nodup)
    (deals : Deals Pt f dealt) {share : SharePackage} (held : share ∈ dealt.shares)
    {pair : SecretNoncePair} {pn : PublicNonce} (listed : pn ∈ ctx.pnonces)
    (owner : pn.idx = share.idx) (nonce : NonceOf Pt pair.hiddenSn pair.binderSn pn) :
    ∃ pkg, createPartialSigPackage Pt session share pair = .ok pkg ∧
      verifyPartialSigPackage Pt session dealt.group pkg = .ok none ∧
      (∃ psig, pkg.psigs[0]? = some psig) ∧ scalarBaseMulti Pt (scalarFromBytes (firstPsig pkg)) =
        askedPoint session ctx R (memberPoint Pt f share.idx) share.idx := by
  have nonzero := deals.nonzero share held
  have finite : scalarBaseMulti Pt (scalarFromBytes share.seckey) ≠ 0 :=
    scalarBaseMulti_ne_zero nonzero
  have key : getPubkey Pt share.seckey = .ok _ := getPubkey_eq nonzero
  have lifted := liftX_encodePoint finite
  obtain ⟨m, known, named⟩ := deals.listed share held
  let lowShare : SecretShare := ⟨share.idx, share.seckey⟩
  let lowSnonce : SecretNonce := ⟨share.idx, pair.binderSn, pair.hiddenSn⟩
  obtain ⟨sig, signed, right⟩ : ∃ sig, signMsg ctx lowShare lowSnonce = .ok sig ∧
      scalarBaseMulti Pt (scalarFromBytes sig.psig) =
        rightPoint ctx R (scalarBaseMulti Pt (scalarFromBytes share.seckey)) pn :=
    signMsg_eq points listed distinct owner rfl nonce nonzero
  have found : (buildPublicNonces session.nonces).find? (fun n => n.idx == share.idx) = some pn := by
    rw [← owners, ← owner]
    exact find?_of_nodup (points.indexes ▸ distinct) listed
  refine ⟨⟨share.idx, encodePoint (scalarBaseMulti Pt (scalarFromBytes share.seckey)), session.sid,
    [⟨message.1, sig.psig⟩]⟩, ?_, ?_, ⟨_, rfl⟩, ?_⟩
  · rw [createPartialSigPackage, only]
    rw [List.mapM_cons, built, ok_bind, signed, key]
    rfl
  · have inside : m.pubkey ∈ dealt.group.members.map (·.pubkey) := List.mem_map_of_mem known
    rw [named] at inside
    have accepted := (verifyPartialSig_iff points listed distinct lifted sig.psig).mpr (.inl right)
    rw [verifyPartialSigPackage, if_neg (by simp), if_neg (not_not.mpr inside), found, only]
    dsimp only
    rw [verifyMessages]
    show (sessionCtx Pt session message >>= _) = _
    rw [built, ok_bind, accepted]
    rfl
  · rw [askedPoint, found, memberPoint, ← deals.value share held]
    exact right

variable {chosen : List SharePackage} {members : List UInt32} {published nonces : List MemberNonce}
variable {pair : SharePackage → SecretNoncePair}

omit [Sha2] in
/-- Every member who takes part has a nonce, and every nonce is his. -/
theorem published_nonces (order : nonces.Perm published)
    (made : chosen.mapM (fun share => toMemberNonce Pt share.idx (pair share)) = .ok published) :
    (nonces.map (·.idx)).Perm (chosen.map (·.idx)) ∧
      (∀ pn ∈ buildPublicNonces nonces, Lifts Pt pn) ∧
      ∀ share ∈ chosen, ∃ pn ∈ buildPublicNonces nonces, pn.idx = share.idx ∧
        NonceOf Pt (pair share).hiddenSn (pair share).binderSn pn := by
  have owners : published.map (·.idx) = chosen.map (·.idx) :=
    map_of_mapM_ok (fun share _ nonce done => (toMemberNonce_ok done).1) made
  refine ⟨owners ▸ order.map _, ?_, ?_⟩
  · intro pn listed
    obtain ⟨nonce, given, rfl⟩ := List.mem_map.mp listed
    obtain ⟨share, _, done⟩ := (mem_of_mapM_ok made nonce).mp (order.subset given)
    exact (toMemberNonce_ok done).2.lifts
  · intro share taking
    obtain ⟨nonce, done⟩ := of_mapM_ok made share taking
    obtain ⟨owner, secret⟩ := toMemberNonce_ok done
    have given := order.symm.subset ((mem_of_mapM_ok made nonce).mpr ⟨share, taking, done⟩)
    exact ⟨_, List.mem_map_of_mem given, owner, secret⟩

/-- Whoever of the members take part, if they are enough they make packages that are all accepted,
and that combine to a signature of BIP340 for the group key with all tweaks. -/
theorem honest_members_sign [Schnorr Pt] [LawfulSchnorr Pt] (reduced : Reduced Pt)
    (apart : NoZeroAbscissa Pt) {threshold : Nat}
    {shareCount : UInt32} {secrets : List (Bytes 32)} {random : Nat → Bytes 32}
    (created : generateDealerPackage Pt threshold shareCount secrets random = .ok dealt)
    (within : chosen ⊆ dealt.shares) (distinct : (chosen.map (·.idx)).Nodup)
    (enough : dealt.group.threshold ≤ chosen.length) (named : members.Perm (chosen.map (·.idx)))
    (made : chosen.mapM (fun share => toMemberNonce Pt share.idx (pair share)) = .ok published)
    (order : nonces.Perm published) (message : Message)
    (calm : ¬ CancelsGroup Pt dealt.group.groupPk.data (buildPublicNonces nonces) message.1 message.2)
    (finite : ¬ CancelsSignature Pt dealt.group.groupPk.data (buildPublicNonces nonces) message.1
      message.2) :
    ∃ session pkgs, createSignSession dealt.group members [message] nonces = .ok session ∧
      chosen.mapM (fun share => createPartialSigPackage Pt session share (pair share)) = .ok pkgs ∧
      (∀ pkg ∈ pkgs, verifyPartialSigPackage Pt session dealt.group pkg = .ok none) ∧
      ∃ (K : Pt) (signature : Signature), liftX dealt.group.groupPk.data = .ok K ∧
        combineSignatures Pt session dealt.group pkgs = .ok [signature] ∧
        signature.message = message.1 ∧
        signature.pubkey = encodePoint (message.2.foldl tweakedPoint K) ∧
        Bip340 Pt signature.pubkey.tail signature.message (rBytes signature.sig)
          (sBytes signature.sig) := by
  have deals := deals created
  obtain ⟨owners, lifts, theirs⟩ := published_nonces order made
  have count : nonces.length = members.length := by
    have lengths := (owners.trans named.symm).length_eq
    rwa [List.length_map] at lengths
  have some_ : buildPublicNonces nonces ≠ [] := by
    intro empty
    have lengths := owners.length_eq
    have positive := deals.shared.threshold_pos
    rw [buildPublicNonces, List.map_eq_nil_iff] at empty
    rw [empty, List.map_nil, List.length_nil, List.length_map] at lengths
    omega
  obtain ⟨session, opened⟩ : ∃ session,
      createSignSession dealt.group members [message] nonces = .ok session := by
    rw [createSignSession, if_neg (by simp), if_neg (not_not.mpr count)]
    exact ⟨_, rfl⟩
  obtain ⟨kept, _⟩ := createSignSession_nonces opened
  have only := (createSignSession_ok opened).2.2.1
  have key := createSignSession_groupPk opened
  obtain ⟨ctx, built⟩ := exists_context deals.shared.key some_ lifts calm
  obtain ⟨K, R, lifted, points, listed, same, tweaked⟩ := contextPoints_of_built built
  rw [deals.shared.key] at lifted
  obtain rfl := Except.ok.inj lifted
  have sealed : sessionCtx Pt session message = .ok ctx := by
    rw [sessionCtx, key, kept]
    exact built
  have indexes : ctx.indexes.Perm (chosen.map (·.idx)) := by
    rw [points.indexes, listed, buildPublicNonces, List.map_map]
    exact owners
  have single := indexes.nodup_iff.mpr distinct
  rw [← kept] at listed theirs
  -- Everybody makes a package.
  have each : ∀ share ∈ chosen, ∃ pkg,
      createPartialSigPackage Pt session share (pair share) = .ok pkg ∧
      verifyPartialSigPackage Pt session dealt.group pkg = .ok none ∧
      (∃ psig, pkg.psigs[0]? = some psig) ∧ scalarBaseMulti Pt (scalarFromBytes (firstPsig pkg)) =
        askedPoint session ctx R (memberPoint Pt (listPolynomial
          (createShareCoeffs secrets threshold random)) share.idx) share.idx := by
    intro share taking
    obtain ⟨pn, given, owner, nonce⟩ := theirs share taking
    rw [← listed] at given
    exact createPartialSigPackage_complete only sealed points listed single deals (within taking)
      given owner nonce
  obtain ⟨pkgs, packaged⟩ := exists_mapM_ok fun share taking =>
    (each share taking).imp fun _ facts => facts.1
  have whose : ∀ pkg ∈ pkgs, verifyPartialSigPackage Pt session dealt.group pkg = .ok none ∧
      ∃ psig, pkg.psigs[0]? = some psig := by
    intro pkg given
    obtain ⟨share, taking, done⟩ := (mem_of_mapM_ok packaged pkg).mp given
    obtain ⟨pkg', done', verified, entry, _⟩ := each share taking
    rw [done] at done'
    cases done'
    exact ⟨verified, entry⟩
  have carried : (pkgs.map fun pkg => scalarBaseMulti Pt (scalarFromBytes (firstPsig pkg))) =
      chosen.map fun share => askedPoint session ctx R (memberPoint Pt (listPolynomial
        (createShareCoeffs secrets threshold random)) share.idx) share.idx := by
    apply map_of_mapM_ok _ packaged
    intro share taking pkg done
    obtain ⟨pkg', done', _, _, point⟩ := each share taking
    rw [done] at done'
    cases done'
    exact point
  have small : (listPolynomial (createShareCoeffs secrets threshold random)).degree <
      ctx.pnonces.length := by
    have lengths := indexes.length_eq
    rw [points.indexes, List.length_map, List.length_map] at lengths
    apply lt_of_lt_of_le deals.shared.degree
    rw [lengths]
    exact_mod_cast enough
  have total := sum_askedPoint points listed single small rfl indexes.symm
  rw [List.map_map] at total
  have nonce : (liftX ctx.groupPn.data : Result Pt) = .ok R := by
    rw [points.groupPn, liftX_encodePoint points.nonceFinite]
  have combined : Combines Pt session dealt.group pkgs := by
    refine (combines_iff reduced apart only sealed points same ?_ fun pkg given =>
      (whose pkg given).2).mpr ⟨fun zero => finite ⟨ctx, built, R, nonce, zero⟩, ?_⟩
    · rwa [length_of_mapM_ok packaged]
    · rw [carried]
      exact total
  obtain ⟨message', ctx', signature, only', sealed', done, text, pubkey, bip340⟩ := combined
  rw [only] at only'
  cases only'
  rw [sealed] at sealed'
  cases sealed'
  refine ⟨session, pkgs, opened, packaged, fun pkg given => (whose pkg given).1, _, signature,
    deals.shared.key, done, text, ?_, bip340⟩
  rw [pubkey, points.groupPk, tweaked, fst_foldl_tweakStep]

/-- What is evaluated to see that no point on the way is the identity. -/
theorem finite_of_signs {groupPk : List UInt8} {pnonces : List PublicNonce} {message : List UInt8}
    {tweaks : List (Bytes 32)}
    (signs : ((getGroupSigningCtx Pt groupPk pnonces message tweaks) >>= fun ctx =>
      (liftX ctx.groupPn.data : Result Pt) >>= fun R =>
        .ok (Curve.isIdentity (signaturePoint ctx R))) = .ok false) :
    ¬ CancelsGroup Pt groupPk pnonces message tweaks ∧
      ¬ CancelsSignature Pt groupPk pnonces message tweaks := by
  obtain ⟨ctx, built, signs⟩ := bind_ok signs
  obtain ⟨R, lifted, signs⟩ := bind_ok signs
  constructor
  · rw [← panics_getGroupSigningCtx, built]
    exact not_panics_ok _
  · rintro ⟨ctx', built', R', lifted', zero⟩
    rw [built] at built'
    cases built'
    rw [lifted] at lifted'
    cases lifted'
    rw [zero, (Curve.isIdentity_iff 0).mpr rfl] at signs
    cases signs

end Complete

/-! ## Two of three -/

deriving instance DecidableEq for MemberPackage, GroupPackage, SharePackage, DealerPackage

namespace Trio

/-- The shares of `1 + x`. -/
def dealt : DealerPackage where
  group := {
    groupPk := encodePoint (1 : Scalar)
    threshold := 2
    members := [⟨1, encodePoint (modN 2), none⟩, ⟨2, encodePoint (modN 3), none⟩,
      ⟨3, encodePoint (modN 4), none⟩] }
  shares := [⟨1, scalarToBytes (modN 2)⟩, ⟨2, scalarToBytes (modN 3)⟩, ⟨3, scalarToBytes (modN 4)⟩]

/-- The last and the first member. -/
def chosen : List SharePackage := [⟨3, scalarToBytes (modN 4)⟩, ⟨1, scalarToBytes (modN 2)⟩]

def pair : SecretNoncePair where
  code := Bytes.ofNat 32 0
  binderSn := Bytes.ofNat 32 3
  hiddenSn := Bytes.ofNat 32 2

def nonce (idx : UInt32) : MemberNonce where
  idx := idx
  binderPn := encodePoint (modN 3)
  hiddenPn := encodePoint (modN 2)
  code := Bytes.ofNat 32 0

def message : Message := ([7], [Bytes.ofNat 32 5])

theorem created : generateDealerPackage Scalar 2 3 [Bytes.ofNat 32 1, Bytes.ofNat 32 1]
    (fun _ => Bytes.ofNat 32 0) = .ok dealt := by decide +kernel

theorem within : chosen ⊆ dealt.shares := by
  intro share listed
  simp only [chosen, dealt, List.mem_cons, List.not_mem_nil, or_false] at listed ⊢
  tauto

theorem made : chosen.mapM (fun share => toMemberNonce Scalar share.idx pair) =
    .ok [nonce 3, nonce 1] := by
  have binder : getPubkey Scalar pair.binderSn = .ok (encodePoint (modN 3)) := by decide +kernel
  have hidden : getPubkey Scalar pair.hiddenSn = .ok (encodePoint (modN 2)) := by decide +kernel
  have each : ∀ share ∈ chosen, toMemberNonce Scalar share.idx pair = .ok (nonce share.idx) := by
    intro share _
    rw [toMemberNonce, binder, ok_bind, hidden]
    rfl
  exact mapM_ok each

section

attribute [local instance] Solo.sha2

theorem finite : ¬ CancelsGroup Scalar dealt.group.groupPk.data
      (buildPublicNonces [nonce 1, nonce 3]) message.1 message.2 ∧
    ¬ CancelsSignature Scalar dealt.group.groupPk.data (buildPublicNonces [nonce 1, nonce 3])
      message.1 message.2 := by
  apply finite_of_signs
  decide +kernel

end

end Trio

theorem honest_members_sign_trio :
    let _ := Solo.sha2
    let _ := sampleSchnorr Scalar
    ∃ session pkgs, createSignSession Trio.dealt.group [1, 3] [Trio.message]
        [Trio.nonce 1, Trio.nonce 3] = .ok session ∧
      Trio.chosen.mapM (fun share => createPartialSigPackage Scalar session share Trio.pair) =
        .ok pkgs ∧
      ∃ signature, combineSignatures Scalar session Trio.dealt.group pkgs = .ok [signature] := by
  intro _ _
  have := lawful_sampleSchnorr Pomade.Go.reduced_scalar
  obtain ⟨session, pkgs, opened, packaged, _, _, signature, _, combined, _⟩ :=
    honest_members_sign Pomade.Go.reduced_scalar Pomade.Go.noZeroAbscissa_scalar Trio.created
      Trio.within (by decide) le_rfl (List.Perm.swap 1 3 []).symm Trio.made
      (List.Perm.swap _ _ []) Trio.message Trio.finite.1 Trio.finite.2
  exact ⟨session, pkgs, opened, packaged, signature, combined⟩

end Pomade.Frost
