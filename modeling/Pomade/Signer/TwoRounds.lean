import Pomade.Frost.SigningComplete
import Pomade.Go.SignComplete
import Pomade.Signer.Panics

/-! # Signing in two rounds

Honest members commit, the public nonces are collected, and then every member signs with all of
them.  The nonces that sign are those of the commitments, moved by a hash of the session and the
message: the member moves his secret ones, everybody else the public ones.
-/

namespace Pomade.Signer

open Pomade.Lib Pomade.Frost Polynomial
open Pomade.Go (Reduced NoZeroAbscissa Bip340 rBytes sBytes tweakStep tweakedPoint requestTweaks
  buildSighashContext_of_kept)

/-- An honest member: his share, and the seeds that he draws when he commits. -/
structure Member where
  share : Share
  hiddenSeed : Bytes 32
  binderSeed : Bytes 32

/-- What is published of a commitment. -/
def published (pkg : CommitmentPackage) : PublicNonceItem where
  idx := pkg.idx
  hiddenPn := hexEncode pkg.hiddenPn.data
  binderPn := hexEncode pkg.binderPn.data

/-- What the combining side reads from an answer. -/
def shareSignatureOf (result : SignCompleteResult) : Option ShareSignature := do
  let pubkey ← decode33 result.pubkey
  let psig ← decode32 result.psig.2
  return { idx := result.idx, pubkey, psig }

section Rounds

variable (Pt : Type) [AddCommGroup Pt] [Module Scalar Pt] [Curve Pt] [Sha2]

/-- The first round, as `handle_sign_commit` computes it. -/
def Member.commit (m : Member) : Result CommitmentPackage := do
  let seckey ← orInvalidPoint (decode32 m.share.seckey)
  createCommitPkg Pt { idx := m.share.idx, seckey } m.hiddenSeed m.binderSeed

/-- The second round, and what the combining side reads. -/
def Member.complete (m : Member) (group : Group) (request : SignCompleteRequestInner)
    (secret : SecretNonce) (pnonces : List PublicNonceItem) : Result ShareSignature := do
  let result ← createPsigPkgWithNonce Pt { group, request, share := m.share, secret, pnonces }
  orInvalidPoint (shareSignatureOf result)

omit [Sha2] in
/-- The public half of a secret nonce. -/
def publicNonce (secret : SecretNonce) : Result PublicNonce := do
  let hiddenPn ← getPubkey Pt secret.hiddenSn
  let binderPn ← getPubkey Pt secret.binderSn
  return { idx := secret.idx, hiddenPn, binderPn }

/-- The group has the key of a polynomial, and the members have its shares. -/
structure Shared (f : Scalar[X]) (group : Group) (groupPk : Bytes 33) (members : List Member) :
    Prop where
  decoded : decode33 group.groupPk = some groupPk
  key : liftX groupPk.data = .ok (f.eval 0 • (Curve.generator : Pt))
  degree : f.degree < group.threshold.toNat
  distinct : (members.map (·.share.idx)).Nodup
  shares : ∀ m ∈ members, ∃ seckey, decode32 m.share.seckey = some seckey ∧
    scalarFromBytes seckey = f.eval (indexToScalar m.share.idx) ∧ scalarFromBytes seckey ≠ 0

end Rounds

/-! ## Public and secret nonces -/

theorem decode33_hexEncode (bytes : Bytes 33) : decode33 (hexEncode bytes.data) = some bytes := by
  simp [decode33]

theorem decode32_hexEncode (bytes : Bytes 32) : decode32 (hexEncode bytes.data) = some bytes := by
  simp [decode32]

section Nonces

variable {Pt : Type} [AddCommGroup Pt] [Module Scalar Pt] [Curve Pt]

theorem publicNonce_eq {secret : SecretNonce} {hiddenPn binderPn : Bytes 33}
    (hidden : getPubkey Pt secret.hiddenSn = .ok hiddenPn)
    (binder : getPubkey Pt secret.binderSn = .ok binderPn) :
    publicNonce Pt secret = .ok ⟨secret.idx, binderPn, hiddenPn⟩ := by
  rw [publicNonce, hidden, ok_bind, binder]
  rfl

theorem publicNonce_ok {secret : SecretNonce} {pn : PublicNonce}
    (made : publicNonce Pt secret = .ok pn) :
    pn.idx = secret.idx ∧ NonceOf Pt secret.hiddenSn secret.binderSn pn := by
  rw [publicNonce] at made
  obtain ⟨hiddenPn, hidden, made⟩ := bind_ok made
  obtain ⟨binderPn, binder, made⟩ := bind_ok made
  cases made
  exact ⟨rfl, getPubkey_ok hidden, getPubkey_ok binder⟩

/-- Moving the public key is moving the secret one. -/
theorem tweakPubkey_getPubkey {secret : Bytes 32} {pubkey : Bytes 33} (tweak : Bytes 32)
    (made : getPubkey Pt secret = .ok pubkey) :
    tweakPubkey Pt pubkey.data tweak = getPubkey Pt (tweakSeckey secret tweak) := by
  rw [tweakPubkey, getPubkey_ok made, ok_bind, getPubkey, tweakSeckey, scalarFromBytes_scalarToBytes]
  show serializePoint (_ + _) = _
  rw [scalarBaseMulti, scalarBaseMulti, scalarBaseMulti, add_smul]

variable [Sha2]

theorem commit_ok {m : Member} {pkg : CommitmentPackage} (committed : m.commit Pt = .ok pkg) :
    pkg.idx = m.share.idx ∧
      publicNonce Pt pkg.secretNonce = .ok ⟨pkg.idx, pkg.binderPn, pkg.hiddenPn⟩ := by
  rw [Member.commit] at committed
  obtain ⟨seckey, _, committed⟩ := bind_ok committed
  rw [createCommitPkg] at committed
  obtain ⟨binderPn, binder, committed⟩ := bind_ok committed
  obtain ⟨hiddenPn, hidden, committed⟩ := bind_ok committed
  cases committed
  exact ⟨rfl, publicNonce_eq hidden binder⟩

/-- Moving what is published is publishing what was moved. -/
theorem tweakPnonce_published {pkg : CommitmentPackage}
    (made : publicNonce Pt pkg.secretNonce = .ok ⟨pkg.idx, pkg.binderPn, pkg.hiddenPn⟩)
    (sessionId : Bytes 32) (sigvec : List Str) :
    tweakPnonce Pt (published pkg) sessionId sigvec =
      publicNonce Pt (tweakSecretNonce pkg.secretNonce sessionId sigvec) := by
  rw [publicNonce] at made
  obtain ⟨hiddenPn, hidden, made⟩ := bind_ok made
  obtain ⟨binderPn, binder, made⟩ := bind_ok made
  cases made
  rw [tweakPnonce, published, decode33_hexEncode, decode33_hexEncode, publicNonce]
  show (tweakPubkey Pt pkg.hiddenPn.data _ >>= fun hiddenPn =>
    tweakPubkey Pt pkg.binderPn.data _ >>= _) = _
  rw [tweakPubkey_getPubkey _ hidden, tweakPubkey_getPubkey _ binder]
  rfl

end Nonces

/-! ## The context of everybody -/

section Contexts

variable {Pt : Type} [AddCommGroup Pt] [Module Scalar Pt] [Curve Pt] [Sha2]
variable {f : Scalar[X]} {group : Group} {groupPk : Bytes 33} {sighash : Bytes 32}
variable {request : SignCompleteRequestInner}
variable {members : List Member} {commit : Member → CommitmentPackage} {nonces : Member → PublicNonce}

/-- What is left of published nonces when they are moved. -/
def moved (Pt : Type) [AddCommGroup Pt] [Module Scalar Pt] [Curve Pt] (sessionId : Bytes 32)
    (sigvec : List Str) (pnonces : List PublicNonceItem) : List PublicNonce :=
  pnonces.filterMap fun pn => (tweakPnonce Pt pn sessionId sigvec).toOption

/-- In whatever order the published nonces are listed, they are those that the members sign with,
and none is left out. -/
theorem moved_of_perm {sessionId : Bytes 32} {sigvec : List Str}
    (committed : ∀ m ∈ members, m.commit Pt = .ok (commit m))
    (made : ∀ m ∈ members, publicNonce Pt (tweakSecretNonce (commit m).secretNonce sessionId sigvec) =
      .ok (nonces m))
    {pnonces : List PublicNonceItem} (order : pnonces.Perm (members.map fun m => published (commit m))) :
    (moved Pt sessionId sigvec pnonces).Perm (members.map nonces) ∧
      pnonces.filterMapM (fun pn => okOnly (tweakPnonce Pt pn sessionId sigvec)) =
        .ok (moved Pt sessionId sigvec pnonces) := by
  have each : ∀ m ∈ members, tweakPnonce Pt (published (commit m)) sessionId sigvec =
      .ok (nonces m) := by
    intro m member
    rw [tweakPnonce_published (commit_ok (committed m member)).2, made m member]
  constructor
  · have whole : (members.map fun m => published (commit m)).filterMap (fun pn =>
        (tweakPnonce Pt pn sessionId sigvec).toOption) = members.map nonces := by
      rw [List.filterMap_map, ← List.filterMap_eq_map]
      apply List.filterMap_congr
      intro m member
      rw [Function.comp_apply, each m member]
      rfl
    rw [← whole]
    exact order.filterMap _
  · apply (filterMapM_okOnly pnonces).2
    intro pn listed
    obtain ⟨m, member, rfl⟩ := List.mem_map.mp (order.subset listed)
    rw [each m member]
    exact not_panics_ok _

/-- What the combining side reads from a member who has signed. -/
theorem complete_eq {m : Member} {seckey : Bytes 32} (decoded : decode32 m.share.seckey = some seckey)
    (nonzero : scalarFromBytes seckey ≠ 0) {secret : SecretNonce} {pnonces : List PublicNonceItem}
    {ctx : GroupSigningCtx Pt}
    (built : buildSighashContextFromPnonces Pt group request (computeSessionId group request) pnonces =
      .ok (sighash, ctx)) {sig : ShareSignature}
    (signed : signMsg ctx ⟨m.share.idx, seckey⟩
      (tweakSecretNonce secret (computeSessionId group request) request.hash) = .ok sig) :
    m.complete Pt group request secret pnonces =
      .ok ⟨m.share.idx, encodePoint (scalarBaseMulti Pt (scalarFromBytes seckey)), sig.psig⟩ := by
  have key : getPubkey Pt seckey = .ok _ := getPubkey_eq nonzero
  rw [Member.complete, createPsigPkgWithNonce]
  dsimp only
  rw [built, ok_bind, decoded, orInvalidPoint, ok_bind, key, ok_bind]
  dsimp only
  rw [signed, ok_bind]
  show orInvalidPoint (shareSignatureOf _) = _
  rw [shareSignatureOf, decode33_hexEncode, decode32_hexEncode]
  rfl

/-! ## Everybody answers -/

/-- Enough honest members commit and sign, `nonces` are those that they sign with, and no point on
the way is the identity. -/
structure Honest (Pt : Type) [AddCommGroup Pt] [Module Scalar Pt] [Curve Pt] (f : Scalar[X])
    (group : Group) (groupPk : Bytes 33) (sighash : Bytes 32) (request : SignCompleteRequestInner)
    (members : List Member) (commit : Member → CommitmentPackage) (nonces : Member → PublicNonce) :
    Prop where
  shared : Shared Pt f group groupPk members
  enough : group.threshold.toNat ≤ members.length
  hash : request.hash.head?.bind decode32 = some sighash
  committed : ∀ m ∈ members, m.commit Pt = .ok (commit m)
  made : ∀ m ∈ members, publicNonce Pt (tweakSecretNonce (commit m).secretNonce
    (computeSessionId group request) request.hash) = .ok (nonces m)
  calm : ¬ CancelsGroup Pt groupPk.data (members.map nonces) sighash.data (requestTweaks request)
  finite : ¬ CancelsSignature Pt groupPk.data (members.map nonces) sighash.data (requestTweaks request)

section Honest

variable (honest : Honest Pt f group groupPk sighash request members commit nonces)
include honest

theorem Honest.owner {m : Member} (member : m ∈ members) : (nonces m).idx = m.share.idx :=
  (publicNonce_ok (honest.made m member)).1.trans (commit_ok (honest.committed m member)).1

theorem Honest.distinct : ((members.map nonces).map (·.idx)).Nodup := by
  have indexes : (members.map nonces).map (·.idx) = members.map (·.share.idx) := by
    rw [List.map_map]
    exact List.map_congr_left fun m member => honest.owner member
  rw [indexes]
  exact honest.shared.distinct

theorem Honest.some_nonces : members.map nonces ≠ [] := by
  intro empty
  have enough := honest.enough
  have degree := honest.shared.degree
  rw [List.map_eq_nil_iff] at empty
  rw [empty, List.length_nil, Nat.le_zero] at enough
  rw [enough] at degree
  have vanishes : f = 0 := degree_eq_bot.mp (Nat.WithBot.lt_zero_iff.mp degree)
  apply ne_zero_of_liftX honest.shared.key
  rw [vanishes, eval_zero, zero_smul]

theorem Honest.small : f.degree < (members.map nonces).length := by
  apply lt_of_lt_of_le honest.shared.degree
  rw [List.length_map]
  exact_mod_cast honest.enough

theorem Honest.exists_context : ∃ ctx,
    getGroupSigningCtx Pt groupPk.data (members.map nonces) sighash.data (requestTweaks request) =
      .ok ctx := by
  refine Pomade.Frost.exists_context honest.shared.key honest.some_nonces ?_ honest.calm
  intro pn listed
  obtain ⟨m, member, rfl⟩ := List.mem_map.mp listed
  exact (publicNonce_ok (honest.made m member)).2.lifts

/-- Whoever lists the published nonces, in whatever order, builds the same context. -/
theorem Honest.context_of_order {ctx : GroupSigningCtx Pt}
    (built : getGroupSigningCtx Pt groupPk.data (members.map nonces) sighash.data
      (requestTweaks request) = .ok ctx) {pnonces : List PublicNonceItem}
    (order : pnonces.Perm (members.map fun m => published (commit m))) :
    ∃ ctx', getGroupSigningCtx Pt groupPk.data (moved Pt (computeSessionId group request)
        request.hash pnonces) sighash.data (requestTweaks request) = .ok ctx' ∧
      SameContext ctx ctx' ∧ buildSighashContextFromPnonces Pt group request
        (computeSessionId group request) pnonces = .ok (sighash, ctx') := by
  obtain ⟨perm, kept⟩ := moved_of_perm honest.committed honest.made order
  have context : getGroupSigningCtx Pt groupPk.data _ sighash.data (requestTweaks request) = _ :=
    getGroupSigningCtx_of_perm honest.distinct perm.symm groupPk.data sighash.data
      (requestTweaks request)
  rw [built] at context
  refine ⟨_, context, sameContext_reordered perm.symm built, ?_⟩
  rw [buildSighashContext_of_kept kept honest.shared.decoded honest.hash, context]
  rfl

/-- A member answers with the point that he is asked for, in whatever order he has listed the
nonces. -/
theorem Honest.answers {ctx ctxOf : GroupSigningCtx Pt} {R : Pt}
    (points : ContextPoints ctx (f.eval 0 • Curve.generator) R)
    (perm : ctx.pnonces.Perm (members.map nonces)) {m : Member} (member : m ∈ members)
    {pnonces : List PublicNonceItem}
    (built : buildSighashContextFromPnonces Pt group request (computeSessionId group request) pnonces =
      .ok (sighash, ctxOf)) (same : ∀ share snonce, signMsg ctx share snonce = signMsg ctxOf share snonce) :
    ∃ answer, m.complete Pt group request (commit m).secretNonce pnonces = .ok answer ∧
      (∃ pn ∈ ctx.pnonces, pn.idx = answer.idx ∧
        verifyPartialSig Pt ctx pn answer.pubkey answer.psig = .ok true) ∧
      scalarBaseMulti Pt (scalarFromBytes answer.psig) =
        rightPoint ctx R (f.eval (indexToScalar m.share.idx) • Curve.generator) (nonces m) := by
  obtain ⟨seckey, decoded, value, nonzero⟩ := honest.shared.shares m member
  obtain ⟨idx, secret⟩ := publicNonce_ok (honest.made m member)
  have listed : nonces m ∈ ctx.pnonces := perm.symm.subset (List.mem_map_of_mem member)
  have single : ctx.indexes.Nodup := by
    rw [points.indexes]
    exact (perm.map _).nodup_iff.mpr honest.distinct
  have finite : scalarBaseMulti Pt (scalarFromBytes seckey) ≠ 0 := scalarBaseMulti_ne_zero nonzero
  obtain ⟨sig, signed, right⟩ : ∃ sig, signMsg ctx ⟨m.share.idx, seckey⟩ (tweakSecretNonce
      (commit m).secretNonce (computeSessionId group request) request.hash) = .ok sig ∧
      scalarBaseMulti Pt (scalarFromBytes sig.psig) =
        rightPoint ctx R (scalarBaseMulti Pt (scalarFromBytes seckey)) (nonces m) :=
    signMsg_eq points listed single (honest.owner member) (commit_ok (honest.committed m member)).1
      secret nonzero
  have theirs := signed
  rw [same] at theirs
  refine ⟨_, complete_eq decoded nonzero built theirs, ⟨nonces m, listed, honest.owner member, ?_⟩, ?_⟩
  · exact (verifyPartialSig_iff points listed single (liftX_encodePoint finite) sig.psig).mpr
      (.inl right)
  · rw [← value]
    exact right

/-- What the members are asked for sums up to what the aggregate should be. -/
theorem Honest.sum_right {ctx : GroupSigningCtx Pt} {R : Pt}
    (points : ContextPoints ctx (f.eval 0 • Curve.generator) R)
    (perm : ctx.pnonces.Perm (members.map nonces)) :
    (members.map fun m => rightPoint ctx R
      (f.eval (indexToScalar m.share.idx) • Curve.generator) (nonces m)).sum =
      parityOf R • R + (ctx.challenge * ctx.groupPt.parity * ctx.groupPt.state) •
        (f.eval 0 • Curve.generator : Pt) := by
  have single : ctx.indexes.Nodup := by
    rw [points.indexes]
    exact (perm.map _).nodup_iff.mpr honest.distinct
  have small := honest.small
  rw [← perm.length_eq] at small
  rw [← sum_rightPoint points single small rfl, (perm.map _).sum_eq, List.map_map]
  refine congrArg List.sum (List.map_congr_left ?_)
  intro m member
  rw [Function.comp_apply, honest.owner member]

end Honest

/-- Honest members who commit and then sign with all nonces, listed in any order, are accepted one
by one, and what they answer, in any order, combines to a signature of BIP340 for the group key with
all tweaks of the request. -/
theorem two_rounds_sign [Schnorr Pt] [LawfulSchnorr Pt] (reduced : Reduced Pt)
    (apart : NoZeroAbscissa Pt)
    (honest : Honest Pt f group groupPk sighash request members commit nonces)
    {view : Member → List PublicNonceItem} {collected : List PublicNonceItem}
    (views : ∀ m ∈ members, (view m).Perm (members.map fun m => published (commit m)))
    (order : collected.Perm (members.map fun m => published (commit m))) :
    (∀ m ∈ members, tweakPnonce Pt (published (commit m)) (computeSessionId group request)
        request.hash = publicNonce Pt (tweakSecretNonce (commit m).secretNonce
          (computeSessionId group request) request.hash)) ∧
    ∃ ctx answers, buildSighashContextFromPnonces Pt group request (computeSessionId group request)
        collected = .ok (sighash, ctx) ∧
      ctx.groupPk = encodePoint ((requestTweaks request).foldl tweakedPoint
        (f.eval 0 • (Curve.generator : Pt))) ∧
      members.mapM (fun m => m.complete Pt group request (commit m).secretNonce (view m)) =
        .ok answers ∧
      (∀ answer ∈ answers, ∃ pn ∈ ctx.pnonces, pn.idx = answer.idx ∧
        verifyPartialSig Pt ctx pn answer.pubkey answer.psig = .ok true) ∧
      ∀ answers', answers'.Perm answers → ∃ signature,
        combinePartialSigs Pt ctx answers' = .ok signature ∧
        verifyFinalSig Pt ctx.groupPk sighash.data signature = .ok true ∧
        Bip340 Pt ctx.groupPk.tail sighash.data (rBytes signature) (sBytes signature) := by
  refine ⟨fun m member => tweakPnonce_published (commit_ok (honest.committed m member)).2 _ _, ?_⟩
  -- Each member builds a context from the nonces in the order it sees; they agree up to that order.
  obtain ⟨ctx₀, built₀⟩ := honest.exists_context
  obtain ⟨ctx, built, same, rebuilt⟩ := honest.context_of_order built₀ order
  obtain ⟨K, R, lifted, points, listed, text, tweaked⟩ := contextPoints_of_built built
  rw [honest.shared.key] at lifted
  obtain rfl := Except.ok.inj lifted
  have perm : ctx.pnonces.Perm (members.map nonces) :=
    listed ▸ (moved_of_perm honest.committed honest.made order).1
  -- What one member answers verifies and lifts to the right point, in the context of the combiner.
  have each : ∀ m ∈ members, ∃ answer,
      m.complete Pt group request (commit m).secretNonce (view m) = .ok answer ∧
      (∃ pn ∈ ctx.pnonces, pn.idx = answer.idx ∧
        verifyPartialSig Pt ctx pn answer.pubkey answer.psig = .ok true) ∧
      scalarBaseMulti Pt (scalarFromBytes answer.psig) =
        rightPoint ctx R (f.eval (indexToScalar m.share.idx) • Curve.generator) (nonces m) := by
    intro m member
    obtain ⟨ctxOf, _, sameOf, builtOf⟩ := honest.context_of_order built₀ (views m member)
    exact honest.answers points perm member builtOf fun share snonce =>
      (same.signs share snonce).symm.trans (sameOf.signs share snonce)
  obtain ⟨answers, completed⟩ := exists_mapM_ok fun m member =>
    (each m member).imp fun _ facts => facts.1
  refine ⟨ctx, answers, rebuilt, ?_, completed, ?_, ?_⟩
  · rw [points.groupPk, tweaked, fst_foldl_tweakStep]
  · intro answer given
    obtain ⟨m, member, done⟩ := (mem_of_mapM_ok completed answer).mp given
    obtain ⟨answer', done', verified, _⟩ := each m member
    rw [done] at done'
    cases done'
    exact verified
  · intro answers' reordered_
    -- The right points do not depend on the order of the answers, so their sum is what the s of
    -- a lone signer would lift to.
    have total : (answers'.map fun s => scalarFromBytes s.psig • (Curve.generator : Pt)).sum =
        parityOf R • R + (ctx.challenge * ctx.groupPt.parity * ctx.groupPt.state) •
          (f.eval 0 • Curve.generator : Pt) := by
      rw [(reordered_.map _).sum_eq, ← honest.sum_right points perm]
      congr 1
      apply map_of_mapM_ok _ completed
      intro m member answer done
      obtain ⟨answer', done', _, right⟩ := each m member
      rw [done] at done'
      cases done'
      exact right
    -- The condition on the identity speaks of the first context; both have one signature point.
    have finite : signaturePoint ctx R ≠ 0 := by
      intro zero
      apply honest.finite
      refine ⟨ctx₀, built₀, R, ?_, ?_⟩
      · rw [same.groupPn, points.groupPn, liftX_encodePoint points.nonceFinite]
      · rw [signaturePoint, same.challenge, same.groupPt]
        exact zero
    have accepted := (verifyFinalSig_aggregate_iff reduced apart points answers').mpr ⟨finite, total⟩
    rw [← text]
    exact ⟨_, combinePartialSigs_eq points answers', accepted, bip340_aggregate reduced apart points
      accepted⟩

end Contexts

/-! ## Two of two -/

deriving instance DecidableEq for CommitmentPackage

namespace Duo

def group : Group where
  commits := []
  groupPk := hexEncode (encodePoint (1 : Scalar)).data
  threshold := 2

/-- The members have the shares of `1 + x`. -/
def member (idx : UInt32) : Member where
  share := ⟨idx, hexEncode (scalarToBytes (1 + indexToScalar idx)).data⟩
  hiddenSeed := Bytes.ofNat 32 0
  binderSeed := Bytes.ofNat 32 0

def members : List Member := [member 1, member 2]

/-- A message with one tweak. -/
def request : SignCompleteRequestInner where
  content := none
  hash := [hexEncode (Bytes.ofNat 32 7).data, hexEncode (Bytes.ofNat 32 5).data]
  members := [1, 2]
  stamp := 0
  kind := []
  gid := []
  sid := []

/-- If the hash is always one so are the nonces. -/
def commit (m : Member) : CommitmentPackage where
  idx := m.share.idx
  binderSn := scalarToBytes 1
  hiddenSn := scalarToBytes 1
  binderPn := encodePoint (1 : Scalar)
  hiddenPn := encodePoint (1 : Scalar)

def nonce (m : Member) : PublicNonce where
  idx := m.share.idx
  binderPn := encodePoint (modN 2)
  hiddenPn := encodePoint (modN 2)

theorem shared : Shared Scalar (listPolynomial [1, 1]) group (encodePoint (1 : Scalar)) members where
  decoded := decode33_hexEncode _
  key := by
    rw [liftX_encodePoint one_ne_zero, eval_listPolynomial, horner_zero]
    exact congrArg Except.ok (one_smul Scalar (1 : Scalar)).symm
  degree := degree_listPolynomial _
  distinct := by decide
  shares := by
    intro m listed
    have given : m = member 1 ∨ m = member 2 := by simpa [members] using listed
    rcases given with rfl | rfl
    · exact ⟨_, decode32_hexEncode _, by rw [eval_listPolynomial]; decide +kernel, by decide +kernel⟩
    · exact ⟨_, decode32_hexEncode _, by rw [eval_listPolynomial]; decide +kernel, by decide +kernel⟩

section

attribute [local instance] Solo.sha2

theorem honest : Honest Scalar (listPolynomial [1, 1]) group (encodePoint (1 : Scalar))
    (Bytes.ofNat 32 7) request members commit nonce where
  shared := shared
  enough := le_rfl
  hash := by
    rw [request, List.head?_cons, Option.bind_some]
    exact decode32_hexEncode _
  committed := by
    intro m listed
    have given : m = member 1 ∨ m = member 2 := by simpa [members] using listed
    rcases given with rfl | rfl
    · decide +kernel
    · decide +kernel
  made := by
    intro m listed
    have given : m = member 1 ∨ m = member 2 := by simpa [members] using listed
    rcases given with rfl | rfl
    · decide +kernel
    · decide +kernel
  calm := (finite_of_signs (by decide +kernel)).1
  finite := (finite_of_signs (by decide +kernel)).2

end

end Duo

/-- The second member lists the nonces the other way round. -/
theorem two_rounds_sign_duo :
    let _ := Solo.sha2
    let _ := sampleSchnorr Scalar
    ∃ ctx answers signature,
      Duo.members.mapM (fun m => m.complete Scalar Duo.group Duo.request (Duo.commit m).secretNonce
        (if m.share.idx = 1 then Duo.members.map fun m => published (Duo.commit m)
          else (Duo.members.map fun m => published (Duo.commit m)).reverse)) = .ok answers ∧
      combinePartialSigs Scalar ctx answers = .ok signature ∧
      verifyFinalSig Scalar ctx.groupPk (Bytes.ofNat 32 7).data signature = .ok true := by
  intro _ _
  have := lawful_sampleSchnorr Pomade.Go.reduced_scalar
  have views : ∀ m ∈ Duo.members, (if m.share.idx = 1 then
      Duo.members.map fun m => published (Duo.commit m)
        else (Duo.members.map fun m => published (Duo.commit m)).reverse).Perm
          (Duo.members.map fun m => published (Duo.commit m)) := by
    intro m _
    split
    · exact List.Perm.refl _
    · exact List.reverse_perm _
  obtain ⟨_, ctx, answers, _, _, completed, _, combines⟩ :=
    two_rounds_sign Pomade.Go.reduced_scalar Pomade.Go.noZeroAbscissa_scalar Duo.honest views
      (List.Perm.refl _)
  obtain ⟨signature, combined, verified, _⟩ := combines answers (List.Perm.refl _)
  exact ⟨ctx, answers, signature, completed, combined, verified⟩

end Pomade.Signer
