import Pomade.Go.Packages
import Pomade.Go.Handlers
import Pomade.Go.PartialSignatures

/-! # Completing a signature in both signers

Given the same session, the same commitment and the same request, the two signers check the
same things in a different order, and then sign.
-/

namespace Pomade.Go

open Pomade.Lib Pomade.Frost Pomade.Signer Coll

/-! ## A session and a request as the Go signer has them -/

/-- What comes out of a request to sign: a partial signature, or a refusal for some reason. -/
def Answers (verdict : Option SignCompleteResult) (r : Option Response) : Prop :=
  match verdict with
  | some result => r = some (accept "Successfully signed event" (.psig result))
  | none => ∃ message, r = some (refuse message)

/-! ## The rate limit -/

section Limit

variable {signing : SigningFn} {R : Nat → Nat → Prop} {s : State} {calls : List SignerCall}

/-- The program returns, and touches neither the sessions nor the commitments. -/
def Frame {α : Type} (s : State) (r : Option α) (p : State × List SignerCall) : Prop :=
  (∃ value, r = some value) ∧ p.1.sessions = s.sessions ∧ p.1.commitsByClient = s.commitsByClient

/-- A limiter does that, and lets a client through of which it has no record. -/
def Limiter (client : Str) (s : State) (r : Option Bool) (p : State × List SignerCall) : Prop :=
  Frame s r p ∧ (s.rateLimitByClient.get client = none → r = some true)

/-- What the limiters of both signers do with their own tests and records. -/
theorem limiter_frame {limited : Option RateLimitBucket → SignerProg Bool}
    {record : Option RateLimitBucket → SignerProg RateLimitBucket} (client : Str)
    (test : ∀ bucket s calls, Prog.wp (traced signing R) (limited bucket)
      (fun r p => Frame s r p ∧ (bucket = none → r = some false)) (s, calls))
    (attempt : ∀ bucket s calls, Prog.wp (traced signing R) (record bucket) (Frame s) (s, calls)) :
    Prog.wp (traced signing R) (do
      let bucket ← rateLimitByClient.get client
      if ← limited bucket then return false
      let attempt ← record bucket
      rateLimitByClient.set client attempt
      return true) (Limiter client s) (s, calls) := by
  rw [wp_get]
  refine Prog.wp_seq (test _ s _) ?_ ?_
  · rintro refused ⟨s₁, calls₁⟩ ⟨⟨_, sessions₁, commits₁⟩, fresh⟩
    split
    next refuses =>
      refine ⟨⟨⟨false, rfl⟩, sessions₁, commits₁⟩, fun unknown => ?_⟩
      have passed : refused = false := Option.some.inj (fresh unknown)
      rw [passed] at refuses
      cases refuses
    next =>
      refine Prog.wp_seq (attempt _ s₁ _) ?_ ?_
      · rintro bucket ⟨s₂, calls₂⟩ ⟨_, sessions₂, commits₂⟩
        rw [wp_set]
        exact ⟨⟨⟨true, rfl⟩, sessions₂.trans sessions₁, commits₂.trans commits₁⟩, fun _ => rfl⟩
      · rintro p ⟨⟨_, impossible⟩, _⟩
        cases impossible
  · rintro p ⟨⟨⟨_, impossible⟩, _⟩, _⟩
    cases impossible

theorem checkAndRecordRateLimit_frame (client : Str) :
    Prog.wp (traced signing R) (Signer.checkAndRecordRateLimit client) (Limiter client s)
      (s, calls) := by
  apply limiter_frame
  · intro bucket s calls
    cases bucket with
    | none => exact ⟨⟨⟨false, rfl⟩, rfl, rfl⟩, fun _ => rfl⟩
    | some bucket =>
      rw [Signer.isRateLimited, wp_now]
      exact fun _ _ => ⟨⟨⟨_, rfl⟩, rfl, rfl⟩, nofun⟩
  · intro bucket s calls
    rw [Signer.recordAttempt, wp_now]
    exact fun _ _ => ⟨⟨_, rfl⟩, rfl, rfl⟩

end Limit

section Nonces

variable (Pt : Type) [AddCommGroup Pt] [Module Scalar Pt] [Curve Pt]

/-- The point that a text denotes. -/
def textPoint (text : Str) : Pt :=
  match decode33 text with
  | some bytes =>
    match (liftX bytes.data : Result Pt) with
    | .ok P => P
    | .error _ => 0
  | none => 0

/-- The text denotes a point, in a form that both libraries read. -/
def Readable (text : Str) : Prop :=
  ∃ bytes, decode33 text = some bytes ∧ Canonical bytes ∧
    (liftX bytes.data : Result Pt) = .ok (textPoint Pt text)

variable [Sha2]

/-- The nonces of a member, tweaked for a request. -/
def tweakedNonce (sessionId : Bytes 32) (sigvec : List Str) (pn : PublicNonceItem) :
    PointNonce Pt :=
  let tweak := scalarBaseMulti Pt
    (scalarFromBytes (Signer.getSighashBinder sessionId pn.idx sigvec))
  { idx := pn.idx, hidden := textPoint Pt pn.hiddenPn + tweak,
    binder := textPoint Pt pn.binderPn + tweak }

variable {Pt} {sessionId : Bytes 32} {sigvec : List Str} {pn : PublicNonceItem}

end Nonces

/-- The nonces in the order of the members, as the Go signer uses them. -/
def chosen (members : List UInt32) (pnonces : List PublicNonceItem) : List PublicNonceItem :=
  members.flatMap fun id => pnonces.filter fun pn => pn.idx == id

section Chosen

variable {group : Group} {members : List UInt32} {pnonces : List PublicNonceItem}

theorem pnoncesValid_iff : pnoncesValid group members pnonces = true ↔
    pnonces.length = members.length ∧ ∀ m ∈ members, m ∈ group.commits.map (·.idx) ∧
      ∃ pn, (pnonces.filter fun pn => pn.idx == m) = [pn] := by
  simp only [pnoncesValid, Bool.and_eq_true, beq_iff_eq, List.all_eq_true, decide_eq_true_eq,
    List.length_eq_one_iff]

theorem chosen_idx (valid : pnoncesValid group members pnonces = true) :
    (chosen members pnonces).map (·.idx) = members := by
  have each : ∀ m ∈ members, (pnonces.filter fun pn => pn.idx == m).map (·.idx) = [m] := by
    intro m member
    obtain ⟨_, pn, found⟩ := (pnoncesValid_iff.mp valid).2 m member
    have listed : pn ∈ pnonces.filter fun pn => pn.idx == m := by rw [found]; exact List.mem_singleton_self _
    rw [found, List.map_singleton, beq_iff_eq.mp (List.mem_filter.mp listed).2]
  rw [chosen, List.map_flatMap, List.flatMap_congr each]
  exact List.flatMap_singleton' _

/-- Of distinct members each has one nonce, and there are no others. -/
theorem chosen_perm (valid : pnoncesValid group members pnonces = true) (distinct : members.Nodup) :
    (chosen members pnonces).Perm pnonces := by
  have idx := chosen_idx valid
  have nodup : (chosen members pnonces).Nodup := List.Nodup.of_map (·.idx) (by rwa [idx])
  have within : chosen members pnonces ⊆ pnonces := by
    intro pn member
    obtain ⟨m, _, listed⟩ := List.mem_flatMap.mp member
    exact List.mem_of_mem_filter listed
  have size : pnonces.length ≤ (chosen members pnonces).length := by
    rw [(pnoncesValid_iff.mp valid).1, ← congrArg List.length idx, List.length_map]
  exact (List.subperm_of_subset nodup within).perm_of_length_le size

end Chosen

/-! ## Signing -/

section Signing

variable (Pt : Type) [AddCommGroup Pt] [Module Scalar Pt] [Curve Pt] [Sha2]

/-- The tweaks of the group key that a request asks for. -/
def requestTweaks (request : SignCompleteRequestInner) : List (Bytes 32) :=
  request.hash.tail.filterMap decode32

/-- The tweaked nonces of a request, in a given order. -/
def requestNonces (group : Group) (request : SignCompleteRequestInner)
    (pnonces : List PublicNonceItem) : List (PointNonce Pt) :=
  pnonces.map (tweakedNonce Pt (Signer.computeSessionId group request) request.hash)

/-- The group key after all tweaks. -/
def tweakedKey (group : Group) (request : SignCompleteRequestInner) : Pt :=
  ((requestTweaks request).foldl tweakStep (textPoint Pt group.groupPk, 1, 0)).1

/-- What makes both signers sign a request that passes the checks, or both refuse: the members
are distinct, the nonces and the group key are encoded in a form that both libraries read, the
nonces are points, and nothing on the way is the identity. -/
structure Regular (session : SignerSession) (data : SignCompleteRequest) : Prop where
  distinct : data.request.members.Nodup
  nonces : ∀ pn ∈ data.pnonces, Readable Pt pn.hiddenPn ∧ Readable Pt pn.binderPn
  finite : ∀ nonce ∈ requestNonces Pt session.group data.request data.pnonces, nonce.Finite
  key : ∀ bytes, decode33 session.group.groupPk = some bytes → Canonical bytes
  tweakable : Readable Pt session.group.groupPk →
    Tweakable (textPoint Pt session.group.groupPk) (requestTweaks data.request)
  sums : ∀ sighash, data.request.hash.head?.bind decode32 = some sighash →
    Readable Pt session.group.groupPk →
    PartialSums 0 (groupTerms
      (bindingPrefix (tweakedKey Pt session.group data.request) sighash.data
        (requestNonces Pt session.group data.request (chosen data.request.members data.pnonces)))
      (requestNonces Pt session.group data.request (chosen data.request.members data.pnonces)))
  secret : ∀ seckey, decode32 session.share.seckey = some seckey → scalarFromBytes seckey ≠ 0

variable {Pt}

/-- The Rust signer signs with the nonces that are left. -/
theorem buildSighashContext_of_kept {group : Group} {request : SignCompleteRequestInner}
    {pnonces : List PublicNonceItem} {nonces : List PublicNonce}
    (kept : pnonces.filterMapM (fun pn => okOnly (tweakPnonce Pt pn
      (Signer.computeSessionId group request) request.hash)) = .ok nonces) {groupPk : Bytes 33}
    {sighash : Bytes 32} (decoded : decode33 group.groupPk = some groupPk)
    (hash : request.hash.head?.bind decode32 = some sighash) :
    buildSighashContextFromPnonces Pt group request (Signer.computeSessionId group request) pnonces =
      (getGroupSigningCtx Pt groupPk.data nonces sighash.data (requestTweaks request)).map
        fun ctx => (sighash, ctx) := by
  rw [buildSighashContextFromPnonces, decoded]
  cases listed : request.hash with
  | nil =>
    rw [listed] at hash
    cases hash
  | cons first rest =>
    rw [listed, List.head?_cons, Option.bind_some] at hash
    have tweaks : requestTweaks request = rest.filterMap decode32 := by
      rw [requestTweaks, listed, List.tail_cons]
    rw [listed] at kept
    show (orInvalidPoint (decode32 first) >>= _) = _
    rw [hash, tweaks]
    show ((pnonces.filterMapM _ : Result _) >>= _) = _
    rw [kept, ok_bind]
    cases getGroupSigningCtx Pt groupPk.data nonces sighash.data (rest.filterMap decode32) <;> rfl

/-- What comes out of signing: a partial signature, or an error. -/
def Signs (verdict : Option SignCompleteResult) (r : Result SignCompleteResult) : Prop :=
  match verdict with
  | some result => r = .ok result
  | none => ∃ error, r = .error (.err error)

/-- What a signer signs with. -/
def signingInput (session : SignerSession) (data : SignCompleteRequest) (secret : SecretNonce) :
    SigningInput where
  group := session.group
  request := data.request
  share := session.share
  secret
  pnonces := data.pnonces

variable {session : SignerSession} {data : SignCompleteRequest} {secret : SecretNonce}

theorem requestNonces_idx {group : Group} {request : SignCompleteRequestInner}
    {pnonces : List PublicNonceItem} :
    (requestNonces Pt group request pnonces).map (·.idx) = pnonces.map (·.idx) := by
  rw [requestNonces, List.map_map]
  rfl

/-- What is signed, with the nonces in the order of the members or in that of the request. -/
theorem Regular.signable (regular : Regular Pt session data)
    (valid : pnoncesValid session.group data.request.members data.pnonces = true)
    (listed : session.share.idx ∈ data.request.members) {key : Pt} (nonzero : key ≠ 0)
    {seckey : Bytes 32} (finite : scalarFromBytes seckey ≠ 0) {snonce : SecretNonce}
    (own : snonce.idx = session.share.idx) {pnonces : List PublicNonceItem}
    (arranged : (chosen data.request.members data.pnonces).Perm pnonces) :
    Signable key (requestNonces Pt session.group data.request pnonces)
      { idx := session.share.idx, seckey } snonce := by
  have idx := chosen_idx valid
  have places : data.request.members.Perm (pnonces.map (·.idx)) := by
    rw [← idx]
    exact arranged.map _
  refine ⟨nonzero, ?_, ?_, ?_, own, finite⟩
  · intro nonce member
    have all := (chosen_perm valid regular.distinct).symm.trans arranged
    exact regular.finite nonce ((all.map _).symm.subset member)
  · rw [requestNonces_idx]
    exact places.nodup_iff.mp regular.distinct
  · rw [requestNonces_idx]
    exact places.subset listed

section Signed

variable {sighash : Bytes 32} {ctx : GroupSigningCtx Pt} {ctx' : Taproot.GroupSigningCtx}
variable {seckey : Bytes 32} {sig : ShareSignature}

end Signed

end Signing

end Pomade.Go
