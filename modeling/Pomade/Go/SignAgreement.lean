import Pomade.Go.SignComplete
import Pomade.Signer.Sample

/-! # Agreement on requests to sign

The handlers of the two signers read the same session and take the same commitment.  They ask
the same questions of a request in a different order, and a request that passes in one of them
passes in the other.
-/

namespace Pomade.Go

open Pomade.Lib Pomade.Frost Pomade.Signer Coll

/-- What a signer says when its limiter does not let a request through. -/
def rateLimited : Response := refuse "Rate limit exceeded. Please try again later."

/-- The answer of a limiter that has a record of the client. -/
def Limits (s : State) (auth : NostrAuth) (r : Option Response) : Prop :=
  r = some rateLimited ∧ s.rateLimitByClient.get auth.pubkey ≠ none

theorem takeCommit_congr {s s' : State} (same : s'.commitsByClient = s.commitsByClient)
    (remove : List CommitEntry → Nat → List CommitEntry) (client commitId : Str) :
    (s'.takeCommit remove client commitId).1 = (s.takeCommit remove client commitId).1 := by
  have pending : s'.pending client = s.pending client := by rw [State.pending, State.pending, same]
  unfold State.takeCommit
  dsimp only
  rw [pending]
  split <;> rfl

section Handlers

variable {Pt : Type} [AddCommGroup Pt] [Module Scalar Pt] [Curve Pt] [Sha2]
variable {R : Nat → Nat → Prop} {s : State} {calls : List SignerCall}
variable {auth : NostrAuth} {session : SignerSession} {entry : CommitEntry}
variable {data : SignCompleteRequest} {verdict : Option SignCompleteResult}

/-- The session is active, the request names the committed members, and there is one nonce for
each of them. -/
structure Screened (session : SignerSession) (entry : CommitEntry) (data : SignCompleteRequest) :
    Prop where
  active : session.deactivatedAt = none
  members : data.request.members = entry.members
  valid : pnoncesValid session.group data.request.members data.pnonces = true

/-- What the Rust signer asks before it signs. -/
structure Passes (Pt : Type) [AddCommGroup Pt] [Module Scalar Pt] [Curve Pt]
    (session : SignerSession) (entry : CommitEntry) (data : SignCompleteRequest) : Prop
    extends Screened session entry data where
  own : ownMatches Pt entry.secret data.pnonces = .ok true
  package : Signer.verifySessionPkg session.group data.request = true

theorem handleSignComplete_answers (stored : s.sessions.get auth.pubkey = some session)
    (taken : (s.takeCommit swapRemove auth.pubkey data.commitId).1 = some entry)
    (returns : Screened session entry data → ∃ own, ownMatches Pt entry.secret data.pnonces = .ok own)
    (signs : Passes Pt session entry data →
      Signs verdict (Signer.createPsigPkgWithNonce Pt (signingInput session data entry.secret)))
    (refuses : ¬ Passes Pt session entry data → verdict = none) :
    Prog.wp (traced (Signer.createPsigPkgWithNonce Pt) R) (Signer.handleSignComplete Pt auth data)
      (fun r _ => Limits s auth r ∨ Answers verdict r) (s, calls) := by
  have refused : ¬ Passes Pt session entry data → ∀ message, Answers verdict (some (refuse message)) := by
    intro fails message
    rw [refuses fails]
    exact ⟨message, rfl⟩
  have found : (s.table sessions).get auth.pubkey = some session := stored
  unfold Signer.handleSignComplete
  dsimp only
  rw [wp_get, found]
  dsimp only
  split
  next inactive => exact .inr (refused (fun passes => by simp [passes.active] at inactive) _)
  next active =>
  refine Prog.wp_seq (checkAndRecordRateLimit_frame _) ?_ ?_
  · rintro admitted ⟨s₁, calls₁⟩ ⟨⟨_, _, commits⟩, fresh⟩
    split
    -- The limiter lets an unknown client through, so a refusal here shows a bucket.
    next limited =>
      refine .inl ⟨rfl, fun unknown => ?_⟩
      have passed : admitted = true := Option.some.inj (fresh unknown)
      rw [passed] at limited
      cases limited
    rw [takeCommit, wp_takePending, takeCommit_congr commits, taken]
    dsimp only
    split
    next other => exact .inr (refused (fun passes => other passes.members) _)
    next members =>
    split
    next invalid => exact .inr (refused (fun passes => by simp [passes.valid] at invalid) _)
    next valid =>
    -- The comparison with the own nonce is known not to panic past these checks only.
    have screened : Screened session entry data :=
      ⟨Option.not_isSome_iff_eq_none.mp active, not_not.mp members, by simpa using valid⟩
    obtain ⟨own, matched⟩ := returns screened
    rw [matched]
    cases own with
    | false =>
      have fails : ¬ Passes Pt session entry data := by
        intro passes
        rw [passes.own] at matched
        cases matched
      exact .inr (refused fails _)
    | true =>
      show Prog.wp _ (if _ then _ else _) _ _
      split
      next other => exact .inr (refused (fun passes => by simp [passes.package] at other) _)
      next package =>
      have signed := signs ⟨screened, matched, by simpa using package⟩
      rw [wp_sign]
      cases verdict with
      -- All checks have passed, so the verdict is what the signing itself says.
      | none =>
        obtain ⟨error, failed⟩ := signed
        rw [signingInput] at failed
        rw [failed]
        exact .inr ⟨_, rfl⟩
      | some result =>
        have succeeded : Signer.createPsigPkgWithNonce Pt _ = .ok result := signed
        rw [signingInput] at succeeded
        rw [succeeded]
        show Prog.wp _ (now >>= _) _ _
        rw [wp_now]
        intro time _
        rw [wp_set]
        exact .inr rfl
  · rintro ⟨s₁, calls₁⟩ ⟨⟨⟨_, impossible⟩, _⟩, _⟩
    cases impossible

end Handlers

/-! ## The nonces of a request -/

section Checks

variable (Pt : Type) [AddCommGroup Pt] [Module Scalar Pt] [Curve Pt]

/-- The public half of the stored secret nonce is among the nonces. -/
def ownNonce (secret : SecretNonce) (pnonces : List PublicNonceItem) : Bool :=
  pnonces.any fun pn =>
    pn.idx == secret.idx && pn.hiddenPn == hexEncode (Taproot.getPubkey Pt secret.hiddenSn).data &&
      pn.binderPn == hexEncode (Taproot.getPubkey Pt secret.binderSn).data

variable {Pt} {secret : SecretNonce} {pnonces : List PublicNonceItem}
variable {group : Group} {members : List UInt32}

theorem ownMatches_eq (hidden : scalarFromBytes secret.hiddenSn ≠ 0)
    (binder : scalarFromBytes secret.binderSn ≠ 0) :
    ownMatches Pt secret pnonces = .ok (ownNonce Pt secret pnonces) := by
  rw [ownMatches, getPubkey_eq hidden, ok_bind, getPubkey_eq binder, ok_bind]
  rfl

end Checks

/-! ## The two signers -/

section Agreement

variable (Pt : Type) [AddCommGroup Pt] [Module Scalar Pt] [Curve Pt] [Sha2]

/-- The commits of a group are arranged in the same way by both signers. -/
def SameOrder (group : Group) : Prop :=
  exchangeSort (goGroup group).commits.length (goGroup group).commits =
    (group.commits.insertionSort fun a b => a.idx ≤ b.idx).map goCommit

/-- Moreover the nonce of the entry is among the nonces, and one of the signers accepts the session
package. -/
structure Bound (session : SignerSession) (entry : CommitEntry) (data : SignCompleteRequest) : Prop
    extends Screened session entry data where
  own : ownNonce Pt entry.secret data.pnonces = true
  package : Signer.verifySessionPkg session.group data.request = true ∨
    verifySessionPkg (goGroup session.group) (goRequest data.request) = true

/-- What makes the signers agree.  Each part is asked only of the requests that get as far as the
code that it is about. -/
structure Alike (session : SignerSession) (entry : CommitEntry) (data : SignCompleteRequest) :
    Prop where
  finite : Screened session entry data →
    scalarFromBytes entry.secret.hiddenSn ≠ 0 ∧ scalarFromBytes entry.secret.binderSn ≠ 0
  checked : Screened session entry data →
    verifySessionPkg (goGroup session.group) (goRequest data.request) = true →
      session.share.idx ∈ data.request.members → entry.secret.idx ∈ data.request.members
  own : Bound Pt session entry data → entry.secret.idx = session.share.idx
  arranged : Bound Pt session entry data → SameOrder session.group
  regular : Bound Pt session entry data →
    Signer.verifySessionPkg session.group data.request = true → Regular Pt session data

variable {Pt} {R : Nat → Nat → Prop} {s s' : State} {auth auth' : NostrAuth}
variable {session : SignerSession} {entry : CommitEntry} {data : SignCompleteRequest}

theorem Alike.ownMatches_eq (alike : Alike Pt session entry data)
    (screened : Screened session entry data) :
    ownMatches Pt entry.secret data.pnonces = .ok (ownNonce Pt entry.secret data.pnonces) :=
  Go.ownMatches_eq (alike.finite screened).1 (alike.finite screened).2

/-- What the Rust signer is about to sign is bound to the entry. -/
theorem Alike.bound (alike : Alike Pt session entry data) (passes : Passes Pt session entry data) :
    Bound Pt session entry data := by
  have own := passes.own
  rw [alike.ownMatches_eq passes.toScreened, Except.ok.injEq] at own
  exact ⟨passes.toScreened, own, .inl passes.package⟩

end Agreement

/-! ## Requests to a small group -/

namespace SignSample

/-- A digest that is always one, and what a message expands to with it. -/
@[reducible] def sha2 : Sha2 where
  sha256 _ := Bytes.ofNat 32 1
  expandMessage _ _ := ⟨((Bytes.ofNat 32 1).data ++ (Bytes.ofNat 32 1).data).take 48, rfl⟩

attribute [local instance] sha2

def secret : SecretNonce where
  idx := 1
  binderSn := Bytes.ofNat 32 3
  hiddenSn := Bytes.ofNat 32 2

def session (idxs : List UInt32) : SignerSession where
  client := (Sample.clientKey 1).pubkey
  share := Sample.share
  group := Sample.group idxs
  recovery := false
  createdAt := 0
  deactivatedAt := none
  lastActivity := 0
  email := none
  emailHash := none
  passwordHash := none

def commitId : Str := List.replicate 64 '0'

def entry (members : List UInt32) : CommitEntry where
  commitId := commitId
  members := members
  secret := secret
  createdAt := 0

def request (members : List UInt32) (pnonces : List PublicNonceItem) : SignCompleteRequest where
  commitId := commitId
  request :=
    { content := none
      hash := [List.replicate 64 '0']
      members
      stamp := 0
      kind := []
      gid := hexEncode (Bytes.ofNat 32 1).data
      sid := hexEncode (Bytes.ofNat 32 1).data }
  pnonces

/-- A store that has one session with one pending commitment. -/
def state (session : SignerSession) (entry : CommitEntry) : State :=
  { State.opened 0 with
    sessions := (∅ : Table SignerSession).set session.client session
    commitsByClient := (∅ : Table (List CommitEntry)).set session.client [entry] }

theorem expands : Expands := Expands.of_taproot fun _ _ => rfl

/-- The keys and nonces of the example. -/
theorem nonzero : (2 : Scalar) ≠ 0 ∧ (3 : Scalar) ≠ 0 ∧ (4 : Scalar) ≠ 0 ∧
    scalarFromBytes (Bytes.ofNat 32 1) ≠ 0 := by decide +kernel

theorem decoded : decode32 Sample.share.seckey = some (Bytes.ofNat 32 1) ∧
    decode33 Sample.generatorPoint = some (encodePoint (1 : Scalar)) ∧
    decode33 (List.replicate 66 '0') = some (Bytes.ofNat 33 0) ∧
    scalarBaseMulti Scalar (scalarFromBytes (Bytes.ofNat 32 1)) = 1 := by decide +kernel

/-- The tweaked nonces are no zeros. -/
theorem tweaked_finite : ({ idx := 1, hidden := 3, binder := 4 } : PointNonce Scalar).Finite :=
  ⟨nonzero.2.1, nonzero.2.2.1⟩

/-- What the signer signs with its own nonce alone. -/
theorem signable {seckey : Bytes 32} (finite : scalarFromBytes seckey ≠ 0) (snonce : SecretNonce)
    (own : snonce.idx = 1) :
    Signable (1 : Scalar) [{ idx := 1, hidden := 3, binder := 4 }] { idx := 1, seckey } snonce := by
  refine ⟨one_ne_zero, ?_, List.nodup_singleton _, List.mem_singleton_self _, own, finite⟩
  intro nonce member
  rw [List.mem_singleton.mp member]
  exact tweaked_finite

end SignSample

namespace SignSample

attribute [local instance] sha2

end SignSample

end Pomade.Go
