import Pomade.Signer.Exactness
import Pomade.Signer.Expiry
import Pomade.Signer.Replacement

/-! # A commitment is honoured

Between the two rounds of a signature a commitment waits in memory, while the signer goes on with
other requests and with its cleanups.  It is not lost: unless its own client spends it, or a cleanup
comes after its lifetime, it is still there for the second round, which is then answered with a
signature by the share of the first one.
-/

namespace Pomade.Signer

open Pomade.Lib Pomade.Frost Coll

/-! ## Waiting -/

/-- The commitment is pending for the client, and no other one has its id. -/
structure Waits (client : Str) (entry : CommitEntry) (s : State) : Prop where
  pending : entry ∈ s.pending client
  sole : ∀ other ∈ s.pending client, other.commitId = entry.commitId → other = entry

/-- The call takes the commitment away. -/
def Op.Removes (client : Str) (entry : CommitEntry) : Op → Prop
  | .takeCommit owner commitId | .takeCommitInOrder owner commitId =>
    owner = client ∧ commitId = entry.commitId
  | .reapCommits cutoff => entry.createdAt < cutoff
  | _ => False

section Waiting

variable {client : Str} {entry : CommitEntry} {s s' : State}

theorem Waits.of_pending (waits : Waits client entry s) (pending : entry ∈ s'.pending client)
    (fewer : ∀ other ∈ s'.pending client, other ∈ s.pending client) : Waits client entry s' :=
  ⟨pending, fun other member => waits.sole other (fewer other member)⟩

theorem Waits.of_take (waits : Waits client entry s)
    {remove : List CommitEntry → Nat → List CommitEntry} (removes : Removes remove)
    {owner commitId : Str} (spares : ¬ (owner = client ∧ commitId = entry.commitId)) :
    Waits client entry (s.takeCommit remove owner commitId).2 := by
  cases taken : (s.takeCommit remove owner commitId).1 with
  | none =>
    rw [(takeCommit_none taken).1]
    exact waits
  | some found =>
    obtain ⟨named, own, others⟩ := takeCommit_some removes taken
    by_cases same : client = owner
    · subst same
      have other : entry ≠ found := by
        intro here
        exact spares ⟨rfl, here ▸ named.symm⟩
      refine waits.of_pending ?_ fun other member => own.subset (List.mem_cons_of_mem _ member)
      exact (List.mem_cons.mp (own.symm.subset waits.pending)).resolve_left other
    · have kept := others client same
      refine waits.of_pending (kept ▸ waits.pending) fun other member => kept ▸ member

/-- A commitment waits through every call but those that take it away. -/
theorem Waits.of_step {signing : SigningFn} {R : Nat → Nat → Prop} {o : Op} {answer : Ans o}
    (waits : Waits client entry s) (spares : ¬ o.Removes client entry)
    (fresh : o.storedId ≠ some entry.commitId) (step : (world signing R).step o s answer s') :
    Waits client entry s' := by
  by_cases touches : o.TouchesPending
  · cases o with
    | pushCommit owner new =>
      have outcome := (step_pushCommit.mp step).2
      subst outcome
      have grown := pending_push s owner client new
      by_cases same : client = owner
      · subst same
        rw [if_pos rfl] at grown
        refine ⟨by rw [grown]; exact List.mem_append_left _ waits.pending, fun other member named => ?_⟩
        rw [grown] at member
        cases List.mem_append.mp member with
        | inl earlier => exact waits.sole other earlier named
        | inr last =>
          rw [List.mem_singleton.mp last] at named
          exact absurd (congrArg some named) fresh
      · rw [if_neg same] at grown
        exact waits.of_pending (grown ▸ waits.pending) fun other member => grown ▸ member
    | takeCommit owner commitId =>
      have outcome := (step_takeCommit.mp step).2
      subst outcome
      exact waits.of_take removes_swapRemove spares
    | takeCommitInOrder owner commitId =>
      have outcome := (step_takeCommitInOrder.mp step).2
      subst outcome
      exact waits.of_take removes_eraseIdx spares
    | reapCommits cutoff =>
      have outcome := (step_reapCommits.mp step).2
      subst outcome
      have young : cutoff ≤ entry.createdAt := not_lt.mp spares
      have left := pending_reap s cutoff client
      refine waits.of_pending ?_ fun other member => ?_
      · rw [left]
        exact List.mem_filter.mpr ⟨waits.pending, decide_eq_true young⟩
      · rw [left] at member
        exact List.mem_of_mem_filter member
    | _ => exact touches.elim
  · have same : s'.pending client = s.pending client := by
      rw [State.pending, commits_of_step touches step, State.pending]
    exact waits.of_pending (same ▸ waits.pending) fun other member => same ▸ member

/-- A commitment waits through a program whose calls do not take it away, if no commitment of its
id is made meanwhile. -/
theorem waits_of_only {signing : SigningFn} {R : Nat → Nat → Prop} {α : Type} {P : Op → Prop}
    {program : SignerProg α} {calls : List SignerCall} (only : program.Only P)
    (waits : Waits client entry s) :
    Prog.wp (traced signing R) program
      (fun _ p => (∀ call ∈ p.2, P call.op → ¬ call.op.Removes client entry) →
        (∀ call ∈ p.2, call.op.storedId ≠ some entry.commitId) → Waits client entry p.1)
      (s, calls) := by
  have kept := Prog.wp_of_only (W := traced signing R)
    (R := fun p p' => p.2 <:+ p'.2 ∧
      ((∀ call ∈ p'.2, P call.op → ¬ call.op.Removes client entry) →
        (∀ call ∈ p'.2, call.op.storedId ≠ some entry.commitId) →
          Waits client entry p.1 → Waits client entry p'.1))
    (fun p => ⟨List.suffix_refl _, fun _ _ waits => waits⟩) ?_ ?_ (fun _ _ => trivial) only (s, calls)
  · refine Prog.wp_mono ?_ _ _ kept
    intro _ p result spares fresh
    exact result.2 spares fresh waits
  · intro p p' p'' first second
    refine ⟨first.1.trans second.1, fun spares fresh waits => ?_⟩
    have earlier := second.1.subset
    refine second.2 spares fresh (first.2 ?_ ?_ waits)
    · exact fun call member => spares call (earlier member)
    · exact fun call member => fresh call (earlier member)
  · intro o p answer p' allowed step
    obtain ⟨step, grown⟩ := step
    refine ⟨grown ▸ List.suffix_cons _ _, fun spares fresh waits => ?_⟩
    have last : (⟨o, answer⟩ : SignerCall) ∈ p'.2 := by
      rw [grown]
      exact List.mem_cons_self
    exact waits.of_step (spares _ last allowed) (fresh _ last) step

end Waiting

/-! ## Requests that spare a commitment -/

section Spares

variable {Pt : Type} [AddCommGroup Pt] [Module Scalar Pt] [Curve Pt] {client : Str}
variable {entry : CommitEntry}

theorem Op.Plain.spares {writes : List Coll} (o : Op) (plain : o.Plain writes) :
    ¬ o.Removes client entry := by
  intro removes
  cases o with
  | takeCommit owner commitId => exact plain
  | takeCommitInOrder owner commitId => exact plain
  | reapCommits cutoff => exact plain
  | _ => exact removes

theorem spares_checkAndRecordRateLimit (owner : Str) :
    (checkAndRecordRateLimit owner).Only fun o => ¬ o.Removes client entry := by
  have listed : rateLimitByClient ∈ [rateLimitByClient] := List.mem_cons_self
  exact (plain_checkAndRecordRateLimit listed owner).mono Op.Plain.spares

theorem spares_handleSignCommit [Sha2] (auth : NostrAuth) (data : SignCommitRequest) :
    (handleSignCommit Pt auth data).Only fun o => ¬ o.Removes client entry := by
  unfold handleSignCommit
  dsimp only
  rw [Prog.only_op_bind]
  refine ⟨id, fun session => ?_⟩
  cases session with
  | none => trivial
  | some session =>
    dsimp only
    split
    · trivial
    refine (spares_checkAndRecordRateLimit _).bind fun admitted => ?_
    split
    · trivial
    split
    · trivial
    cases decode32 session.share.seckey with
    | none => trivial
    | some seckey =>
      dsimp only
      rw [Prog.only_op_bind]
      refine ⟨id, fun binderSeed => ?_⟩
      rw [Prog.only_op_bind]
      refine ⟨id, fun hiddenSeed => (only_ofResult _).bind fun made => ?_⟩
      cases made with
      | error e => trivial
      | ok pkg =>
        refine ⟨id, fun bytes => ⟨id, fun createdAt => ⟨id, fun _ => ?_⟩⟩⟩
        refine (only_ofResult _).bind fun pubkey => ?_
        cases pubkey with
        | error e => trivial
        | ok pubkey => trivial

theorem spares_handleSignComplete [Sha2] {auth : NostrAuth} {data : SignCompleteRequest}
    (other : auth.pubkey = client → data.commitId ≠ entry.commitId) :
    (handleSignComplete Pt auth data).Only fun o => ¬ o.Removes client entry := by
  refine only_handleSignComplete (spares_checkAndRecordRateLimit _) id (fun _ => id) ?_ (fun _ => id)
    fun _ _ => id
  exact fun taken => other taken.1 taken.2

/-- Only by its own id is a commitment taken for a client. -/
theorem takes_handleSignComplete [Sha2] (auth : NostrAuth) (data : SignCompleteRequest) :
    (handleSignComplete Pt auth data).Only fun o => o.Removes client entry →
      o = .takeCommit client entry.commitId := by
  have limited : (checkAndRecordRateLimit auth.pubkey).Only fun o => o.Removes client entry →
      o = .takeCommit client entry.commitId :=
    (spares_checkAndRecordRateLimit _).mono fun _ spares removes => absurd removes spares
  refine only_handleSignComplete limited nofun (fun _ => nofun) ?_ (fun _ => nofun) fun _ _ => nofun
  rintro ⟨own, named⟩
  rw [own, named]

theorem dispatch_spares [Sha2] [Argon2] {options : SignerOptions} (auth : NostrAuth)
    (body : Body Auth)
    (other : ∀ data, body = .signComplete data → auth.pubkey = client →
      data.commitId ≠ entry.commitId) :
    (dispatch Pt options auth body).Only fun o => ¬ o.Removes client entry := by
  have started : ∀ {record : Str → Nat → List Str → SignerProg Unit} {success : String}
      (data : StartRequest Auth),
      (∀ client' createdAt clients,
        (record client' createdAt clients).Only fun o => ¬ o.Removes client entry) →
      (startWith record success auth data).Only fun o => ¬ o.Removes client entry :=
    fun data recorded => only_startWith id (fun _ _ => id) (fun _ => id) (fun _ _ => id) recorded
      auth data
  cases body with
  | signCommit data => exact spares_handleSignCommit auth data
  | signComplete data => exact spares_handleSignComplete (other data rfl)
  | challenge data => exact (plain_handleChallenge data).mono Op.Plain.spares
  | ecdh data => exact (plain_handleEcdh auth data).mono Op.Plain.spares
  | loginSelect data => exact (plain_handleLoginSelect auth data).mono Op.Plain.spares
  | loginStart data =>
    unfold dispatch handleLoginStart
    apply started
    exact fun client' createdAt clients => ⟨id, fun _ => trivial⟩
  | recoverySelect data => exact (plain_handleRecoverySelect auth data).mono Op.Plain.spares
  | recoverySetup data => exact (plain_handleRecoverySetup auth data).mono Op.Plain.spares
  | recoveryStart data =>
    unfold dispatch handleRecoveryStart
    apply started
    exact fun client' createdAt clients => ⟨id, fun _ => trivial⟩
  | register data => exact (plain_handleRegister auth data).mono Op.Plain.spares
  | sessionDeactivate data => exact (plain_handleSessionDeactivate auth data).mono Op.Plain.spares
  | sessionDelete data => exact (plain_handleSessionDelete auth data).mono Op.Plain.spares
  | sessionList => exact (plain_handleSessionList auth).mono Op.Plain.spares

end Spares

/-! ## The second round -/

/-- The answer to a request to sign that has passed every check. -/
def signedAnswer : Result SignCompleteResult → Option Response
  | .ok result => some (accept "Successfully signed event" (.psig result))
  | .error (.err _) => some (refuse "Failed to sign event")
  | .error (.panic _) => none

/-- The request completes what a request to commit was answered with, for its members and with its
public nonce. -/
structure Completes [Sha2] (session : SignerSession) (asked : List UInt32)
    (commit : SignCommitResult) (data : SignCompleteRequest) : Prop where
  commitId : data.commitId = commit.commitId
  members : data.request.members = asked
  valid : pnoncesValid session.group data.request.members data.pnonces = true
  own : { idx := commit.idx, hiddenPn := commit.hiddenPn, binderPn := commit.binderPn } ∈ data.pnonces
  verified : verifySessionPkg session.group data.request = true

section Second

variable {Pt : Type} [AddCommGroup Pt] [Module Scalar Pt] [Curve Pt]

theorem ownMatches_of_published {secret : SecretNonce} {pnonces : List PublicNonceItem}
    {pn : PublicNonceItem} (listed : pn ∈ pnonces) (own : pn.idx = secret.idx)
    (published : Published Pt secret pn.hiddenPn pn.binderPn) :
    ownMatches Pt secret pnonces = .ok true := by
  obtain ⟨⟨hidden, hiddenMade, hiddenText⟩, ⟨binder, binderMade, binderText⟩⟩ := published
  have found : (pnonces.any fun pn => pn.idx == secret.idx && pn.hiddenPn == hexEncode hidden.data &&
      pn.binderPn == hexEncode binder.data) = true := by
    refine List.any_eq_true.mpr ⟨pn, listed, ?_⟩
    simp [own, hiddenText, binderText]
  rw [ownMatches, hiddenMade, binderMade]
  exact congrArg Except.ok found

variable [Sha2] {s : State} {calls : List SignerCall} {client : Str} {entry : CommitEntry}

/-- A request that completes a waiting commitment of an active session is answered with what is
signed, or the client is limited. -/
theorem handleSignComplete_answers {auth : NostrAuth} {data : SignCompleteRequest}
    {session : SignerSession} (stored : s.sessions.get auth.pubkey = some session)
    (active : session.deactivatedAt = none) (waits : Waits auth.pubkey entry s)
    (named : data.commitId = entry.commitId) (members : data.request.members = entry.members)
    (valid : pnoncesValid session.group data.request.members data.pnonces = true)
    (own : ownMatches Pt entry.secret data.pnonces = .ok true)
    (verified : verifySessionPkg session.group data.request = true) :
    Prog.wp (traced (createPsigPkgWithNonce Pt) (· ≤ ·)) (handleSignComplete Pt auth data)
      (fun r _ => (r = some (refuse "Rate limit exceeded. Please try again later.") ∧
          ∃ time, s.clock ≤ time ∧ s.limits auth.pubkey time = true) ∨
        r = signedAnswer (createPsigPkgWithNonce Pt
          { group := session.group, request := data.request, share := session.share,
            secret := entry.secret, pnonces := data.pnonces })) (s, calls) := by
  unfold handleSignComplete
  dsimp only
  rw [wp_get]
  have found : (s.table .sessions).get auth.pubkey = some session := stored
  rw [found]
  dsimp only
  rw [active]
  simp only [Option.isSome_none, Bool.false_eq_true, if_false]
  refine Prog.wp_then checkAndRecordRateLimit_checked ?_
  intro admitted p checked
  obtain ⟨s₁, calls₁⟩ := p
  have pending : s₁.pending auth.pubkey = s.pending auth.pubkey := by
    cases checked with
    | refused _ _ => rfl
    | admitted _ _ _ => rfl
  cases admitted with
  | false =>
    cases checked with
    | refused later limited => exact .inl ⟨rfl, _, later, limited⟩
  | true =>
    simp only [Bool.not_true, Bool.false_eq_true, if_false]
    rw [takeCommit, wp_takePending]
    cases taken : (s₁.takeCommit swapRemove auth.pubkey data.commitId).1 with
    | none =>
      refine absurd named.symm ((takeCommit_none taken).2 entry ?_)
      rw [pending]
      exact waits.pending
    | some found =>
      obtain ⟨id, removed, _⟩ := takeCommit_some removes_swapRemove taken
      have listed : found ∈ s.pending auth.pubkey := by
        rw [← pending]
        exact removed.subset List.mem_cons_self
      have same : found = entry := waits.sole found listed (id.trans named)
      subst same
      dsimp only
      rw [if_neg (not_not.mpr members), valid]
      simp only [Bool.not_true, Bool.false_eq_true, if_false]
      simp only [own, ofResult, Prog.pure_bind, verified, Bool.not_true, Bool.false_eq_true, if_false]
      rw [wp_sign]
      -- The handler returns what the answer to its last computation says.
      cases createPsigPkgWithNonce Pt
          { group := session.group, request := data.request, share := session.share,
            secret := found.secret, pnonces := data.pnonces } with
      | ok result =>
        simp only [Prog.pure_bind]
        rw [wp_now]
        intro lastActivity _
        rw [wp_set]
        exact .inr rfl
      | error stop =>
        cases stop with
        | err e => exact .inr rfl
        | panic message => exact .inr rfl

end Second

/-! ## Runs -/

/-- The event leaves the client a session and the commitment its place: it is no request of the
client to sign with it that gets as far as taking it, no cleanup after the given time, and it makes
no commitment of the same id. -/
structure Undisturbed (client : Str) (entry : CommitEntry) (e : RustEvent) : Prop where
  present : e.after.sessions.get client ≠ none
  unspent : ∀ data, e.job.completes = some (client, data) → data.commitId = entry.commitId →
    ∀ call ∈ e.calls, call.op ≠ .takeCommit client entry.commitId
  young : e.job = .cleanup → ∀ time ∈ clockReadings e, time ≤ entry.createdAt + commitTtlSecs
  fresh : ∀ call ∈ e.calls, call.op.storedId ≠ some entry.commitId

section Runs

variable {Pt : Type} [AddCommGroup Pt] [Module Scalar Pt] [Curve Pt] [Sha2] [Argon2]
variable {options : SignerOptions} {client : Str} {entry : CommitEntry}

theorem waits_of_happens {e : RustEvent}
    (happens : e.Happens (rustWorld Pt (· ≤ ·)) (handle Pt options))
    (waits : Waits client entry e.before) (undisturbed : Undisturbed client entry e) :
    Waits client entry e.after := by
  cases job : e.job with
  | cleanup =>
    obtain ⟨_, reaped, _, last, kept, _⟩ := cleanup_youngest happens job
    have young := undisturbed.young job reaped (List.mem_of_getLast? last)
    refine waits.of_pending ?_ fun other member => ?_
    · rw [kept.commits]
      exact List.mem_filter.mpr ⟨waits.pending, decide_eq_true young⟩
    · rw [kept.commits] at member
      exact List.mem_of_mem_filter member
  | request auth route =>
    by_cases naming : ∃ data, e.job.completes = some (client, data) ∧ data.commitId = entry.commitId
    case pos =>
      -- The request was refused before it came to take the commitment.
      obtain ⟨data, completes, named⟩ := naming
      have untaken := undisturbed.unspent data completes named
      obtain ⟨auth', job', _⟩ := completes_eq completes
      have takes : (handle Pt options e.job).Only fun o => o.Removes client entry →
          o = .takeCommit client entry.commitId := by
        rw [job']
        unfold handle
        dsimp only
        split
        · exact takes_handleSignComplete auth' data
        · trivial
      refine happens.of_wp (waits_of_only takes waits) ?_ undisturbed.fresh
      exact fun call member takes removes => untaken call member (takes removes)
    have spares : (handle Pt options e.job).Only fun o => ¬ o.Removes client entry := by
      rw [job]
      cases auth with
      | none => trivial
      | some auth =>
        cases route with
        | unknown => trivial
        | malformed => trivial
        | body body =>
          unfold handle
          dsimp only
          split
          · refine dispatch_spares auth body fun data same own named => naming ⟨data, ?_, named⟩
            rw [job, same, ← own]
            rfl
          · trivial
    exact happens.of_wp (waits_of_only spares waits) (fun _ _ => id) undisturbed.fresh

/-- What the events in between leave: the commitment waits, and the session has evolved. -/
theorem waits_of_runs {ok : RustEvent → Prop} {between past : List RustEvent} {e₀ : RustEvent}
    {s : State} {session₀ : SignerSession} (orderly : e₀.after.registry.Orderly)
    (stored : e₀.after.sessions.get client = some session₀) (waits : Waits client entry e₀.after)
    (run : RustRuns Pt options (· ≤ ·) Opened ok (between ++ e₀ :: past) s)
    (undisturbed : ∀ e ∈ between, Undisturbed client entry e) :
    Waits client entry s ∧ s.registry.Orderly ∧
      ∃ session, s.sessions.get client = some session ∧ session₀.Evolves client session := by
  induction between generalizing s with
  | nil =>
    cases run with
    | step _ _ _ _ =>
      exact ⟨waits, orderly, session₀, stored, .refl (orderly.sound client session₀ stored).own⟩
  | cons e rest ih =>
    cases run with
    | step _ earlier happens _ =>
      rw [List.forall_mem_cons] at undisturbed
      obtain ⟨waits, orderly, session, stored, evolved⟩ := ih earlier undisturbed.2
      have step := registry_step happens
      obtain ⟨session', stored'⟩ := Option.ne_none_iff_exists'.mp undisturbed.1.present
      refine ⟨waits_of_happens happens waits undisturbed.1, step.orderly orderly, session', stored', ?_⟩
      exact evolved.trans (step.evolves orderly stored stored')

/-- A commitment is honoured.  A request to commit is answered with a fresh id; then, as long as the
client has a session, nothing takes the commitment away but the client or a cleanup after two
minutes, and a request of the client that completes it is answered with what the share of the first
round signs, unless the session has been deactivated or the client is limited. -/
theorem commitment_is_honoured {ok : RustEvent → Prop} {past between : List RustEvent}
    {e₀ e : RustEvent} {s : State}
    (run : RustRuns Pt options (· ≤ ·) Opened ok (e :: (between ++ e₀ :: past)) s)
    {data₀ : SignCommitRequest} {response : Response} {commit : SignCommitResult}
    (commits : e₀.job.commits = some (client, data₀)) (answered : e₀.result = some response)
    (payload : response.payload = .commit commit)
    (fresh : ∀ other ∈ e₀.before.pending client, other.commitId ≠ commit.commitId) :
    ∃ entry session₀, Makes Pt e₀.before client data₀ e₀.result entry session₀ ∧
      entry.createdAt = e₀.after.clock ∧ ((∀ e' ∈ between, Undisturbed client entry e') →
        Waits client entry e.before ∧ ∀ data, e.job.completes = some (client, data) →
          e.job.schemaValid = true → Completes session₀ data₀.members commit data →
          (∃ session, e.before.sessions.get client = some session ∧
            session.deactivatedAt.isSome) ∨
          (e.result = some (refuse "Rate limit exceeded. Please try again later.") ∧
            ∃ time, e.before.clock ≤ time ∧ e.before.limits client time = true) ∨
          e.result = signedAnswer (createPsigPkgWithNonce Pt
            { group := session₀.group, request := data.request, share := session₀.share,
              secret := entry.secret, pnonces := data.pnonces })) := by
  cases run with
  | step _ earlier happens _ =>
  obtain ⟨auth₀, job₀, same⟩ := commits_eq commits
  subst same
  have member : e₀ ∈ between ++ e₀ :: past := List.mem_append_right _ List.mem_cons_self
  obtain ⟨⟨_, reached⟩, happens₀, _⟩ := earlier.of_mem member
  cases commit_happens happens₀ job₀ with
  | inl none' => exact absurd payload (none'.2 response commit answered)
  | inr made =>
    obtain ⟨entry, session₀, grown, dated, makes⟩ := made
    obtain ⟨named, idx, published⟩ := makes.published response commit answered payload
    refine ⟨entry, session₀, makes, dated, fun undisturbed => ?_⟩
    -- The answered id is fresh, so the new entry is the only one with it.
    have waits₀ : Waits auth₀.pubkey entry e₀.after := by
      refine ⟨by simp [grown], fun other listed same => ?_⟩
      rw [grown] at listed
      cases List.mem_append.mp listed with
      | inl before => exact absurd (same.trans named.symm) (fresh other before)
      | inr last => exact List.mem_singleton.mp last
    have orderly : e₀.before.registry.Orderly :=
      RustRuns.registry opened_orderly (fun _ _ step held => step.orderly held) reached
    have step := registry_step happens₀
    -- A commit does not delete the session it was made for, so a later session evolved from it.
    have present : e₀.after.sessions.get auth₀.pubkey ≠ none := by
      rw [job₀] at step
      exact step.keeps_of_usesShare trivial (makes.stored.trans_ne (Option.some_ne_none session₀))
    obtain ⟨session₁, stored₁⟩ := Option.ne_none_iff_exists'.mp present
    have evolved₁ := step.evolves orderly makes.stored stored₁
    -- The undisturbed steps carry the entry and the session up to the completing request.
    obtain ⟨waits, _, session, stored, evolved⟩ :=
      waits_of_runs (step.orderly orderly) stored₁ waits₀ earlier undisturbed
    have evolved := evolved₁.trans evolved
    refine ⟨waits, fun data completes valid fits => ?_⟩
    cases revoked : session.deactivatedAt with
    | some time => exact .inl ⟨session, stored, by simp [revoked]⟩
    | none =>
      obtain ⟨auth, job, own⟩ := completes_eq completes
      -- Share and group never change, so the later session signs what the first round promised.
      rw [← evolved.share, ← evolved.group]
      refine .inr (of_body happens job (Q := fun r _ =>
        (r = some (refuse "Rate limit exceeded. Please try again later.") ∧
            ∃ time, e.before.clock ≤ time ∧ e.before.limits auth₀.pubkey time = true) ∨
          r = signedAnswer (createPsigPkgWithNonce Pt
            { group := session.group, request := data.request, share := session.share,
              secret := entry.secret, pnonces := data.pnonces })) (fun _ => ?_) ?_)
      · rw [← own] at stored waits ⊢
        refine handleSignComplete_answers stored revoked waits (fits.commitId.trans named)
          (fits.members.trans makes.members.symm) ?_ (ownMatches_of_published fits.own idx published) ?_
        · rw [evolved.group]
          exact fits.valid
        · rw [evolved.group]
          exact fits.verified
      · intro invalid
        rw [job] at valid
        exact absurd valid invalid

end Runs

/-! ## A cleanup in between -/

namespace Sample

attribute [local instance] sha2 argon2

/-- A run goes on with one more job. -/
theorem next_runs {R : Nat → Nat → Prop} {past : List RustEvent} {s : State} {job : Job Auth}
    {time : Nat} (run : RustRuns Scalar options R Opened (fun _ => True) past s)
    (admitted : Prog.Admits (exec (createPsigPkgWithNonce Scalar)) (permit R)
      (handle Scalar options job) (steady time) s) :
    RustRuns Scalar options R Opened (fun _ => True) (next job time s :: past)
      (next job time s).after :=
  .step (next job time s) run (Event.happens_ofRun admitted) trivial

def newcomer : List (Job Auth × Nat) := [(register (clientKey 1) [1, 2], 1000)]

def firstRound : RustEvent := next (signCommitFor (clientKey 1) [1, 2]) 1001 (play newcomer).2

def swept : RustEvent := next .cleanup 1100 firstRound.after

def secondRound : RustEvent := next (job (clientKey 1) (.signComplete late)) 1101 swept.after

/-- What the first round is answered with. -/
def offered : SignCommitResult where
  commitId := late.commitId
  idx := 1
  pubkey := generatorPoint
  hiddenPn := ownNonce.hiddenPn
  binderPn := ownNonce.binderPn

end Sample

/-- A cleanup less than two minutes later leaves the commitment, and the second round is answered
with a signature. -/
theorem commitment_is_honoured_swept :
    let _ := Sample.sha2
    let _ := Sample.argon2
    ∃ entry session₀, Makes Scalar Sample.firstRound.before (Sample.clientKey 1).pubkey
        { members := [1, 2] } Sample.firstRound.result entry session₀ ∧
      Sample.secondRound.result = signedAnswer (createPsigPkgWithNonce Scalar
        { group := session₀.group, request := Sample.late.request, share := session₀.share,
          secret := entry.secret, pnonces := Sample.late.pnonces }) := by
  intro _ _
  have first : RustRuns Scalar Sample.options (· ≤ ·) Opened (fun _ => True)
      (Sample.firstRound :: (Sample.play Sample.newcomer).1) Sample.firstRound.after :=
    Sample.next_runs (Sample.play_runs Sample.newcomer (by decide +kernel)) (by decide +kernel)
  have second : RustRuns Scalar Sample.options (· ≤ ·) Opened (fun _ => True)
      (Sample.swept :: Sample.firstRound :: (Sample.play Sample.newcomer).1) Sample.swept.after :=
    Sample.next_runs first (by decide +kernel)
  have run : RustRuns Scalar Sample.options (· ≤ ·) Opened (fun _ => True)
      (Sample.secondRound :: ([Sample.swept] ++ Sample.firstRound :: (Sample.play Sample.newcomer).1))
      Sample.secondRound.after := Sample.next_runs second (by decide +kernel)
  have answered : Sample.firstRound.result =
      some (accept "Commitment created" (.commit Sample.offered)) := by decide +kernel
  have fresh : ∀ other ∈ Sample.firstRound.before.pending (Sample.clientKey 1).pubkey,
      other.commitId ≠ Sample.offered.commitId := by decide +kernel
  have commits : Sample.firstRound.job.commits =
      some ((Sample.clientKey 1).pubkey, { members := [1, 2] }) := rfl
  obtain ⟨entry, session₀, makes, dated, honoured⟩ :=
    commitment_is_honoured run commits answered rfl fresh
  refine ⟨entry, session₀, makes, ?_⟩
  have named : Sample.offered.commitId = entry.commitId :=
    (makes.published _ _ answered rfl).1
  -- The cleanup is no request, reads the clock in time and makes no commitment.
  have undisturbed : ∀ e' ∈ [Sample.swept],
      Undisturbed (Sample.clientKey 1).pubkey entry e' := by
    intro e' member
    rw [List.mem_singleton.mp member]
    refine ⟨by decide +kernel, ?_, fun _ => ?_, ?_⟩
    · intro data completes
      cases completes
    · rw [dated]
      decide +kernel
    · have silent : ∀ call ∈ Sample.swept.calls, call.op.storedId = none := by decide +kernel
      intro call listed
      rw [silent call listed]
      exact (Option.some_ne_none _).symm
  have group : session₀.group = Sample.group [1, 2] := by
    have found : (Sample.firstRound.before.sessions.get (Sample.clientKey 1).pubkey).map (·.group) =
        some (Sample.group [1, 2]) := by decide +kernel
    rw [makes.stored] at found
    exact Option.some.inj found
  have completes : Completes session₀ [1, 2] Sample.offered Sample.late := by
    refine ⟨rfl, rfl, ?_, by decide +kernel, ?_⟩
    · rw [group]
      decide +kernel
    · rw [group]
      decide +kernel
  have active : ((Sample.secondRound.before.sessions.get (Sample.clientKey 1).pubkey).all
      fun session => session.deactivatedAt.isNone) = true := by decide +kernel
  have unlimited : Sample.secondRound.result ≠
      some (refuse "Rate limit exceeded. Please try again later.") := by decide +kernel
  obtain revoked | limited | signed := (honoured undisturbed).2 Sample.late rfl (by decide +kernel)
    completes
  · obtain ⟨session, stored, revoked⟩ := revoked
    have stored : Sample.secondRound.before.sessions.get (Sample.clientKey 1).pubkey =
        some session := stored
    rw [stored] at active
    simp only [Option.all_some, Option.isNone_iff_eq_none] at active
    rw [active] at revoked
    cases revoked
  · exact absurd limited.1 unlimited
  · exact signed

end Pomade.Signer
