import Pomade.Signer.Index

/-! # What a deactivated session still does

The handlers that use the share of a session refuse a deactivated one.  Setting up its
recovery method does not look at the deactivation, and here is exactly when it succeeds.
-/

namespace Pomade.Signer

open Pomade.Lib Pomade.Frost Coll

/-- The requests that act through the session of the key that signed them. -/
def Body.UsesSession {A : Type} : Body A → Prop
  | .recoverySetup _ => True
  | body => body.UsesShare

/-- The event is such a request of a key. -/
def RequestOf (key : Str) (e : RustEvent) : Prop :=
  ∃ auth body, e.job = .request (some auth) (.body body) ∧ auth.pubkey = key ∧ body.UsesSession

/-- The request has been answered, without success. -/
def Refused (e : RustEvent) : Prop := ∃ response, e.result = some response ∧ response.ok = false

/-- A recovery setup passes every check of its handler at a time. -/
structure SetupOpen (session : SignerSession) (data : RecoverySetupRequest) (time : Nat) : Prop where
  recovery : session.recovery = true
  recent : cutoff15m time ≤ session.createdAt
  unset : session.email = none
  hash : regexIsHex64 data.passwordHash = true

/-- The same, at the first time that calls have read. -/
def ReadsOpen (session : SignerSession) (data : RecoverySetupRequest) (calls : List SignerCall) :
    Prop :=
  ∃ time, (calls.reverse.filterMap clockReading)[0]? = some time ∧ SetupOpen session data time

/-- The event is a recovery setup that passes the checks of its handler, by the session it finds
and the first time it reads. -/
def OpensSetup (key : Str) (e : RustEvent) : Prop :=
  ∃ auth data session, e.job = .request (some auth) (.body (.recoverySetup data)) ∧
    auth.pubkey = key ∧ e.before.sessions.get key = some session ∧
    ReadsOpen session data e.calls

/-- A request is refused and changes no session, or it is let through: then it is answered with
success, unless the hash of the email stops it. -/
def Decided (opened : Prop) (s : State) (r : Option Response) (s' : State) : Prop :=
  (¬ opened ∧ s'.sessions = s.sessions ∧ ∃ response, r = some response ∧ response.ok = false) ∨
    (opened ∧ ∀ response, r = some response → response.ok = true)

/-- The first reading of calls whose oldest ones are known decides. -/
theorem readsOpen_iff {c : Coll} {key : Str} {answer : Option c.Val} {time : Nat}
    {calls : List SignerCall} {session : SignerSession} {data : RecoverySetupRequest}
    (oldest : [⟨.now, time⟩, ⟨.get c key, answer⟩] <:+ calls) :
    ReadsOpen session data calls ↔ SetupOpen session data time := by
  obtain ⟨later, rfl⟩ := oldest
  have first : ((later ++ ([⟨.now, time⟩, ⟨.get c key, answer⟩] : List SignerCall)).reverse.filterMap
      clockReading)[0]? = some time := by
    rw [List.reverse_append]
    rfl
  unfold ReadsOpen
  rw [first]
  constructor
  · rintro ⟨time', same, opened⟩
    cases same
    exact opened
  · exact fun opened => ⟨time, rfl, opened⟩

section Handlers

variable {Pt : Type} [AddCommGroup Pt] [Module Scalar Pt] [Curve Pt] [Sha2] [Argon2]
variable {options : SignerOptions} {signing : SigningFn} {R : Nat → Nat → Prop} {s : State}

omit [Sha2] in
theorem handleRecoverySetup_decided {auth : NostrAuth} {data : RecoverySetupRequest}
    {session : SignerSession} (stored : s.sessions.get auth.pubkey = some session) :
    Prog.wp (traced signing R) (handleRecoverySetup options auth data)
      (fun r p => Decided (ReadsOpen session data p.2) s r p.1) (s, []) := by
  unfold handleRecoverySetup
  dsimp only
  rw [wp_get]
  have found : (s.table sessions).get auth.pubkey = some session := stored
  rw [found]
  dsimp only
  split
  next disabled =>
    refine .inl ⟨?_, rfl, _, rfl, rfl⟩
    rintro ⟨time, _, opened⟩
    simp [opened.recovery] at disabled
  next recovery =>
    rw [wp_now]
    intro time later
    -- Refused past the reading of the clock: the session is shut at that very time.
    have closed : ∀ {message : String}, ¬ SetupOpen session data time →
        Decided (ReadsOpen session data [⟨.now, time⟩,
          ⟨.get sessions auth.pubkey, some session⟩]) s (some (refuse message))
          { s with clock := time } := by
      intro message shut
      refine .inl ⟨?_, rfl, _, rfl, rfl⟩
      rwa [readsOpen_iff (List.suffix_refl _)]
    split
    next old => exact closed fun opened => absurd opened.recent (by omega)
    next recent =>
      split
      next set_ => exact closed fun opened => by simp [opened.unset] at set_
      next unset =>
        split
        next malformed => exact closed fun opened => by simp [opened.hash] at malformed
        next hash =>
          have opened : SetupOpen session data time :=
            ⟨by simpa using recovery, not_lt.mp recent, by simpa using unset, by simpa using hash⟩
          split
          -- The email may have no hash: the handler then stops, and nothing was written.
          swap
          · exact .inr ⟨(readsOpen_iff (List.suffix_refl _)).mpr opened, nofun⟩
          rw [wp_now]
          intro lastActivity _
          refine Prog.wp_seq (Prog.wp_and addSession_spec
            (Prog.wp_suffix (fun _ _ => trivial) _ _)) ?_ ?_
          · rintro _ p ⟨_, longer⟩
            have oldest := (List.suffix_cons _ _).trans longer
            refine .inr ⟨(readsOpen_iff oldest).mpr opened, ?_⟩
            rintro _ ⟨⟩
            rfl
          · rintro p ⟨⟨impossible, _⟩, _⟩
            cases impossible

/-- The handlers that use a share refuse a deactivated session. -/
theorem handle_deactivated {auth : NostrAuth} {body : Body Auth} (uses : body.UsesShare)
    {session : SignerSession} (stored : s.sessions.get auth.pubkey = some session)
    (revoked : session.deactivatedAt.isSome) :
    Prog.wp (traced signing R) (handle Pt options (.request (some auth) (.body body)))
      (fun r p => Decided False s r p.1) (s, []) := by
  have refused : ∀ message, Decided False s (some (refuse message)) s :=
    fun message => .inl ⟨id, rfl, _, rfl, rfl⟩
  have found : (s.table sessions).get auth.pubkey = some session := stored
  unfold handle
  dsimp only
  split
  · cases body with
    | ecdh data =>
      rw [dispatch, handleEcdh, wp_get, found]
      dsimp only
      rw [if_pos revoked]
      exact refused _
    | signCommit data =>
      rw [dispatch, handleSignCommit, wp_get, found]
      dsimp only
      rw [if_pos revoked]
      exact refused _
    | signComplete data =>
      rw [dispatch, handleSignComplete, wp_get, found]
      dsimp only
      rw [if_pos revoked]
      exact refused _
    | _ => exact uses.elim
  · exact refused _

end Handlers

/-! ## Runs -/

/-- The session of a key stays deactivated under the requests of the key. -/
theorem Step.stays_revoked {A : Type} {rules : Rules} {R : Nat → Nat → Prop} {r r' : Registry}
    {auth : NostrAuth} {body : Body A} {session : SignerSession}
    (step : Step rules R (.request (some auth) (.body body)) r r') (uses : body.UsesSession)
    (stored : r.sessions.get auth.pubkey = some session) (revoked : session.deactivatedAt.isSome) :
    ∃ session', r'.sessions.get auth.pubkey = some session' ∧ session'.deactivatedAt.isSome := by
  cases step with
  | idle _ => exact ⟨session, stored, revoked⟩
  | setup found _ _ _ _ =>
    rw [stored] at found
    cases found
    exact ⟨_, Table.get_set_self _ _ _, revoked⟩
  | touch _ found active _ =>
    rw [stored] at found
    cases found
    rw [active] at revoked
    cases revoked
  | register _ _ _ _ => exact uses.elim
  | deactivate _ _ => exact uses.elim
  | remove => exact uses.elim
  | loginStart _ _ => exact uses.elim
  | recoveryStart _ _ => exact uses.elim
  | loginDrop => exact uses.elim
  | loginSelect _ _ _ _ _ => exact uses.elim
  | recoverySelect => exact uses.elim

section Runs

variable {Pt : Type} [AddCommGroup Pt] [Module Scalar Pt] [Curve Pt] [Sha2] [Argon2]
variable {options : SignerOptions} {R : Nat → Nat → Prop} [IsPreorder Nat R] {key : Str}

omit [IsPreorder Nat R] in
theorem request_decided {e : RustEvent} {session : SignerSession}
    (happens : e.Happens (rustWorld Pt R) (handle Pt options)) (request : RequestOf key e)
    (stored : e.before.sessions.get key = some session) (revoked : session.deactivatedAt.isSome) :
    Decided (OpensSetup key e) e.before e.result e.after := by
  obtain ⟨auth, body, job, rfl, uses⟩ := request
  by_cases setup : ∃ data, body = .recoverySetup data
  · obtain ⟨data, rfl⟩ := setup
    have decided : Decided (ReadsOpen session data e.calls) e.before e.result e.after := by
      apply happens.of_wp (Q := fun r p => Decided (ReadsOpen session data p.2) e.before r p.1)
      rw [job]
      exact handleRecoverySetup_decided stored
    have same : ReadsOpen session data e.calls ↔ OpensSetup auth.pubkey e := by
      constructor
      · exact fun opened => ⟨auth, data, session, job, rfl, stored, opened⟩
      · rintro ⟨auth', data', session', job', _, stored', opened⟩
        rw [job] at job'
        cases job'
        rw [stored] at stored'
        cases stored'
        exact opened
    rwa [← propext same]
  · have uses : body.UsesShare := by
      cases body with
      | recoverySetup data => exact absurd ⟨data, rfl⟩ setup
      | _ => exact uses
    obtain ⟨_, refused⟩ | ⟨impossible, _⟩ : Decided False e.before e.result e.after := by
      apply happens.of_wp (Q := fun r p => Decided False e.before r p.1)
      rw [job]
      exact handle_deactivated uses stored revoked
    · refine .inl ⟨?_, refused⟩
      rintro ⟨auth', data, session', job', _⟩
      rw [job] at job'
      cases job'
      exact setup ⟨data, rfl⟩
    · exact impossible.elim

/-- From any state in which the session of a key is deactivated: the requests of the key
are all refused and leave its session alone, if and only if none of them is a recovery
setup that passes the checks of its handler. -/
theorem revoked_key_refused {later : List RustEvent} {s s' : State} {session : SignerSession}
    (stored : s.sessions.get key = some session) (revoked : session.deactivatedAt.isSome)
    (run : RustRuns Pt options R (fun start => start = s) (RequestOf key) later s') :
    (∀ e ∈ later, Refused e ∧ e.after.sessions.get key = e.before.sessions.get key) ↔
      ∀ e ∈ later, ¬ OpensSetup key e := by
  have still : ∀ {later : List RustEvent} {s' : State},
      RustRuns Pt options R (fun start => start = s) (RequestOf key) later s' →
      ∃ session', s'.sessions.get key = some session' ∧ session'.deactivatedAt.isSome := by
    intro later s' run
    refine Runs.invariant (I := fun s' => ∃ session', s'.sessions.get key = some session' ∧
      session'.deactivatedAt.isSome) ?_ ?_ run
    · rintro _ rfl
      exact ⟨session, stored, revoked⟩
    · rintro e happens ⟨auth, body, job, rfl, uses⟩ ⟨session', stored', revoked'⟩
      have step := registry_step happens
      rw [job] at step
      exact step.stays_revoked uses stored' revoked'
  have decided : ∀ e ∈ later, Decided (OpensSetup key e) e.before e.result e.after := by
    intro e member
    obtain ⟨⟨earlier, reached⟩, happens, request⟩ := run.of_mem member
    obtain ⟨session', stored', revoked'⟩ := still reached
    exact request_decided happens request stored' revoked'
  refine forall₂_congr fun e member => ?_
  obtain ⟨shut, same, refused⟩ | ⟨opened, accepted⟩ := decided e member
  · exact ⟨fun _ => shut, fun _ => ⟨refused, by rw [same]⟩⟩
  · refine ⟨fun both => ?_, fun shut => absurd opened shut⟩
    obtain ⟨⟨response, answer, refused⟩, _⟩ := both
    rw [accepted response answer] at refused
    cases refused

end Runs

section Sample

attribute [local instance] Sample.sha2 Sample.argon2

/-- A registration that the user deactivates. -/
def revokedRun : List (Job Auth × Nat) :=
  [(Sample.register (Sample.clientKey 7) [1], 1000), (Sample.deactivate (Sample.clientKey 7), 1001)]

/-- The revoked key binds an email to its session. -/
theorem revoked_key_sets_up :
    ¬ ∀ (past : List RustEvent) (s : State) (key : Str) (session : SignerSession) (e : RustEvent),
      RustRuns Scalar Sample.options (· ≤ ·) Opened (fun _ => True) past s →
      s.sessions.get key = some session → session.deactivatedAt.isSome →
      e.before = s → e.Happens (rustWorld Scalar (· ≤ ·)) (handle Scalar Sample.options) →
      RequestOf key e → Refused e ∧ e.after.sessions.get key = s.sessions.get key := by
  intro refused
  have run := Sample.play_runs (R := (· ≤ ·)) revokedRun (by decide +kernel)
  have present : ((Sample.play revokedRun).2.sessions.get (Sample.clientKey 7).pubkey).any
      (fun session => session.deactivatedAt.isSome) = true := by decide +kernel
  obtain ⟨session, stored, revoked⟩ := (Option.any_eq_true _ _).mp present
  have happens : (Sample.next (Sample.setup (Sample.clientKey 7) Sample.passwordHash) 1002
      (Sample.play revokedRun).2).Happens (rustWorld Scalar (· ≤ ·))
      (handle Scalar Sample.options) := Event.happens_ofRun (by decide +kernel)
  obtain ⟨⟨response, answer, notOk⟩, _⟩ := refused _ _ _ session _ run stored revoked rfl happens
    ⟨_, _, rfl, rfl, trivial⟩
  have accepted : (Sample.next (Sample.setup (Sample.clientKey 7) Sample.passwordHash) 1002
      (Sample.play revokedRun).2).result.map (fun response => response.ok) = some true := by
    decide +kernel
  rw [answer, Option.map_some, notOk] at accepted
  cases accepted

/-- A malformed password hash is refused. -/
theorem revoked_key_refused_malformed :
    let e := Sample.next (Sample.setup (Sample.clientKey 7) []) 1002 (Sample.play revokedRun).2
    ∀ e' ∈ [e], Refused e' ∧ e'.after.sessions.get (Sample.clientKey 7).pubkey =
      e'.before.sessions.get (Sample.clientKey 7).pubkey := by
  intro e
  have present : ((Sample.play revokedRun).2.sessions.get (Sample.clientKey 7).pubkey).any
      (fun session => session.deactivatedAt.isSome) = true := by decide +kernel
  obtain ⟨session, stored, revoked⟩ := (Option.any_eq_true _ _).mp present
  have happens : e.Happens (rustWorld Scalar (· ≤ ·)) (handle Scalar Sample.options) :=
    Event.happens_ofRun (by decide +kernel)
  refine (revoked_key_refused stored revoked (.step e (.start _ rfl) happens
    ⟨_, _, rfl, rfl, trivial⟩)).mpr ?_
  intro e' member
  obtain rfl := List.mem_singleton.mp member
  rintro ⟨auth, data, session', job, _, _, time, _, opened⟩
  have same : data.passwordHash = [] := by
    cases job
    rfl
  have hash := opened.hash
  rw [same] at hash
  cases hash

end Sample

end Pomade.Signer
