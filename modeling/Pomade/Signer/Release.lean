import Pomade.Signer.Limiter
import Pomade.Signer.Sessions

/-! # Releasing a share

A client gets at the session of an account in two requests.  It starts with credentials, which
open some sessions, and then it selects one of them.  Between the two, other requests may have
changed the sessions, so what a selection releases is followed back through the run to the start
that has opened it.
-/

namespace Pomade.Signer

open Pomade.Lib Pomade.Frost Coll

/-! ## Credentials -/

/-- The credentials are those of a session, or of the challenge that is stored for its email. -/
def Auth.Proves (s : State) (session : SignerSession) : Auth → Prop
  | .password _ passwordHash => session.passwordHash = some passwordHash
  | .otp emailHash code =>
    ∃ challenge, s.challenges.get emailHash = some challenge ∧ challenge.otp = code

/-- The credentials open the session that is stored under the key. -/
structure Opens (s : State) (auth : Auth) (key : Str) (session : SignerSession) : Prop where
  listed : ∃ index, s.sessionsByEmailHash.get auth.emailHash = some index ∧ key ∈ index.clients
  stored : s.sessions.get key = some session
  proved : auth.Proves s session

theorem ctStrEq_iff {a b : Str} : ctStrEq a b = true ↔ a = b := by
  unfold ctStrEq
  constructor
  · intro same
    simp only [Bool.and_eq_true, beq_iff_eq] at same
    exact same.2
  · intro same
    simp [same]

section Credentials

variable {signing : SigningFn} {R : Nat → Nat → Prop} [IsPreorder Nat R] {s : State}
variable {calls : List SignerCall}

omit [IsPreorder Nat R] in
theorem indexedSessions_stored {index : SessionIndex} :
    Prog.wp (traced signing R) (indexedSessions index)
      (fun r p => ∃ found, r = some found ∧ p.1 = s ∧
        ∀ session ∈ found, ∃ key ∈ index.clients, s.sessions.get key = some session)
      (s, calls) := by
  refine Prog.wp_filterMap (I := fun _ kept p => p.1 = s ∧
    ∀ session ∈ kept, ∃ key ∈ index.clients, s.sessions.get key = some session)
    index.clients [] [] _ ⟨rfl, fun _ member => absurd member List.not_mem_nil⟩ ?_ ?_
  · intro done kept client p member held
    obtain ⟨s₁, calls₁⟩ := p
    obtain ⟨same, stored⟩ := held
    cases same
    rw [Coll.get, Prog.op_eq, wp_get]
    refine ⟨_, rfl, rfl, fun session listed => ?_⟩
    cases List.mem_append.mp listed with
    | inl earlier => exact stored session earlier
    | inr last => exact ⟨client, member, Option.mem_toList.mp last⟩
  · intro rest p held
    exact ⟨rest, rfl, held.1, by simpa using held.2⟩

/-- Whatever a check of credentials finds is open to them. -/
theorem evaluateAuth_opens {auth : Auth} :
    Prog.wp (traced signing R) (evaluateAuth auth (s.sessionsByEmailHash.get auth.emailHash))
      (fun r p => ∃ found, r = some found ∧ Quiet R s p.1 ∧
        ∀ session ∈ found, ∃ key, Opens s auth key session) (s, calls) := by
  have nothing : ∀ session ∈ ([] : List SignerSession), ∃ key, Opens s auth key session :=
    fun _ member => absurd member List.not_mem_nil
  unfold evaluateAuth
  cases indexed : s.sessionsByEmailHash.get auth.emailHash with
  | none => exact ⟨[], rfl, .refl s, nothing⟩
  | some index =>
    cases auth with
    | password emailHash passwordHash =>
      dsimp only
      refine Prog.wp_then indexedSessions_stored ?_
      intro stored p found
      obtain ⟨s₁, calls₁⟩ := p
      obtain ⟨same, stored⟩ := found
      cases same
      refine ⟨_, rfl, .refl _, fun session member => ?_⟩
      obtain ⟨listed, proved⟩ := List.mem_filter.mp member
      obtain ⟨key, client, here⟩ := stored session listed
      refine ⟨key, ⟨index, indexed, client⟩, here, ?_⟩
      -- A session without a password is never found by one.
      cases password : session.passwordHash with
      | none => simp [passwordMatches, password] at proved
      | some hash =>
        simp only [passwordMatches, password, ctStrEq_iff] at proved
        exact password.trans (congrArg some proved)
    | otp emailHash otp =>
      dsimp only
      rw [wp_get]
      cases issued : (s.table challenges).get emailHash with
      | none => exact ⟨[], rfl, .refl s, nothing⟩
      | some challenge =>
        dsimp only
        rw [wp_delete]
        -- The code is spent before it is compared: a wrong guess uses it up as well.
        have deleted : Quiet R s (s.setTable challenges ((s.table challenges).delete emailHash)) :=
          ⟨rfl, rfl, rfl, rfl, refl_of R _⟩
        split
        · next same =>
          refine Prog.wp_mono ?_ _ _ indexedSessions_stored
          intro r p result
          obtain ⟨found, returned, same', stored⟩ := result
          refine ⟨found, returned, same' ▸ deleted, fun session member => ?_⟩
          obtain ⟨key, client, here⟩ := stored session member
          exact ⟨key, ⟨index, indexed, client⟩, here, challenge, issued, (ctStrEq_iff.mp same).symm⟩
        · exact ⟨[], rfl, deleted, nothing⟩

theorem getAuthenticatedSessions_opens {auth : Auth} :
    Prog.wp (traced signing R) (getAuthenticatedSessions auth)
      (fun r p => ∃ found, r = some found ∧ Quiet R s p.1 ∧
        ∀ session ∈ found, ∃ key, Opens s auth key session) (s, calls) := by
  unfold getAuthenticatedSessions
  dsimp only
  rw [wp_get]
  refine Prog.wp_then isRateLimited_read ?_
  intro limited p checked
  obtain ⟨time, later, same, _⟩ := checked
  subst same
  have waited : Quiet R s { s with clock := time } := ⟨rfl, rfl, rfl, rfl, later⟩
  split
  · exact ⟨[], rfl, waited, fun _ member => absurd member List.not_mem_nil⟩
  rw [wp_get]
  refine Prog.wp_then (evaluateAuth_opens (s := { s with clock := time })) ?_
  intro found p evaluated
  obtain ⟨s₂, calls₂⟩ := p
  obtain ⟨quiet, opened⟩ := evaluated
  have opened : ∀ session ∈ found, ∃ key, Opens s auth key session := by
    intro session member
    obtain ⟨key, opens⟩ := opened session member
    refine ⟨key, opens.listed, opens.stored, ?_⟩
    cases auth with
    | password _ _ => exact opens.proved
    | otp _ _ => exact opens.proved
  split
  · rw [wp_recordAttempt]
    intro time' next
    rw [wp_set]
    exact ⟨found, rfl, (waited.trans quiet).trans ⟨rfl, rfl, rfl, rfl, next⟩, opened⟩
  · exact ⟨found, rfl, waited.trans quiet, opened⟩

end Credentials

/-! ## Starting and selecting -/

/-- The two ways to a session of an account. -/
inductive Access where
  | login
  | recovery

/-- The keys that a client may select one of. -/
def Access.opened (r : Registry) (client : Str) : Access → Option (List Str)
  | .login => (r.logins.get client).map (·.clients)
  | .recovery => (r.recoveries.get client).map (·.clients)

/-- The body of a request that opens sessions. -/
def Access.start {A : Type} (data : StartRequest A) : Access → Body A
  | .login => .loginStart data
  | .recovery => .recoveryStart data

/-- The body of a request that selects one of them. -/
def Access.select {A : Type} (data : SelectRequest) : Access → Body A
  | .login => .loginSelect data
  | .recovery => .recoverySelect data

section Steps

variable {A : Type} {rules : Rules} {R : Nat → Nat → Prop} {job : Job A} {r r' : Registry}
variable {access : Access} {client : Str} {keys : List Str}

theorem map_get_shrinks {V : Type} {t t' : Table V} {f : V → List Str} (shrinks : Shrinks t t')
    (stored : (t'.get client).map f = some keys) : (t.get client).map f = some keys := by
  obtain ⟨value, stored, same⟩ := Option.map_eq_some_iff.mp stored
  rw [shrinks.get_eq stored]
  exact congrArg some same

theorem map_get_set {V : Type} {t : Table V} {f : V → List Str} {client' : Str} {value : V}
    (stored : ((t.set client' value).get client).map f = some keys) :
    (t.get client).map f = some keys ∨ client' = client := by
  by_cases same : client = client'
  · exact .inr same.symm
  · rw [Table.get_set_ne same] at stored
    exact .inl stored

/-- A step opens sessions to nobody but the client that starts. -/
theorem Step.opened (step : Step rules R job r r') (opened : access.opened r' client = some keys) :
    access.opened r client = some keys ∨
      ∃ auth data, job = .request (some auth) (.body (access.start data)) ∧ auth.pubkey = client := by
  have kept : Shrinks r.logins r'.logins → Shrinks r.recoveries r'.recoveries →
      access.opened r client = some keys := by
    intro logins recoveries
    cases access with
    | login => exact map_get_shrinks logins opened
    | recovery => exact map_get_shrinks recoveries opened
  cases step with
  | @loginStart auth data =>
    cases access with
    | login => exact (map_get_set opened).imp_right fun same => ⟨auth, data, rfl, same⟩
    | recovery => exact .inl opened
  | @recoveryStart auth data =>
    cases access with
    | login => exact .inl opened
    | recovery => exact (map_get_set opened).imp_right fun same => ⟨auth, data, rfl, same⟩
  | remove =>
    refine .inl (kept ?_ ?_)
    · unfold Registry.deleteSession
      split <;> exact .refl _
    · unfold Registry.deleteSession
      split <;> exact .refl _
  | loginDrop => exact .inl (kept (.delete _ _) (.refl _))
  | loginSelect _ _ _ _ _ => exact .inl (kept (.delete _ _) (.refl _))
  | recoverySelect => exact .inl (kept (.refl _) (.delete _ _))
  | cleanup logins recoveries _ _ => exact .inl (kept logins recoveries)
  | _ => exact .inl (kept (.refl _) (.refl _))

/-- A start leaves the sessions alone. -/
theorem Step.sessions_of_start {auth : NostrAuth} {data : StartRequest A}
    (step : Step rules R (.request (some auth) (.body (access.start data))) r r') :
    r'.sessions = r.sessions := by
  cases access with
  | login =>
    cases step with
    | idle _ => rfl
    | loginStart _ _ => rfl
    | touch uses _ _ _ => exact uses.elim
  | recovery =>
    cases step with
    | idle _ => rfl
    | recoveryStart _ _ => rfl
    | touch uses _ _ _ => exact uses.elim

end Steps

section Handlers

variable {signing : SigningFn} {R : Nat → Nat → Prop} [IsPreorder Nat R] {s : State}
variable {calls : List SignerCall}

/-- What a start leaves for its client to select was there before, or its credentials open it. -/
def StartOpens (access : Access) (s : State) (client : Str) (auth : Auth) (s' : State) : Prop :=
  ∀ keys, access.opened s'.registry client = some keys →
    access.opened s.registry client = some keys ∨
      ∀ key ∈ keys, ∃ session, Opens s auth key session

omit [IsPreorder Nat R] in
theorem Quiet.startOpens {access : Access} {client : Str} {auth : Auth} {s' : State}
    (quiet : Quiet R s s') : StartOpens access s client auth s' := by
  intro keys opened
  rw [quiet.registry] at opened
  cases access with
  | login => exact .inl opened
  | recovery => exact .inl opened

theorem startWith_opens {access : Access} {record : Str → Nat → List Str → SignerProg Unit}
    {success : String} {auth : NostrAuth} {data : StartRequest Auth} (sound : s.registry.Sound)
    (recorded : ∀ (s₁ : State) calls₁ createdAt clients, Quiet R s s₁ →
      Prog.wp (traced signing R) (record auth.pubkey createdAt clients)
        (fun r p => r = some () ∧
          access.opened p.1.registry auth.pubkey = some clients) (s₁, calls₁)) :
    Prog.wp (traced signing R) (startWith record success auth data)
      (fun _ p => StartOpens access s auth.pubkey data.auth p.1) (s, calls) := by
  unfold startWith
  dsimp only
  refine Prog.wp_then checkKeyReuse_spec ?_
  intro reused p checked
  obtain ⟨s₁, calls₁⟩ := p
  have same : s₁ = s := checked.1
  subst same
  split
  · exact (Quiet.refl s₁ : Quiet R s₁ s₁).startOpens
  refine Prog.wp_then getAuthenticatedSessions_opens ?_
  intro found p authenticated
  obtain ⟨s₂, calls₂⟩ := p
  obtain ⟨quiet, opened⟩ := authenticated
  split
  · exact quiet.startOpens
  rw [wp_now]
  intro createdAt later
  refine Prog.wp_unit (recorded _ _ _ _ (quiet.trans ⟨rfl, rfl, rfl, rfl, later⟩)) ?_
  intro p stored keys now
  -- The keys recorded are those of the sessions that were found, each stored under its own.
  rw [stored] at now
  cases now
  refine .inr fun key member => ?_
  obtain ⟨session, listed, own⟩ := List.mem_map.mp member
  obtain ⟨key', opens⟩ := opened session listed
  have same : session.client = key' := (sound key' session opens.stored).own
  exact ⟨session, own ▸ same ▸ opens⟩

theorem handleLoginStart_opens {auth : NostrAuth} {data : StartRequest Auth}
    (sound : s.registry.Sound) :
    Prog.wp (traced signing R) (handleLoginStart auth data)
      (fun _ p => StartOpens .login s auth.pubkey data.auth p.1) (s, calls) := by
  refine startWith_opens sound ?_
  intro s₁ calls₁ createdAt clients quiet
  rw [Coll.set, Prog.op_eq, wp_set]
  refine ⟨rfl, ?_⟩
  rw [Access.opened]
  exact congrArg _ (Table.get_set_self ..)

theorem handleRecoveryStart_opens {auth : NostrAuth} {data : StartRequest Auth}
    (sound : s.registry.Sound) :
    Prog.wp (traced signing R) (handleRecoveryStart auth data)
      (fun _ p => StartOpens .recovery s auth.pubkey data.auth p.1) (s, calls) := by
  refine startWith_opens sound ?_
  intro s₁ calls₁ createdAt clients quiet
  rw [Coll.set, Prog.op_eq, wp_set]
  refine ⟨rfl, ?_⟩
  rw [Access.opened]
  exact congrArg _ (Table.get_set_self ..)

/-- The answer gives the group of a session away, and the share as well or in a session of the
client's own. -/
def Access.Releases (auth : NostrAuth) (session : SignerSession) (r : Option Response)
    (s' : State) : Access → Prop
  | .login => r = some (accept "Login successfully completed." (.group session.group)) ∧
    ∃ t₁ t₂, s'.sessions.get auth.pubkey = some (copiedSession auth session t₁ t₂)
  | .recovery =>
    r = some (accept "Recovery successfully completed." (.recovered session.share session.group))

/-- A selection uses up what the client could select, and releases a session only if its key was
among that. -/
structure Selected (access : Access) (s : State) (auth : NostrAuth) (data : SelectRequest)
    (r : Option Response) (s' : State) : Prop where
  used : access.opened s'.registry auth.pubkey = none
  released : ∀ response, r = some response → response.ok = true →
    ∃ keys session, access.opened s.registry auth.pubkey = some keys ∧ data.client ∈ keys ∧
      s.sessions.get data.client = some session ∧ access.Releases auth session r s'

theorem Selected.of_refused {access : Access} {auth : NostrAuth} {data : SelectRequest}
    {message : String} {s' : State} (used : access.opened s'.registry auth.pubkey = none) :
    Selected access s auth data (some (refuse message)) s' := by
  refine ⟨used, fun response same ok => ?_⟩
  cases same
  cases ok

theorem opened_login {client : Str} {login : Option SignerLogin}
    (stored : s.logins.get client = login) :
    Access.login.opened s.registry client = login.map (·.clients) := by
  rw [← stored]
  rfl

theorem opened_recovery {client : Str} {recovery : Option SignerRecovery}
    (stored : s.recoveries.get client = recovery) :
    Access.recovery.opened s.registry client = recovery.map (·.clients) := by
  rw [← stored]
  rfl

omit [IsPreorder Nat R] in
theorem handleRecoverySelect_selected {auth : NostrAuth} {data : SelectRequest} :
    Prog.wp (traced signing R) (handleRecoverySelect auth data)
      (fun r p => Selected .recovery s auth data r p.1) (s, calls) := by
  unfold handleRecoverySelect
  dsimp only
  rw [wp_get]
  cases opened : (s.table recoveries).get auth.pubkey with
  | none => exact .of_refused (opened_recovery opened)
  | some recovery =>
    dsimp only
    rw [wp_delete]
    have gone : (s.setTable recoveries ((s.table recoveries).delete auth.pubkey)).recoveries.get
        auth.pubkey = none := Table.get_delete_self _ _
    have used := opened_recovery gone
    split
    · exact .of_refused used
    · next chosen =>
      rw [wp_get]
      cases stored : s.sessions.get data.client with
      | none =>
        simp only [State.setTable, State.table, stored]
        exact .of_refused used
      | some session =>
        simp only [State.setTable, State.table, stored]
        refine ⟨used, fun response same ok => ?_⟩
        exact ⟨recovery.clients, session, opened_recovery opened, not_not.mp chosen, stored, rfl⟩

omit [IsPreorder Nat R] in
theorem handleLoginSelect_selected {auth : NostrAuth} {data : SelectRequest} :
    Prog.wp (traced signing R) (handleLoginSelect auth data)
      (fun r p => Selected .login s auth data r p.1) (s, calls) := by
  unfold handleLoginSelect
  dsimp only
  rw [wp_get]
  cases opened : (s.table logins).get auth.pubkey with
  | none => exact .of_refused (opened_login opened)
  | some login =>
    dsimp only
    rw [wp_delete]
    have gone : (s.setTable logins ((s.table logins).delete auth.pubkey)).logins.get
        auth.pubkey = none := Table.get_delete_self _ _
    have used := opened_login gone
    split
    · exact .of_refused used
    · next chosen =>
      rw [wp_get]
      cases stored : s.sessions.get data.client with
      | none =>
        simp only [State.setTable, State.table, stored]
        exact .of_refused used
      | some session =>
        simp only [State.setTable, State.table, stored]
        rw [wp_now]
        intro t₁ first
        rw [wp_now]
        intro t₂ second
        refine Prog.wp_unit addSession_spec ?_
        intro p copied
        have sessions : p.1.sessions = s.sessions.set auth.pubkey (copiedSession auth session t₁ t₂) :=
          congrArg Registry.sessions copied
        have logins : p.1.logins = s.logins.delete auth.pubkey := congrArg Registry.logins copied
        refine ⟨opened_login (logins ▸ Table.get_delete_self _ _), fun response same ok => ?_⟩
        refine ⟨login.clients, session, opened_login opened, not_not.mp chosen, stored, rfl, t₁, t₂, ?_⟩
        rw [sessions]
        exact Table.get_set_self ..

end Handlers

/-! ## Runs -/

section Runs

variable {Pt : Type} [AddCommGroup Pt] [Module Scalar Pt] [Curve Pt] [Sha2] [Argon2]
variable {options : SignerOptions} {access : Access} {client key : Str}

/-- The event is a selection of the client, whether or not it gets anything. -/
def Uses (access : Access) (client : Str) (e : RustEvent) : Prop :=
  e.job.schemaValid = true ∧ ∃ auth data,
    e.job = .request (some auth) (.body (access.select data)) ∧ auth.pubkey = client

theorem selected_of_happens {e : RustEvent}
    (happens : e.Happens (rustWorld Pt (· ≤ ·)) (handle Pt options)) {auth : NostrAuth}
    {data : SelectRequest} (job : e.job = .request (some auth) (.body (access.select data)))
    (valid : e.job.schemaValid = true) :
    Selected access e.before auth data e.result e.after := by
  rw [job] at valid
  refine of_body happens job (Q := fun r p => Selected access e.before auth data r p.1)
    (fun _ => ?_) fun invalid => absurd valid invalid
  cases access with
  | login => exact handleLoginSelect_selected
  | recovery => exact handleRecoverySelect_selected

theorem startOpens_of_happens {e : RustEvent}
    (happens : e.Happens (rustWorld Pt (· ≤ ·)) (handle Pt options))
    (sound : e.before.registry.Sound) {auth : NostrAuth} {data : StartRequest Auth}
    (job : e.job = .request (some auth) (.body (access.start data)))
    (valid : e.job.schemaValid = true) :
    StartOpens access e.before auth.pubkey data.auth e.after := by
  rw [job] at valid
  refine of_body happens job (Q := fun _ p => StartOpens access e.before auth.pubkey data.auth p.1)
    (fun _ => ?_) fun invalid => absurd valid invalid
  cases access with
  | login => exact handleLoginStart_opens sound
  | recovery => exact handleRecoveryStart_opens sound

/-- A request whose body is not valid is refused and changes nothing. -/
theorem refused_of_invalid {e : RustEvent}
    (happens : e.Happens (rustWorld Pt (· ≤ ·)) (handle Pt options))
    (invalid : e.job.schemaValid ≠ true) :
    e.after = e.before ∧ ∃ message, e.result = some (refuse message) := by
  refine happens.of_wp (Q := fun r p => p.1 = e.before ∧ ∃ message, r = some (refuse message)) ?_
  cases job : e.job with
  | cleanup =>
    rw [job] at invalid
    exact absurd rfl invalid
  | request auth route =>
    rw [job] at invalid
    cases route with
    | unknown => exact absurd rfl invalid
    | malformed => exact absurd rfl invalid
    | body body =>
      cases auth with
      | none => exact ⟨rfl, _, rfl⟩
      | some auth =>
        have invalid : body.schemaValid ≠ true := invalid
        simp only [handle, invalid]
        exact ⟨rfl, _, rfl⟩

/-- What a client may select after an event it could select before, and has not, or it has been
opened to it in the event. -/
theorem opened_step {e : RustEvent} (happens : e.Happens (rustWorld Pt (· ≤ ·)) (handle Pt options))
    (sound : e.before.registry.Sound) {keys : List Str}
    (opened : access.opened e.after.registry client = some keys) :
    (access.opened e.before.registry client = some keys ∧ ¬ Uses access client e) ∨
      ∃ auth data, e.job = .request (some auth) (.body (access.start data)) ∧ auth.pubkey = client ∧
        ∀ key ∈ keys, ∃ session, Opens e.before data.auth key session := by
  have unused : ¬ Uses access client e := by
    intro uses
    obtain ⟨valid, auth, data, job, same⟩ := uses
    have used := (selected_of_happens happens job valid).used
    rw [same, opened] at used
    cases used
  cases (registry_step happens).opened opened with
  | inl before => exact .inl ⟨before, unused⟩
  | inr started =>
    obtain ⟨auth, data, job, same⟩ := started
    by_cases valid : e.job.schemaValid = true
    · subst same
      cases startOpens_of_happens happens sound job valid keys opened with
      | inl before => exact .inl ⟨before, unused⟩
      | inr opens => exact .inr ⟨auth, data, job, rfl, opens⟩
    · rw [(refused_of_invalid happens valid).1] at opened
      exact .inl ⟨opened, unused⟩

/-- How a client has come to a key that it may select: at the last start of its own, credentials
opened the session that was stored under the key, and the client has not selected since.  If the
key has had a session ever since, what is stored there has evolved from that one. -/
def OpenedBy (access : Access) (client key : Str) (events : List RustEvent) (s : State) : Prop :=
  ∃ between e earlier auth data session, events = between ++ e :: earlier ∧
    e.job = .request (some auth) (.body (access.start data)) ∧ auth.pubkey = client ∧
    Opens e.before data.auth key session ∧ (∀ e' ∈ between, ¬ Uses access client e') ∧
    ((∀ e' ∈ between, e'.after.sessions.get key ≠ none) →
      ∃ session', s.sessions.get key = some session' ∧ session.Evolves key session')

/-- Nobody selects what it has not been granted. -/
theorem openedBy_of_opened {ok : RustEvent → Prop} {events : List RustEvent} {s : State}
    (run : RustRuns Pt options (· ≤ ·) Opened ok events s) :
    s.registry.Orderly ∧ ∀ keys, access.opened s.registry client = some keys →
      ∀ key ∈ keys, OpenedBy access client key events s := by
  induction run with
  | start s initial =>
    obtain ⟨clock, same⟩ := initial
    subst same
    refine ⟨opened_orderly clock, fun keys opened => ?_⟩
    cases access <;> cases opened
  | step e earlier happens _ ih =>
    obtain ⟨orderly, granted⟩ := ih
    have step := registry_step happens
    refine ⟨step.orderly orderly, fun keys opened key member => ?_⟩
    cases opened_step happens orderly.sound opened with
    | inr started =>
      obtain ⟨auth, data, job, same, opens⟩ := started
      obtain ⟨session, opens⟩ := opens key member
      refine ⟨[], e, _, auth, data, session, rfl, job, same, opens, by simp, fun _ => ?_⟩
      have sessions : e.after.sessions = e.before.sessions := by
        rw [job] at step
        exact step.sessions_of_start
      have stored : e.after.sessions.get key = some session := sessions ▸ opens.stored
      exact ⟨session, stored, .refl (orderly.sound key session opens.stored).own⟩
    | inl before =>
      obtain ⟨before, unused⟩ := before
      obtain ⟨between, e₀, rest, auth, data, session, split, job, same, opens, quiet, evolves⟩ :=
        granted keys before key member
      refine ⟨e :: between, e₀, rest, auth, data, session, ?_, job, same, opens, ?_, ?_⟩
      · rw [split, List.cons_append]
      · intro e' member'
        cases List.mem_cons.mp member' with
        | inl here => exact here ▸ unused
        | inr older => exact quiet e' older
      · intro present
        rw [List.forall_mem_cons] at present
        obtain ⟨session₁, stored₁, evolved⟩ := evolves present.2
        obtain ⟨session₂, stored₂⟩ := Option.ne_none_iff_exists'.mp present.1
        exact ⟨session₂, stored₂, evolved.trans (step.evolves orderly stored₁ stored₂)⟩

/-- Every release goes back to credentials.  A selection that succeeds releases the session that
is stored under the selected key; the client has been granted that key by a start of its own,
whose credentials opened what was stored there then, and it cannot select again without another
start. -/
theorem release_goes_back_to_credentials {ok : RustEvent → Prop} {events : List RustEvent}
    {e : RustEvent} {s : State} (run : RustRuns Pt options (· ≤ ·) Opened ok (e :: events) s)
    {auth : NostrAuth} {data : SelectRequest} {response : Response}
    (job : e.job = .request (some auth) (.body (access.select data)))
    (answered : e.result = some response) (released : response.ok = true) :
    access.opened e.after.registry auth.pubkey = none ∧
      ∃ session, e.before.sessions.get data.client = some session ∧
        access.Releases auth session e.result e.after ∧
        OpenedBy access auth.pubkey data.client events e.before := by
  cases run with
  | step _ earlier happens _ =>
    have valid : e.job.schemaValid = true := by
      by_contra invalid
      obtain ⟨_, message, refused⟩ := refused_of_invalid happens invalid
      rw [answered] at refused
      cases refused
      cases released
    have selected := selected_of_happens happens job valid
    obtain ⟨keys, session, opened, chosen, stored, releases⟩ :=
      selected.released response answered released
    refine ⟨selected.used, session, stored, releases, ?_⟩
    exact (openedBy_of_opened earlier).2 keys opened data.client chosen

end Runs

section Sample

attribute [local instance] Sample.sha2 Sample.argon2

/-- Someone starts a login with the password of an account. -/
def startedRun : List (Job Auth × Nat) :=
  loginRun.dropLast

/-- Then it selects the session that was opened. -/
theorem release_goes_back_to_credentials_login :
    Access.login.opened
      (Sample.next (Sample.loginSelect (Sample.clientKey 8) (Sample.clientKey 7)) 1003
        (Sample.play startedRun).2).after.registry (Sample.clientKey 8).pubkey = none ∧
      ∃ session, (Sample.play startedRun).2.sessions.get (Sample.clientKey 7).pubkey = some session ∧
        Access.login.Releases (Sample.clientKey 8) session
          (Sample.next (Sample.loginSelect (Sample.clientKey 8) (Sample.clientKey 7)) 1003
            (Sample.play startedRun).2).result
          (Sample.next (Sample.loginSelect (Sample.clientKey 8) (Sample.clientKey 7)) 1003
            (Sample.play startedRun).2).after ∧
        OpenedBy .login (Sample.clientKey 8).pubkey (Sample.clientKey 7).pubkey
          (Sample.play startedRun).1 (Sample.play startedRun).2 := by
  have started := Sample.play_runs (R := (· ≤ ·)) startedRun (by decide +kernel)
  have answered : ∃ response, (Sample.next (Sample.loginSelect (Sample.clientKey 8)
      (Sample.clientKey 7)) 1003 (Sample.play startedRun).2).result = some response ∧
      response.ok = true := by
    refine ⟨accept "Login successfully completed." (.group (Sample.group [1])), ?_, rfl⟩
    decide +kernel
  obtain ⟨response, answered, ok⟩ := answered
  have selected : RustRuns Scalar Sample.options (· ≤ ·) Opened (fun _ => True)
      (Sample.next (Sample.loginSelect (Sample.clientKey 8) (Sample.clientKey 7)) 1003
        (Sample.play startedRun).2 :: (Sample.play startedRun).1) _ :=
    .step _ started (Event.happens_ofRun (by decide +kernel)) trivial
  exact release_goes_back_to_credentials selected rfl answered ok

end Sample

end Pomade.Signer
