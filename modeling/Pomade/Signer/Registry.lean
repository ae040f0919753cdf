import Mathlib.Order.RelClasses
import Pomade.Signer.Handlers

/-! # The registry of sessions

What the handlers do to sessions, said once.  The registry is the part of the state
that decides who may do what: the sessions, their email index, and the login and
recovery records.  `Step` lists the changes a job can make to it, with the facts its
handler has checked, and the invariants are proved over `Step`.  Both signers refine
it; they differ in what registration accepts and in how a cleanup expires sessions.
-/

namespace Pomade.Signer

open Pomade.Lib Pomade.Frost

structure Registry where
  sessions : Table SignerSession
  index : Table SessionIndex
  logins : Table SignerLogin
  recoveries : Table SignerRecovery
  clock : Nat

def State.registry (s : State) : Registry where
  sessions := s.sessions
  index := s.sessionsByEmailHash
  logins := s.logins
  recoveries := s.recoveries
  clock := s.clock

/-! ## Operations -/

/-- The index entry of an email hash without one client; an empty entry is dropped. -/
def unindex (index : Table SessionIndex) (client : Str) : Option Str → Table SessionIndex
  | none => index
  | some emailHash =>
    match index.get emailHash with
    | none => index
    | some entry =>
      let clients := entry.clients.filter fun c => decide (c ≠ client)
      if clients.isEmpty then index.delete emailHash else index.set emailHash { clients }

def enindex (index : Table SessionIndex) (client : Str) : Option Str → Table SessionIndex
  | none => index
  | some emailHash => index.set emailHash (indexWith (index.get emailHash) client)

namespace Registry

/-- The key is in none of the three maps. -/
structure Unused (r : Registry) (client : Str) : Prop where
  session : r.sessions.get client = none
  recovery : r.recoveries.get client = none
  login : r.logins.get client = none

def putSession (r : Registry) (client : Str) (session : SignerSession) : Registry :=
  { r with sessions := r.sessions.set client session }

def addSession (r : Registry) (client : Str) (session : SignerSession) : Registry :=
  { r with
    sessions := r.sessions.set client session
    index := enindex r.index client session.emailHash }

def deleteSession (r : Registry) (client : Str) : Registry :=
  match r.sessions.get client with
  | none => r
  | some session =>
    { r with
      sessions := r.sessions.delete client
      index := unindex r.index client session.emailHash }

end Registry

/-- The session a registration stores. -/
def newSession (auth : NostrAuth) (data : RegisterRequest) (createdAt lastActivity : Nat) :
    SignerSession where
  client := auth.pubkey
  share := data.share
  group := data.group
  recovery := data.recovery
  createdAt := createdAt
  deactivatedAt := none
  lastActivity := lastActivity
  email := none
  emailHash := none
  passwordHash := none

/-- The session a login stores for the new client of an old session. -/
def copiedSession (auth : NostrAuth) (session : SignerSession) (createdAt lastActivity : Nat) :
    SignerSession where
  client := auth.pubkey
  share := session.share
  group := session.group
  recovery := true
  createdAt := createdAt
  deactivatedAt := none
  lastActivity := lastActivity
  email := session.email
  emailHash := session.emailHash
  passwordHash := session.passwordHash

/-- A session with its recovery method set. -/
def recoverableSession (session : SignerSession) (data : RecoverySetupRequest) (emailHash : Str)
    (lastActivity : Nat) : SignerSession :=
  { session with
    lastActivity, email := some data.email, emailHash := some emailHash,
    passwordHash := some data.passwordHash }

/-- Entries only disappear. -/
def Shrinks {V : Type} (t t' : Table V) : Prop :=
  ∀ key, t'.get key = none ∨ t'.get key = t.get key

/-! ## Steps -/

/-- Where the signers differ. -/
structure Rules where
  accepts : NostrAuth → RegisterRequest → Prop
  expires : Registry → Registry → Prop
  expires_shrinks : ∀ r r', expires r r' → Shrinks r.sessions r'.sessions

/-- The requests that use the share of a session. -/
def Body.UsesShare {A : Type} : Body A → Prop
  | .signCommit _ | .signComplete _ | .ecdh _ => True
  | _ => False

/-- What a job can do to the registry.  `R` relates successive clock readings. -/
inductive Step {A : Type} (rules : Rules) (R : Nat → Nat → Prop) :
    Job A → Registry → Registry → Prop where
  | idle {job : Job A} {r : Registry} {t : Nat} (later : R r.clock t) :
      Step rules R job r { r with clock := t }
  | register {auth : NostrAuth} {data : RegisterRequest} {r : Registry} {t₁ t₂ : Nat}
      (unused : r.Unused auth.pubkey) (accepted : rules.accepts auth data)
      (first : R r.clock t₁) (second : R t₁ t₂) :
      Step rules R (.request (some auth) (.body (.register data))) r
        { r.addSession auth.pubkey (newSession auth data t₁ t₂) with clock := t₂ }
  | setup {auth : NostrAuth} {data : RecoverySetupRequest} {r : Registry}
      {session : SignerSession} {emailHash : Str} {t₁ t₂ : Nat}
      (stored : r.sessions.get auth.pubkey = some session) (recovery : session.recovery = true)
      (unset : session.email = none) (first : R r.clock t₁) (second : R t₁ t₂) :
      Step rules R (.request (some auth) (.body (.recoverySetup data))) r
        { r.addSession auth.pubkey (recoverableSession session data emailHash t₂) with
          clock := t₂ }
  | touch {auth : NostrAuth} {body : Body A} {r : Registry} {session : SignerSession} {t : Nat}
      (uses : body.UsesShare) (stored : r.sessions.get auth.pubkey = some session)
      (active : session.deactivatedAt = none) (later : R r.clock t) :
      Step rules R (.request (some auth) (.body body)) r
        { r.putSession auth.pubkey { session with lastActivity := t } with clock := t }
  | deactivate {auth : NostrAuth} {data : SelectRequest} {r : Registry}
      {session : SignerSession} {t : Nat} (stored : r.sessions.get data.client = some session)
      (later : R r.clock t) :
      Step rules R (.request (some auth) (.body (.sessionDeactivate data))) r
        { r.putSession data.client { session with deactivatedAt := some t } with clock := t }
  | remove {auth : NostrAuth} {data : SelectRequest} {r : Registry} :
      Step rules R (.request (some auth) (.body (.sessionDelete data))) r
        (r.deleteSession data.client)
  | loginStart {auth : NostrAuth} {data : StartRequest A} {r : Registry} {clients : List Str}
      {t : Nat} (unused : r.Unused auth.pubkey) (later : R r.clock t) :
      Step rules R (.request (some auth) (.body (.loginStart data))) r
        { r with logins := r.logins.set auth.pubkey { createdAt := t, clients }, clock := t }
  | recoveryStart {auth : NostrAuth} {data : StartRequest A} {r : Registry}
      {clients : List Str} {t : Nat} (unused : r.Unused auth.pubkey) (later : R r.clock t) :
      Step rules R (.request (some auth) (.body (.recoveryStart data))) r
        { r with
          recoveries := r.recoveries.set auth.pubkey { createdAt := t, clients }, clock := t }
  | loginDrop {auth : NostrAuth} {data : SelectRequest} {r : Registry} :
      Step rules R (.request (some auth) (.body (.loginSelect data))) r
        { r with logins := r.logins.delete auth.pubkey }
  | loginSelect {auth : NostrAuth} {data : SelectRequest} {r : Registry} {login : SignerLogin}
      {session : SignerSession} {t₁ t₂ : Nat}
      (opened : r.logins.get auth.pubkey = some login) (chosen : data.client ∈ login.clients)
      (stored : r.sessions.get data.client = some session)
      (first : R r.clock t₁) (second : R t₁ t₂) :
      Step rules R (.request (some auth) (.body (.loginSelect data))) r
        { r.addSession auth.pubkey (copiedSession auth session t₁ t₂) with
          logins := r.logins.delete auth.pubkey, clock := t₂ }
  | recoverySelect {auth : NostrAuth} {data : SelectRequest} {r : Registry} :
      Step rules R (.request (some auth) (.body (.recoverySelect data))) r
        { r with recoveries := r.recoveries.delete auth.pubkey }
  | cleanup {r r' : Registry} (logins : Shrinks r.logins r'.logins)
      (recoveries : Shrinks r.recoveries r'.recoveries) (sessions : rules.expires r r')
      (later : R r.clock r'.clock) : Step rules R .cleanup r r'

/-! ## Tables that shrink -/

section Shrinks

variable {V : Type} {t t' t'' : Table V}

theorem Shrinks.refl (t : Table V) : Shrinks t t := fun _ => .inr rfl

theorem Shrinks.trans (first : Shrinks t t') (second : Shrinks t' t'') : Shrinks t t'' := by
  intro key
  rcases second key with gone | same
  · exact .inl gone
  · rw [same]
    exact first key

theorem Shrinks.delete (t : Table V) (key : Str) : Shrinks t (t.delete key) := by
  intro key'
  rw [Table.get_delete]
  split
  · exact .inl rfl
  · exact .inr rfl

theorem Shrinks.of_filter {keep : V → Bool} (kept : ∀ key, t'.get key = (t.get key).filter keep) :
    Shrinks t t' := by
  intro key
  rw [kept key]
  cases t.get key with
  | none => exact .inl rfl
  | some value =>
    cases keeps : keep value with
    | false => exact .inl (Option.filter_some_neg keeps)
    | true => exact .inr (Option.filter_some_pos keeps)

theorem Shrinks.get_eq (shrinks : Shrinks t t') {key : Str} {value : V}
    (stored : t'.get key = some value) : t.get key = some value := by
  rcases shrinks key with gone | same
  · rw [gone] at stored
    cases stored
  · rwa [← same]

theorem Shrinks.absent (shrinks : Shrinks t t') {key : Str} (absent : t.get key = none) :
    t'.get key = none := by
  rcases shrinks key with gone | same
  · exact gone
  · rw [same, absent]

end Shrinks

theorem Registry.deleteSession_shrinks (r : Registry) (client : Str) :
    Shrinks r.sessions (r.deleteSession client).sessions := by
  unfold Registry.deleteSession
  cases r.sessions.get client with
  | none => exact .refl _
  | some session => exact .delete _ _

/-- A cleanup only takes sessions and logins away. -/
theorem Step.cleanup_shrinks {A : Type} {rules : Rules} {R : Nat → Nat → Prop} {r r' : Registry}
    (step : Step rules R (.cleanup : Job A) r r') :
    Shrinks r.sessions r'.sessions ∧ Shrinks r.logins r'.logins := by
  cases step with
  | idle _ => exact ⟨.refl _, .refl _⟩
  | cleanup logins _ expired _ => exact ⟨rules.expires_shrinks _ _ expired, logins⟩

/-! ## What holds of every stored session -/

section Sessions

variable {A : Type} {rules : Rules} {R : Nat → Nat → Prop} {job : Job A} {r r' : Registry}

/-- A property of sessions under their keys that every way of storing a session
establishes holds after the step if it held before. -/
theorem Step.forall_sessions {P : Str → SignerSession → Prop}
    (registered : ∀ auth data t₁ t₂, job = .request (some auth) (.body (.register data)) →
      r.Unused auth.pubkey → rules.accepts auth data → P auth.pubkey (newSession auth data t₁ t₂))
    (made : ∀ client session data emailHash t, P client session →
      P client (recoverableSession session data emailHash t))
    (touched : ∀ client session t, P client session →
      P client { session with lastActivity := t })
    (deactivated : ∀ client session t, P client session →
      P client { session with deactivatedAt := some t })
    (copied : ∀ auth data login session t₁ t₂,
      job = .request (some auth) (.body (.loginSelect data)) →
      r.logins.get auth.pubkey = some login → data.client ∈ login.clients →
      r.sessions.get data.client = some session → P data.client session →
      P auth.pubkey (copiedSession auth session t₁ t₂))
    (step : Step rules R job r r')
    (holds : ∀ client session, r.sessions.get client = some session → P client session) :
    ∀ client session, r'.sessions.get client = some session → P client session := by
  have stored : ∀ {key : Str} {new : SignerSession}, P key new →
      ∀ client session, (r.sessions.set key new).get client = some session → P client session := by
    intro key new property client session found
    rw [Table.get_set] at found
    split at found
    · next same =>
      cases found
      rwa [same]
    · exact holds client session found
  cases step with
  | idle _ => exact holds
  | register unused accepted _ _ => exact stored (registered _ _ _ _ rfl unused accepted)
  | setup found _ _ _ _ => exact stored (made _ _ _ _ _ (holds _ _ found))
  | touch _ found _ _ => exact stored (touched _ _ _ (holds _ _ found))
  | deactivate found _ => exact stored (deactivated _ _ _ (holds _ _ found))
  | remove =>
    intro client session found
    exact holds client session ((r.deleteSession_shrinks _).get_eq found)
  | loginStart _ _ => exact holds
  | recoveryStart _ _ => exact holds
  | loginDrop => exact holds
  | loginSelect opened chosen found _ _ =>
    exact stored (copied _ _ _ _ _ _ rfl opened chosen found (holds _ _ found))
  | recoverySelect => exact holds
  | cleanup _ _ expired _ =>
    intro client session found
    exact holds client session ((rules.expires_shrinks _ _ expired).get_eq found)

end Sessions

/-- A session is stored under its own key, and its email, email hash and password hash
are set together. -/
structure SignerSession.Sound (client : Str) (session : SignerSession) : Prop where
  own : session.client = client
  hashed : session.emailHash.isSome = session.email.isSome
  guarded : session.passwordHash.isSome = session.email.isSome

def Registry.Sound (r : Registry) : Prop :=
  ∀ client session, r.sessions.get client = some session → session.Sound client

section Sound

variable {A : Type} {rules : Rules} {R : Nat → Nat → Prop} {job : Job A} {r r' : Registry}

theorem Step.sound (step : Step rules R job r r') (holds : r.Sound) : r'.Sound := by
  refine step.forall_sessions (P := fun client session => session.Sound client) ?_ ?_ ?_ ?_ ?_ holds
  · intro auth data t₁ t₂ _ _ _
    exact ⟨rfl, rfl, rfl⟩
  · intro client session data emailHash t sound
    exact ⟨sound.own, rfl, rfl⟩
  · intro client session t sound
    exact ⟨sound.own, sound.hashed, sound.guarded⟩
  · intro client session t sound
    exact ⟨sound.own, sound.hashed, sound.guarded⟩
  · intro auth data login session t₁ t₂ _ _ _ _ sound
    exact ⟨rfl, sound.hashed, sound.guarded⟩

end Sound

/-! ## One map at a time -/

/-- A key is in at most one of the three maps. -/
structure Registry.Exclusive (r : Registry) : Prop where
  sessionLogin : ∀ key, r.sessions.get key = none ∨ r.logins.get key = none
  sessionRecovery : ∀ key, r.sessions.get key = none ∨ r.recoveries.get key = none
  loginRecovery : ∀ key, r.logins.get key = none ∨ r.recoveries.get key = none

section Exclusive

variable {A : Type} {rules : Rules} {R : Nat → Nat → Prop} {job : Job A} {r r' : Registry}

/-- Setting a key that one table lacks keeps the two tables disjoint. -/
theorem disjoint_set {V V' : Type} {t : Table V} {t' : Table V'} {key : Str} {value : V}
    (disjoint : ∀ k, t.get k = none ∨ t'.get k = none) (absent : t'.get key = none) (k : Str) :
    (t.set key value).get k = none ∨ t'.get k = none := by
  by_cases same : k = key
  · exact .inr (same ▸ absent)
  · rw [Table.get_set_ne same]
    exact disjoint k

theorem disjoint_shrinks {V V' : Type} {t₁ t₂ : Table V} {t₁' t₂' : Table V'}
    (disjoint : ∀ k, t₁.get k = none ∨ t₁'.get k = none) (left : Shrinks t₁ t₂)
    (right : Shrinks t₁' t₂') (k : Str) : t₂.get k = none ∨ t₂'.get k = none := by
  rcases disjoint k with absent | absent
  · exact .inl (left.absent absent)
  · exact .inr (right.absent absent)

theorem Registry.Exclusive.login_none (exclusive : r.Exclusive) {key : Str}
    {session : SignerSession} (stored : r.sessions.get key = some session) :
    r.logins.get key = none :=
  (exclusive.sessionLogin key).resolve_left (by rw [stored]; exact nofun)

theorem Registry.Exclusive.recovery_none (exclusive : r.Exclusive) {key : Str}
    {session : SignerSession} (stored : r.sessions.get key = some session) :
    r.recoveries.get key = none :=
  (exclusive.sessionRecovery key).resolve_left (by rw [stored]; exact nofun)

theorem Registry.Exclusive.session_none (exclusive : r.Exclusive) {key : Str}
    {login : SignerLogin} (opened : r.logins.get key = some login) :
    r.sessions.get key = none :=
  (exclusive.sessionLogin key).resolve_right (by rw [opened]; exact nofun)

theorem Registry.Exclusive.shrinks (exclusive : r.Exclusive)
    (sessions : Shrinks r.sessions r'.sessions) (logins : Shrinks r.logins r'.logins)
    (recoveries : Shrinks r.recoveries r'.recoveries) : r'.Exclusive :=
  ⟨disjoint_shrinks exclusive.sessionLogin sessions logins,
    disjoint_shrinks exclusive.sessionRecovery sessions recoveries,
    disjoint_shrinks exclusive.loginRecovery logins recoveries⟩

/-- Storing a session under a key that neither of the other maps has. -/
theorem Registry.Exclusive.store (exclusive : r.Exclusive) {key : Str} {session : SignerSession}
    (login : r'.logins.get key = none) (recovery : r.recoveries.get key = none)
    (sessions : r'.sessions = r.sessions.set key session)
    (logins : Shrinks r.logins r'.logins) (recoveries : r'.recoveries = r.recoveries) :
    r'.Exclusive := by
  have shrunk := disjoint_shrinks exclusive.sessionLogin (.refl _) logins
  refine ⟨?_, ?_, ?_⟩
  · rw [sessions]
    exact disjoint_set shrunk login
  · rw [sessions, recoveries]
    exact disjoint_set exclusive.sessionRecovery recovery
  · rw [recoveries]
    exact disjoint_shrinks exclusive.loginRecovery logins (.refl _)

theorem Step.exclusive (step : Step rules R job r r') (exclusive : r.Exclusive) :
    r'.Exclusive := by
  cases step with
  | idle _ => exact ⟨exclusive.1, exclusive.2, exclusive.3⟩
  | register unused _ _ _ =>
    exact exclusive.store unused.login unused.recovery rfl (.refl _) rfl
  | setup stored _ _ _ _ =>
    exact exclusive.store (exclusive.login_none stored) (exclusive.recovery_none stored) rfl
      (.refl _) rfl
  | touch _ stored _ _ =>
    exact exclusive.store (exclusive.login_none stored) (exclusive.recovery_none stored) rfl
      (.refl _) rfl
  | deactivate stored _ =>
    exact exclusive.store (exclusive.login_none stored) (exclusive.recovery_none stored) rfl
      (.refl _) rfl
  | remove =>
    refine exclusive.shrinks (r.deleteSession_shrinks _) ?_ ?_
    · unfold Registry.deleteSession
      split <;> exact .refl _
    · unfold Registry.deleteSession
      split <;> exact .refl _
  | @loginStart auth _ _ _ _ unused _ =>
    refine ⟨fun key => (disjoint_set (fun k => (exclusive.sessionLogin k).symm) ?_ key).symm,
      exclusive.sessionRecovery, disjoint_set exclusive.loginRecovery unused.recovery⟩
    exact unused.session
  | recoveryStart unused _ =>
    refine ⟨exclusive.sessionLogin,
      fun key => (disjoint_set (fun k => (exclusive.sessionRecovery k).symm) ?_ key).symm,
      fun key => (disjoint_set (fun k => (exclusive.loginRecovery k).symm) ?_ key).symm⟩
    · exact unused.session
    · exact unused.login
  | loginDrop => exact exclusive.shrinks (.refl _) (.delete _ _) (.refl _)
  | loginSelect opened _ _ _ _ =>
    have recovery : r.recoveries.get _ = none :=
      (exclusive.loginRecovery _).resolve_left (by rw [opened]; exact nofun)
    exact exclusive.store (Table.get_delete_self _ _) recovery rfl (.delete _ _) rfl
  | recoverySelect => exact exclusive.shrinks (.refl _) (.refl _) (.delete _ _)
  | cleanup logins recoveries expired _ =>
    exact exclusive.shrinks (rules.expires_shrinks _ _ expired) logins recoveries

/-- The requests that store a session under a key of their own. -/
def Job.CreatesSession : Job A → Prop
  | .request _ (.body (.register _)) | .request _ (.body (.loginSelect _)) => True
  | _ => False

/-- A key that creates a session had none. -/
theorem Step.keeps_sessions (step : Step rules R job r r') (exclusive : r.Exclusive)
    (creates : job.CreatesSession) {key : Str} {session : SignerSession}
    (stored : r.sessions.get key = some session) : r'.sessions.get key = some session := by
  have other : ∀ {client : Str} (new : SignerSession), r.sessions.get client = none →
      (r.sessions.set client new).get key = some session := by
    intro client new absent
    rw [Table.get_set_ne]
    · exact stored
    · rintro rfl
      rw [absent] at stored
      cases stored
  cases step with
  | idle _ => exact stored
  | register unused _ _ _ => exact other _ unused.session
  | touch uses _ _ _ =>
    unfold Job.CreatesSession at creates
    split at creates
    · next same => cases same; exact uses.elim
    · next same => cases same; exact uses.elim
    · exact creates.elim
  | loginDrop => exact stored
  | loginSelect opened _ _ _ _ => exact other _ (exclusive.session_none opened)
  | setup _ _ _ _ _ => exact creates.elim
  | deactivate _ _ => exact creates.elim
  | remove => exact creates.elim
  | loginStart _ _ => exact creates.elim
  | recoveryStart _ _ => exact creates.elim
  | recoverySelect => exact creates.elim
  | cleanup _ _ _ _ => exact creates.elim

end Exclusive

end Pomade.Signer
