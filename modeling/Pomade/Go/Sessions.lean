import Pomade.Go.Runs
import Pomade.Signer.Index

/-! # Sessions of the Go signer

The email index stays exact, and a client key differs from the user key unless it is
spelled in another way or chosen at a login.
-/

namespace Pomade.Go

open Pomade.Lib Pomade.Frost Pomade.Signer

/-! ## The email index -/

theorem foldl_deleteSession_exact (clients : List Str) {r : Registry}
    (exact : IndexExact r.sessions r.index) :
    IndexExact (clients.foldl Registry.deleteSession r).sessions
      (clients.foldl Registry.deleteSession r).index := by
  induction clients generalizing r with
  | nil => exact exact
  | cons client clients ih => exact ih (Registry.deleteSession_exact exact client)

theorem GoExpires.index_exact {r r' : Registry} (expired : GoExpires r r')
    (exact : IndexExact r.sessions r.index) : IndexExact r'.sessions r'.index := by
  obtain ⟨clients, sessions, index⟩ := expired
  rw [sessions, index]
  exact foldl_deleteSession_exact clients exact

/-- Sound sessions, each key in one map, and an exact index. -/
structure Indexed (r : Registry) : Prop where
  sound : r.Sound
  exclusive : r.Exclusive
  exact : IndexExact r.sessions r.index

section Index

variable [FrostTaproot] {options : SignerOptions}

/-- In the Go signer every step, the cleanup too, keeps the index exact. -/
theorem Indexed.step {R : Nat → Nat → Prop} {job : Job AuthPayload} {r r' : Registry}
    (indexed : Indexed r) (step : Step (goRules options) R job r r') : Indexed r' := by
  refine ⟨step.sound indexed.sound, step.exclusive indexed.exclusive, ?_⟩
  refine step.index_exact indexed.sound indexed.exclusive indexed.exact fun _ expired => ?_
  exact GoExpires.index_exact expired indexed.exact

theorem go_index_exact [Sha2] [Argon2] {events : List GoEvent} {s : State}
    (run : GoRuns options anyClock Opened (fun _ => True) events s) :
    IndexExact s.sessions s.sessionsByEmailHash := by
  have indexed : Indexed s.registry := by
    refine run.registry (fun clock => ?_) ?_
    · exact ⟨fun _ _ stored => (nomatch stored), opened_exclusive clock, fun _ _ => rfl,
        fun _ _ found => (nomatch found)⟩
    · intro e r _ cleaned stepped before
      exact (before.step cleaned).step stepped
  exact indexed.exact

end Index

section IndexRun

attribute [local instance] Sample.frost Signer.Sample.sha2 Signer.Sample.argon2

/-- A session with an email, and a cleanup a month and a second after its last use. -/
def contactRun : List (Job AuthPayload × Nat) :=
  [(Sample.register (Signer.Sample.clientKey 7) (Signer.Sample.group [1]), 3000000),
    (Sample.setup (Signer.Sample.clientKey 7), 3000001), (.cleanup, 5592002)]

theorem go_index_exact_contact :
    (Sample.play (contactRun.take 2)).2.sessionsByEmailHash.get Signer.Sample.emailHash ≠ none ∧
      IndexExact (Sample.play contactRun).2.sessions
        (Sample.play contactRun).2.sessionsByEmailHash :=
  ⟨by decide +kernel, go_index_exact (Sample.play_runs contactRun (by decide +kernel))⟩

end IndexRun

/-! ## The client key and the user key -/

/-- The key in a compressed group key, without its first byte, is the key of the
request, however it is spelled. -/
def NamesKey (groupPk : Str) (auth : NostrAuth) : Prop :=
  hexDecode (groupPk.drop 2) = some auth.key.data

/-- The client key and the group key of a session are the same x-only key. -/
def ClientIsUser (session : SignerSession) : Prop :=
  ∃ key : Bytes 32, hexDecode session.client = some key.data ∧
    hexDecode (session.group.groupPk.drop 2) = some key.data

theorem clientIsUser_iff {session : SignerSession} {auth : NostrAuth}
    (client : session.client = auth.pubkey) :
    ClientIsUser session ↔ NamesKey session.group.groupPk auth := by
  have own : hexDecode session.client = some auth.key.data := by
    rw [client, NostrAuth.pubkey, hexDecode_hexEncode]
  constructor
  · rintro ⟨key, decoded, named⟩
    rw [own] at decoded
    rw [NamesKey, named, ← decoded]
  · intro named
    exact ⟨auth.key, own, named⟩

section Keys

variable [FrostTaproot] [Sha2] [Argon2] (options : SignerOptions)

/-- A registration that passes the checks does not name its own key as the user key, and
a login does not choose a session whose user key is its own. -/
structure KeepsKeysApart (e : GoEvent) : Prop where
  register : ∀ auth data found, e.job = .request (some auth) (.body (.register data)) →
    Finds options anyClock e found → found.registry.Unused auth.pubkey →
    GoAccepts options auth data → ¬ NamesKey data.group.groupPk auth
  select : ∀ auth data found login session,
    e.job = .request (some auth) (.body (.loginSelect data)) → Finds options anyClock e found →
    found.logins.get auth.pubkey = some login → data.client ∈ login.clients →
    found.sessions.get data.client = some session → ¬ NamesKey session.group.groupPk auth

variable {options}

/-- No stored session has its user's key. -/
def KeysApart (r : Registry) : Prop :=
  ∀ client session, r.sessions.get client = some session → ¬ ClientIsUser session

omit [Sha2] [Argon2] in
theorem KeysApart.step {R : Nat → Nat → Prop} {job : Job AuthPayload} {r r' : Registry}
    (registered : ∀ auth data, job = .request (some auth) (.body (.register data)) →
      r.Unused auth.pubkey → GoAccepts options auth data → ¬ NamesKey data.group.groupPk auth)
    (selected : ∀ auth data login session,
      job = .request (some auth) (.body (.loginSelect data)) →
      r.logins.get auth.pubkey = some login → data.client ∈ login.clients →
      r.sessions.get data.client = some session → ¬ NamesKey session.group.groupPk auth)
    (step : Step (goRules options) R job r r') (apart : KeysApart r) : KeysApart r' := by
  refine step.forall_sessions (P := fun _ session => ¬ ClientIsUser session) ?_ ?_ ?_ ?_ ?_ apart
  · intro auth data t₁ t₂ job unused accepted
    rw [@clientIsUser_iff _ auth rfl]
    exact registered auth data job unused accepted
  -- Setting a recovery method, using the share and deactivating leave both keys alone.
  · intro client session data emailHash t differ
    exact differ
  · intro client session t differ
    exact differ
  · intro client session t differ
    exact differ
  · intro auth data login session t₁ t₂ job opened chosen stored _
    rw [@clientIsUser_iff _ auth rfl]
    exact selected auth data login session job opened chosen stored

omit [Sha2] [Argon2] in
/-- A cleanup only takes sessions and logins away. -/
theorem KeysApart.cleanup {R : Nat → Nat → Prop} {r r' : Registry}
    (step : Step (goRules options) R (.cleanup : Job AuthPayload) r r') (apart : KeysApart r) :
    KeysApart r' := by
  intro client session stored
  exact apart client session (step.cleanup_shrinks.1.get_eq stored)

theorem go_keys_apart {events : List GoEvent} {s : State}
    (run : GoRuns options anyClock Opened (KeepsKeysApart options) events s) :
    ∀ client session, s.sessions.get client = some session → ¬ ClientIsUser session := by
  have apart : KeysApart s.registry := by
    refine Runs.invariant (I := fun s => KeysApart s.registry) ?_ ?_ run
    · rintro s ⟨clock, rfl⟩ client session stored
      cases stored
    · intro e happens meets before
      obtain ⟨found, finds, cleaned, stepped⟩ | cleaned := finds_of_happens happens
      · refine (before.cleanup cleaned).step ?_ ?_ stepped
        · intro auth data job unused accepted
          exact meets.register auth data found job finds unused accepted
        · intro auth data login session job opened chosen stored
          exact meets.select auth data found login session job finds opened chosen stored
      · exact before.cleanup cleaned
  exact apart

end Keys

section KeysRun

attribute [local instance] Sample.frost Signer.Sample.sha2 Signer.Sample.argon2

/-- The sample group with its key in upper-case letters. -/
def upperCaseGroup : Group :=
  { Signer.Sample.group [1] with
    groupPk := "0279BE667EF9DCBBAC55A06295CE870B07029BFCDB2DCE28D959F2815B16F81798".toList }

/-- The user registers a client under the user's own key. -/
def ownKeyRun : List (Job AuthPayload × Nat) :=
  [(Sample.register Signer.Sample.userKey upperCaseGroup, 3000000)]

theorem go_client_is_user :
    ¬ ∀ events s, GoRuns Signer.Sample.options (· ≤ ·) Opened
        (fun e => e.job.schemaValid = true) events s →
      ∀ client session, s.sessions.get client = some session → ¬ ClientIsUser session := by
  intro apart
  have run : GoRuns Signer.Sample.options (· ≤ ·) Opened (fun e => e.job.schemaValid = true)
      (Sample.play ownKeyRun).1 (Sample.play ownKeyRun).2 :=
    Sample.play_runs ownKeyRun (by decide +kernel)
  have keys : ((Sample.play ownKeyRun).2.sessions.get Signer.Sample.userKey.pubkey).map
      (fun session => (session.client, session.group)) =
        some (Signer.Sample.userKey.pubkey, upperCaseGroup) := by decide +kernel
  obtain ⟨session, stored, same⟩ := Option.map_eq_some_iff.mp keys
  obtain ⟨client, group⟩ := Prod.mk.inj same
  apply apart _ _ run _ session stored
  rw [clientIsUser_iff client, group]
  show hexDecode (upperCaseGroup.groupPk.drop 2) = some Signer.Sample.userKey.key.data
  decide +kernel

/-- A client of its own. -/
def ownClientRun : List (Job AuthPayload × Nat) :=
  [(Sample.register (Signer.Sample.clientKey 7) upperCaseGroup, 3000000)]

theorem go_keys_apart_client :
    (Sample.play ownClientRun).2.sessions.get (Signer.Sample.clientKey 7).pubkey ≠ none ∧
      ∀ client session, (Sample.play ownClientRun).2.sessions.get client = some session →
        ¬ ClientIsUser session := by
  have run : GoRuns Signer.Sample.options anyClock Opened (fun _ => True)
      (Sample.play ownClientRun).1 (Sample.play ownClientRun).2 :=
    Sample.play_runs ownClientRun (by decide +kernel)
  refine ⟨by decide +kernel, go_keys_apart (run.restrict fun e member => ?_)⟩
  have given := List.mem_singleton.mp (Sample.job_of_play member)
  refine ⟨fun auth data _ job _ _ _ => ?_, fun auth data _ login session job => ?_⟩
  · rw [given] at job
    cases job
    show hexDecode (upperCaseGroup.groupPk.drop 2) ≠ some (Signer.Sample.clientKey 7).key.data
    decide +kernel
  · rw [given] at job
    cases job

end KeysRun

end Pomade.Go
