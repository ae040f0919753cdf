import Pomade.Signer.Binding
import Pomade.Signer.Sample
import Pomade.Signer.Sessions

/-! # Who owns a session

A session belongs to the user whose key is the x-coordinate of its group key.  The handlers
that list, deactivate and delete sessions compare the text of the group key with the key of
the request, which is written in lower case.
-/

namespace Pomade.Signer

open Pomade.Lib Pomade.Frost Coll

/-! ## The three handlers -/

/-- The sessions that a key is shown. -/
def State.ownedItems (s : State) (auth : NostrAuth) : List SessionItem :=
  (s.sessions.entries keyBefore).filterMap fun entry =>
    if entry.2.group.groupPk.drop 2 = auth.pubkey then some (SessionItem.ofSession entry.2)
    else none

section Handlers

variable {signing : SigningFn} {R : Nat → Nat → Prop} [IsPreorder Nat R] {s : State}
variable {calls : List SignerCall} {auth : NostrAuth} {data : SelectRequest} {session : SignerSession}

omit [IsPreorder Nat R] in
theorem handleSessionList_items :
    Prog.wp (traced signing R) (handleSessionList auth) (fun r p => p.1 = s ∧
      r = some (accept "Successfully retrieved session list." (.items (s.ownedItems auth))))
      (s, calls) := by
  unfold handleSessionList
  rw [wp_entries]
  exact ⟨rfl, rfl⟩

omit [IsPreorder Nat R] in
/-- Deactivation is decided by the text of the group key. -/
theorem handleSessionDeactivate_owner (stored : s.sessions.get data.client = some session) :
    Prog.wp (traced signing R) (handleSessionDeactivate auth data)
      (fun r p =>
        (session.group.groupPk.drop 2 = auth.pubkey ∧
          r = some (accept "Successfully deactivated selected session." .none) ∧
          ∃ t, p.1.sessions.get data.client = some { session with deactivatedAt := some t }) ∨
        (session.group.groupPk.drop 2 ≠ auth.pubkey ∧ p.1 = s)) (s, calls) := by
  unfold handleSessionDeactivate
  rw [wp_get]
  simp only [State.table, stored]
  split
  next owner =>
    unfold deactivateSession
    rw [Prog.wp_bind, wp_get]
    simp only [State.table, stored]
    rw [wp_now]
    intro t _
    rw [Coll.set, Prog.op_eq, wp_set]
    exact .inl ⟨owner, rfl, t, Table.get_set_self ..⟩
  next other => exact .inr ⟨other, rfl⟩

omit [IsPreorder Nat R] in
/-- So is deletion. -/
theorem handleSessionDelete_owner (stored : s.sessions.get data.client = some session) :
    Prog.wp (traced signing R) (handleSessionDelete auth data)
      (fun r p =>
        (session.group.groupPk.drop 2 = auth.pubkey ∧
          r = some (accept "Successfully deleted selected session." .none) ∧
          p.1.sessions.get data.client = none) ∨
        (session.group.groupPk.drop 2 ≠ auth.pubkey ∧ p.1 = s)) (s, calls) := by
  unfold handleSessionDelete
  rw [wp_get]
  simp only [State.table, stored]
  split
  next owner =>
    refine Prog.wp_unit deleteSession_spec ?_
    rintro ⟨s₁, calls₁⟩ same
    refine .inl ⟨owner, rfl, ?_⟩
    have sessions : s₁.sessions = (s.registry.deleteSession data.client).sessions :=
      congrArg Registry.sessions same
    rw [sessions, Registry.deleteSession]
    simp [State.registry, stored]
  next other => exact .inr ⟨other, rfl⟩

end Handlers

/-! ## Every other request -/

section Steps

variable {A : Type} {rules : Rules} {R : Nat → Nat → Prop} {r r' : Registry} {client : Str}
variable {session : SignerSession}

/-- The session is still stored, and as active as before. -/
def KeepsActive (client : Str) (deactivatedAt : Option Nat) (sessions : Table SignerSession) : Prop :=
  ∃ session, sessions.get client = some session ∧ session.deactivatedAt = deactivatedAt

theorem KeepsActive.set {sessions : Table SignerSession} {key : Str} {new : SignerSession}
    {deactivatedAt : Option Nat} (kept : KeepsActive client deactivatedAt sessions)
    (same : key = client → new.deactivatedAt = deactivatedAt) :
    KeepsActive client deactivatedAt (sessions.set key new) := by
  by_cases here : client = key
  · subst here
    exact ⟨new, Table.get_set_self .., same rfl⟩
  · obtain ⟨session, stored, active⟩ := kept
    exact ⟨session, by rw [Table.get_set_ne here, stored], active⟩

/-- A request keeps every session and its activity, except the one that a deactivation or a
deletion names. -/
theorem Step.keepsActive {auth : Option NostrAuth} {route : Route A}
    (step : Step rules R (.request auth route) r r')
    (stored : r.sessions.get client = some session) (exclusive : r.Exclusive)
    (deactivates : ∀ data, route = .body (.sessionDeactivate data) → data.client ≠ client)
    (deletes : ∀ data, route = .body (.sessionDelete data) → data.client ≠ client) :
    KeepsActive client session.deactivatedAt r'.sessions := by
  have kept : KeepsActive client session.deactivatedAt r.sessions := ⟨session, stored, rfl⟩
  have known : ∀ {key : Str} {found : SignerSession}, r.sessions.get key = some found →
      key = client → found.deactivatedAt = session.deactivatedAt := by
    rintro key found held rfl
    rw [stored] at held
    cases held
    rfl
  have absent : ∀ {key : Str}, r.sessions.get key = none → key ≠ client := by
    rintro key gone rfl
    rw [stored] at gone
    cases gone
  cases step with
  | idle _ => exact kept
  | register unused _ _ _ => exact kept.set fun here => absurd here (absent unused.session)
  | setup found _ _ _ _ =>
    apply kept.set
    intro here
    have same := known found here
    exact same
  | touch _ found _ _ =>
    apply kept.set
    intro here
    have same := known found here
    exact same
  | @deactivate _ data _ _ _ found _ => exact kept.set fun here => absurd here (deactivates data rfl)
  | @remove _ data _ =>
    refine ⟨session, ?_, rfl⟩
    unfold Registry.deleteSession
    cases r.sessions.get data.client with
    | none => exact stored
    | some removed => rw [Table.get_delete_ne (deletes data rfl).symm, stored]
  | loginStart _ _ => exact kept
  | recoveryStart _ _ => exact kept
  | loginDrop => exact kept
  | loginSelect opened _ _ _ _ =>
    exact kept.set fun here => absurd here (absent (exclusive.session_none opened))
  | recoverySelect => exact kept

end Steps

/-! ## Runs -/

section Runs

variable {Pt : Type} [AddCommGroup Pt] [Module Scalar Pt] [Curve Pt] [Sha2] [Argon2]
variable {options : SignerOptions} {R : Nat → Nat → Prop} [IsPreorder Nat R]
variable {events : List RustEvent} {s : State} {client : Str} {session : SignerSession}
variable {auth : NostrAuth}

/-- A stored session has a client key and a group key of the right length. -/
def SignerSession.Keyed (client : Str) (session : SignerSession) : Prop :=
  isHex32 client = true ∧ isHex33 session.group.groupPk = true

theorem rust_exclusive (run : RustRuns Pt options R Opened (fun _ => True) events s) :
    s.registry.Exclusive :=
  RustRuns.registry (I := Registry.Exclusive) opened_exclusive
    (fun _ _ step exclusive => step.exclusive exclusive) run

theorem rust_keyed (run : RustRuns Pt options R Opened (fun _ => True) events s) :
    ∀ client session, s.sessions.get client = some session → session.Keyed client := by
  refine RustRuns.registry (I := fun r => ∀ client session, r.sessions.get client = some session →
    session.Keyed client) ?_ ?_ run
  · exact fun clock _ _ stored => nomatch stored
  · intro e _ step
    refine step.forall_sessions (P := fun client session => session.Keyed client) ?_ ?_ ?_ ?_ ?_
    · intro auth data _ _ _ _ accepted
      have valid := accepted.valid
      simp only [Body.schemaValid, Group.schemaValid, Bool.and_eq_true] at valid
      exact ⟨isHex32_hexEncode auth.key, valid.2.2⟩
    · exact fun _ _ _ _ _ keyed => keyed
    · exact fun _ _ _ keyed => keyed
    · exact fun _ _ _ keyed => keyed
    · exact fun auth _ _ _ _ _ _ _ _ _ keyed => ⟨isHex32_hexEncode auth.key, keyed.2⟩

omit [Sha2] [Argon2] in
/-- The x-only key of a group key of the right length, and how it is written. -/
theorem groupKey {groupPk : Str} (valid : isHex33 groupPk = true) :
    ∃ bytes, decode33 groupPk = some bytes ∧
      hexEncode bytes.tail.data = lowerCase (groupPk.drop 2) := by
  simp only [isHex33, isHex, Bool.and_eq_true, beq_iff_eq] at valid
  obtain ⟨bytes, decoded, size⟩ := hexDecode_digits valid.2.1.2 valid.2.2
  have size : bytes.length = 33 := by omega
  refine ⟨⟨bytes, size⟩, ?_, ?_⟩
  · rw [decode33, decoded, Option.bind_some]
    exact Bytes.ofList_eq_some.mpr rfl
  · obtain ⟨high, low, rest, rfl⟩ : ∃ high low rest, groupPk = high :: low :: rest := by
      cases groupPk with
      | nil => simp at valid
      | cons high tail =>
        cases tail with
        | nil => simp at valid
        | cons low rest => exact ⟨high, low, rest, rfl⟩
    simp only [hexDecode, Option.pure_def, Option.bind_eq_bind, Option.bind_eq_some_iff,
      Option.some.injEq] at decoded
    obtain ⟨_, _, _, _, others, decodedRest, rfl⟩ := decoded
    exact hexEncode_lowerCase decodedRest

/-- The response of a session list names the client. -/
def Lists (e : RustEvent) (client : Str) : Prop :=
  ∃ response items, e.result = some response ∧ response.ok = true ∧
    response.payload = .items items ∧ ∃ item ∈ items, item.client = client

/-- The request has been answered with success. -/
def Granted (e : RustEvent) : Prop := ∃ response, e.result = some response ∧ response.ok = true

variable (Pt options R) in
/-- The signer of the requests sees the session, and can deactivate and delete it. -/
structure Controls (s : State) (auth : NostrAuth) (client : Str) : Prop where
  lists : ∀ e : RustEvent, e.Happens (rustWorld Pt R) (handle Pt options) → e.before = s →
    e.job = .request (some auth) (.body .sessionList) → Lists e client
  deactivates : ∀ e : RustEvent, e.Happens (rustWorld Pt R) (handle Pt options) → e.before = s →
    e.job = .request (some auth) (.body (.sessionDeactivate { client })) →
    Granted e ∧ ∃ session, e.after.sessions.get client = some session ∧
      session.deactivatedAt.isSome = true
  deletes : ∀ e : RustEvent, e.Happens (rustWorld Pt R) (handle Pt options) → e.before = s →
    e.job = .request (some auth) (.body (.sessionDelete { client })) →
    Granted e ∧ e.after.sessions.get client = none

variable (Pt options R) in
/-- No request of the signer lists, deactivates or deletes the session. -/
structure Powerless (s : State) (auth : NostrAuth) (client : Str) (session : SignerSession) :
    Prop where
  unlisted : ∀ e : RustEvent, e.Happens (rustWorld Pt R) (handle Pt options) → e.before = s →
    e.job = .request (some auth) (.body .sessionList) → ¬Lists e client
  kept : ∀ e : RustEvent, e.Happens (rustWorld Pt R) (handle Pt options) → e.before = s →
    ∀ route, e.job = .request (some auth) route →
    KeepsActive client session.deactivatedAt e.after.sessions

omit [IsPreorder Nat R] in
/-- What a list contains is decided by the text of the group key. -/
theorem lists_iff (sound : s.registry.Sound) (stored : s.sessions.get client = some session)
    {e : RustEvent} (happens : e.Happens (rustWorld Pt R) (handle Pt options)) (before : e.before = s)
    (job : e.job = .request (some auth) (.body .sessionList)) :
    Lists e client ↔ session.group.groupPk.drop 2 = auth.pubkey := by
  have answered : e.result =
      some (accept "Successfully retrieved session list." (.items (s.ownedItems auth))) := by
    apply happens.of_wp (Q := fun r _ => r =
      some (accept "Successfully retrieved session list." (.items (s.ownedItems auth))))
    rw [job, before]
    exact Prog.wp_mono (fun _ _ both => both.2) _ _ handleSessionList_items
  have listed : Lists e client ↔ ∃ item ∈ s.ownedItems auth, item.client = client := by
    constructor
    · rintro ⟨response, items, result, _, payload, named⟩
      rw [answered] at result
      cases result
      cases payload
      exact named
    · exact fun named => ⟨_, _, answered, rfl, rfl, named⟩
  rw [listed]
  constructor
  · rintro ⟨item, member, named⟩
    obtain ⟨⟨key, found⟩, entry, shown⟩ := List.mem_filterMap.mp member
    split at shown
    next owner =>
      cases shown
      have held := (Table.mem_entries _ _ _ _).mp entry
      have own : found.client = key := (sound key found held).own
      have key_ : key = client := own.symm.trans named
      rw [key_, stored] at held
      cases held
      exact owner
    next => cases shown
  · intro owner
    refine ⟨SessionItem.ofSession session, ?_, (sound client session stored).own⟩
    refine List.mem_filterMap.mpr ⟨(client, session), (Table.mem_entries _ _ _ _).mpr stored, ?_⟩
    rw [if_pos owner]

omit [IsPreorder Nat R] in
/-- Requests about the session by the key that its group key spells. -/
theorem controls_of_spelled (sound : s.registry.Sound)
    (stored : s.sessions.get client = some session) (keyed : session.Keyed client)
    (owner : session.group.groupPk.drop 2 = auth.pubkey) : Controls Pt options R s auth client := by
  constructor
  · intro e happens before job
    exact (lists_iff sound stored happens before job).mpr owner
  · intro e happens before job
    have valid : (Body.sessionDeactivate { client } : Body Auth).schemaValid = true := keyed.1
    apply happens.of_wp (Q := fun r p => (∃ response, r = some response ∧ response.ok = true) ∧
      ∃ session, p.1.sessions.get client = some session ∧ session.deactivatedAt.isSome = true)
    rw [job, before]
    unfold handle
    dsimp only
    rw [if_pos valid]
    refine Prog.wp_mono ?_ _ _ (handleSessionDeactivate_owner stored)
    rintro r p (⟨_, answered, t, deactivated⟩ | ⟨other, _⟩)
    · exact ⟨⟨_, answered, rfl⟩, _, deactivated, rfl⟩
    · exact absurd owner other
  · intro e happens before job
    have valid : (Body.sessionDelete { client } : Body Auth).schemaValid = true := keyed.1
    apply happens.of_wp (Q := fun r p => (∃ response, r = some response ∧ response.ok = true) ∧
      p.1.sessions.get client = none)
    rw [job, before]
    unfold handle
    dsimp only
    rw [if_pos valid]
    refine Prog.wp_mono ?_ _ _ (handleSessionDelete_owner stored)
    rintro r p (⟨_, answered, deleted⟩ | ⟨other, _⟩)
    · exact ⟨⟨_, answered, rfl⟩, deleted⟩
    · exact absurd owner other

/-- Requests by a key that the group key does not spell. -/
theorem powerless_of_unspelled (sound : s.registry.Sound) (exclusive : s.registry.Exclusive)
    (stored : s.sessions.get client = some session)
    (other : session.group.groupPk.drop 2 ≠ auth.pubkey) :
    Powerless Pt options R s auth client session := by
  have kept : KeepsActive client session.deactivatedAt s.sessions := ⟨session, stored, rfl⟩
  constructor
  · intro e happens before job listed
    exact other ((lists_iff sound stored happens before job).mp listed)
  · intro e happens before route job
    have step := registry_step happens
    rw [job, before] at step
    by_cases names : ∃ data : SelectRequest, data.client = client ∧
        (route = .body (.sessionDeactivate data) ∨ route = .body (.sessionDelete data))
    · -- The handlers turn the request down and change nothing.
      obtain ⟨data, rfl, route_⟩ := names
      apply happens.of_wp (Q := fun _ p =>
        KeepsActive data.client session.deactivatedAt p.1.sessions)
      obtain rfl | rfl := route_
      all_goals
        rw [job, before]
        unfold handle
        dsimp only
        split
      · refine Prog.wp_mono ?_ _ _ (handleSessionDeactivate_owner stored)
        rintro r p (⟨owner, _⟩ | ⟨_, same⟩)
        · exact absurd owner other
        · rwa [same]
      · exact kept
      · refine Prog.wp_mono ?_ _ _ (handleSessionDelete_owner stored)
        rintro r p (⟨owner, _⟩ | ⟨_, same⟩)
        · exact absurd owner other
        · rwa [same]
      · exact kept
    · refine step.keepsActive stored exclusive ?_ ?_
      · rintro data rfl same
        exact names ⟨data, same, .inl rfl⟩
      · rintro data rfl same
        exact names ⟨data, same, .inr rfl⟩

/-- The user whose key a session's group key decodes to controls the session exactly when
the group key spells that key in lower case; every other key is powerless. -/
theorem session_owner_iff (run : RustRuns Pt options R Opened (fun _ => True) events s)
    (stored : s.sessions.get client = some session) :
    ∃ groupPk : Bytes 33, decode33 session.group.groupPk = some groupPk ∧
      (∀ auth : NostrAuth, auth.key = groupPk.tail → (Controls Pt options R s auth client ↔
        lowerCase (session.group.groupPk.drop 2) = session.group.groupPk.drop 2)) ∧
      ∀ auth : NostrAuth, auth.key ≠ groupPk.tail →
        Powerless Pt options R s auth client session := by
  have sound : s.registry.Sound := rust_sound run
  have keyed := rust_keyed run client session stored
  obtain ⟨groupPk, decoded, written⟩ := groupKey keyed.2
  refine ⟨groupPk, decoded, ?_, ?_⟩
  · intro auth own
    have spelled : auth.pubkey = lowerCase (session.group.groupPk.drop 2) := by
      rw [NostrAuth.pubkey, own, written]
    rw [← spelled]
    constructor
    · intro controls
      let e : RustEvent := Event.ofRun (exec (createPsigPkgWithNonce Pt)) (handle Pt options)
        (.request (some auth) (.body .sessionList)) default s
      have happens : e.Happens (rustWorld Pt R) (handle Pt options) :=
        Event.happens_ofRun ⟨trivial, trivial⟩
      exact ((lists_iff sound stored happens rfl rfl).mp (controls.lists e happens rfl rfl)).symm
    · exact fun owner => controls_of_spelled sound stored keyed owner.symm
  · intro auth other
    apply powerless_of_unspelled sound (rust_exclusive run) stored
    intro spelled
    have lower : hexEncode auth.key.data = lowerCase (hexEncode auth.key.data) :=
      hexEncode_lowerCase (hexDecode_hexEncode _)
    rw [spelled, NostrAuth.pubkey, ← lower] at written
    exact other (Bytes.ext (hexEncode_injective written)).symm

end Runs

section Sample

attribute [local instance] Sample.sha2 Sample.argon2

/-- A registration whose group key is spelled in upper-case letters. -/
def upperCaseRegister : Job Auth :=
  Sample.job (Sample.clientKey 7) (.register
    { share := Sample.share
      group := { Sample.group [1] with groupPk := Sample.generatorPoint.map Char.toUpper }
      recovery := true })

theorem session_owner_iff_registered :
    Controls Scalar Sample.options anyClock
      (Sample.play [(Sample.register (Sample.clientKey 7) [1], 1000)]).2 Sample.userKey
      (Sample.clientKey 7).pubkey := by
  have run := Sample.play_runs (R := anyClock) [(Sample.register (Sample.clientKey 7) [1], 1000)]
    (by decide +kernel)
  have known : ((Sample.play [(Sample.register (Sample.clientKey 7) [1], 1000)]).2.sessions.get
      (Sample.clientKey 7).pubkey).map (fun session => session.group.groupPk) =
      some Sample.generatorPoint := by decide +kernel
  obtain ⟨session, stored, groupPk⟩ := Option.map_eq_some_iff.mp known
  obtain ⟨bytes, decoded, controls, _⟩ := session_owner_iff run stored
  have named : decode33 Sample.generatorPoint =
      some (Bytes.cons 0x02 (Bytes.ofNat 32 generatorAbscissa)) := by decide +kernel
  rw [groupPk, named] at decoded
  cases decoded
  refine (controls Sample.userKey rfl).mpr ?_
  rw [groupPk]
  decide +kernel

/-- Nobody can list a session whose group key is spelled in upper case. -/
theorem session_without_owner :
    ¬ ∀ events s, RustRuns Scalar Sample.options anyClock Opened (fun _ => True) events s →
      ∀ client session, s.sessions.get client = some session →
      ∀ groupPk, decode33 session.group.groupPk = some groupPk →
      ∀ auth : NostrAuth, auth.key = groupPk.tail →
        Controls Scalar Sample.options anyClock s auth client := by
  intro owned
  have run := Sample.play_runs (R := anyClock) [(upperCaseRegister, 1000)] (by decide +kernel)
  have known : ((Sample.play [(upperCaseRegister, 1000)]).2.sessions.get
      (Sample.clientKey 7).pubkey).map (fun session => session.group.groupPk) =
      some (Sample.generatorPoint.map Char.toUpper) := by decide +kernel
  obtain ⟨session, stored, spelled⟩ := Option.map_eq_some_iff.mp known
  have named : decode33 (Sample.generatorPoint.map Char.toUpper) =
      some (Bytes.cons 0x02 (Bytes.ofNat 32 generatorAbscissa)) := by decide +kernel
  have controls := owned _ _ run _ session stored _ (by rw [spelled, named]) Sample.userKey rfl
  let e := Sample.next (Sample.job Sample.userKey .sessionList) 1001
    (Sample.play [(upperCaseRegister, 1000)]).2
  have happens : e.Happens (rustWorld Scalar anyClock) (handle Scalar Sample.options) :=
    Event.happens_ofRun ⟨trivial, trivial⟩
  have listed := (lists_iff (rust_sound run) stored happens rfl rfl).mp
    (controls.lists e happens rfl rfl)
  rw [spelled] at listed
  exact absurd listed (by decide +kernel)

end Sample

end Pomade.Signer
