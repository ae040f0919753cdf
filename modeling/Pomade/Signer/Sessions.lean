import Pomade.Signer.Sample

/-! # The life of a session

A client key belongs to one map, a stored session changes only forwards, and what
registration checks of a group stays true of every session.
-/

namespace Pomade.Signer

open Pomade.Lib Pomade.Frost

/-! ## One map for each key -/

theorem opened_exclusive (clock : Nat) : (State.opened clock).registry.Exclusive :=
  ⟨fun _ => .inl rfl, fun _ => .inl rfl, fun _ => .inl rfl⟩

section Exclusive

variable {Pt : Type} [AddCommGroup Pt] [Module Scalar Pt] [Curve Pt] [Sha2] [Argon2]
variable {options : SignerOptions}

/-- A client key is in at most one of the maps, and storing a session for it never
replaces one that exists. -/
theorem client_key_exclusive {events : List RustEvent} {s : State}
    (run : RustRuns Pt options anyClock Opened (fun _ => True) events s) :
    s.registry.Exclusive ∧
      ∀ e ∈ events, e.job.CreatesSession → ∀ key session,
        e.before.sessions.get key = some session → e.after.sessions.get key = some session := by
  have exclusive : ∀ {events : List RustEvent} {s : State},
      RustRuns Pt options anyClock Opened (fun _ => True) events s → s.registry.Exclusive :=
    fun run => run.registry opened_exclusive fun _ _ step held => step.exclusive held
  refine ⟨exclusive run, fun e member creates key session stored => ?_⟩
  obtain ⟨⟨earlier, reached⟩, happens, _⟩ := run.of_mem member
  exact (registry_step happens).keeps_sessions (exclusive reached) creates stored

end Exclusive

section ExclusiveRun

attribute [local instance] Sample.sha2 Sample.argon2

/-- A login under a new key, run through to its end. -/
def loginRun : List (Job Auth × Nat) :=
  [(Sample.register (Sample.clientKey 7) [1], 1000),
    (Sample.setup (Sample.clientKey 7) Sample.passwordHash, 1001),
    (Sample.loginStart (Sample.clientKey 8), 1002),
    (Sample.loginSelect (Sample.clientKey 8) (Sample.clientKey 7), 1003)]

theorem client_key_exclusive_login :
    (Sample.play loginRun).2.sessions.get (Sample.clientKey 8).pubkey ≠ none ∧
      (Sample.play loginRun).2.registry.Exclusive :=
  ⟨by decide +kernel, (client_key_exclusive (Sample.play_runs loginRun (by decide +kernel))).1⟩

end ExclusiveRun

/-! ## A session changes only forwards -/

/-- How the session of a key may differ from what it was. -/
structure SignerSession.Evolves (key : Str) (session session' : SignerSession) : Prop where
  own : session.client = key ∧ session'.client = key
  share : session'.share = session.share
  group : session'.group = session.group
  recovery : session'.recovery = session.recovery
  createdAt : session'.createdAt = session.createdAt
  contact :
    (session'.email = session.email ∧ session'.emailHash = session.emailHash ∧
      session'.passwordHash = session.passwordHash) ∨
    ((session.email = none ∧ session.emailHash = none ∧ session.passwordHash = none) ∧
      session'.email.isSome ∧ session'.emailHash.isSome ∧ session'.passwordHash.isSome)
  deactivated : session.deactivatedAt.isSome → session'.deactivatedAt.isSome
  activity : session.lastActivity ≤ session'.lastActivity

section Evolves

variable {key : Str} {session session' session'' : SignerSession}

theorem SignerSession.Evolves.refl (own : session.client = key) : session.Evolves key session :=
  ⟨⟨own, own⟩, rfl, rfl, rfl, rfl, .inl ⟨rfl, rfl, rfl⟩, id, le_refl _⟩

theorem SignerSession.Evolves.trans (first : session.Evolves key session')
    (second : session'.Evolves key session'') : session.Evolves key session'' := by
  refine ⟨⟨first.own.1, second.own.2⟩, second.share.trans first.share,
    second.group.trans first.group, second.recovery.trans first.recovery,
    second.createdAt.trans first.createdAt, ?_, second.deactivated ∘ first.deactivated,
    first.activity.trans second.activity⟩
  rcases second.contact with ⟨email, hash, password⟩ | ⟨⟨email, hash, password⟩, set⟩
  · rw [email, hash, password]
    exact first.contact
  · rcases first.contact with ⟨email', hash', password'⟩ | ⟨_, isSet, _⟩
    · exact .inr ⟨⟨email' ▸ email, hash' ▸ hash, password' ▸ password⟩, set⟩
    · rw [email] at isSet
      cases isSet

end Evolves

/-- No session was used after the last reading of the clock. -/
def Registry.Recent (r : Registry) : Prop :=
  ∀ key session, r.sessions.get key = some session → session.lastActivity ≤ r.clock

section Steps

variable {A : Type} {rules : Rules} {job : Job A} {r r' : Registry}

theorem Registry.Recent.shrinks (recent : r.Recent) (sessions : Shrinks r.sessions r'.sessions)
    (later : r.clock ≤ r'.clock) : r'.Recent :=
  fun key session stored => (recent key session (sessions.get_eq stored)).trans later

theorem Registry.Recent.store (recent : r.Recent) {key : Str} {session : SignerSession}
    (sessions : r'.sessions = r.sessions.set key session) (later : r.clock ≤ r'.clock)
    (used : session.lastActivity ≤ r'.clock) : r'.Recent := by
  intro key' session' stored
  rw [sessions, Table.get_set] at stored
  split at stored
  · cases stored
    exact used
  · exact (recent key' session' stored).trans later

theorem Registry.deleteSession_clock (r : Registry) (client : Str) :
    (r.deleteSession client).clock = r.clock := by
  unfold Registry.deleteSession
  split <;> rfl

theorem Step.recent (step : Step rules (· ≤ ·) job r r') (recent : r.Recent) : r'.Recent := by
  cases step with
  | idle later => exact recent.shrinks (.refl _) later
  | register _ _ first second => exact recent.store rfl (first.trans second) (le_refl _)
  | setup _ _ _ first second => exact recent.store rfl (first.trans second) (le_refl _)
  | touch _ _ _ later => exact recent.store rfl later (le_refl _)
  | deactivate stored later => exact recent.store rfl later ((recent _ _ stored).trans later)
  | remove =>
    exact recent.shrinks (r.deleteSession_shrinks _) (r.deleteSession_clock _).ge
  | loginStart _ later => exact recent.shrinks (.refl _) later
  | recoveryStart _ later => exact recent.shrinks (.refl _) later
  | loginDrop => exact recent.shrinks (.refl _) (le_refl _)
  | loginSelect _ _ _ first second => exact recent.store rfl (first.trans second) (le_refl _)
  | recoverySelect => exact recent.shrinks (.refl _) (le_refl _)
  | cleanup _ _ expired later => exact recent.shrinks (rules.expires_shrinks _ _ expired) later

/-- What the evolution of one session rests on. -/
structure Registry.Orderly (r : Registry) : Prop where
  sound : r.Sound
  exclusive : r.Exclusive
  recent : r.Recent

theorem Step.orderly (step : Step rules (· ≤ ·) job r r') (orderly : r.Orderly) : r'.Orderly :=
  ⟨step.sound orderly.sound, step.exclusive orderly.exclusive, step.recent orderly.recent⟩

/-- A session that is there before and after a step has evolved. -/
theorem Step.evolves (step : Step rules (· ≤ ·) job r r') (orderly : r.Orderly) {key : Str}
    {session session' : SignerSession} (stored : r.sessions.get key = some session)
    (kept : r'.sessions.get key = some session') : session.Evolves key session' := by
  have sound := orderly.sound key session stored
  have used := orderly.recent key session stored
  -- A step that only removes sessions leaves the kept one as it was.
  have shrunk : Shrinks r.sessions r'.sessions → session.Evolves key session' := by
    intro shrinks
    have same := shrinks.get_eq kept
    rw [stored] at same
    cases same
    exact .refl sound.own
  -- A step that writes one session leaves the others, so only the written one is to be looked at.
  have written : ∀ {client : Str} {new : SignerSession}, r'.sessions = r.sessions.set client new →
      (r.sessions.get client = some session → session.Evolves key new) →
      session.Evolves key session' := by
    intro client new sessions evolves
    rw [sessions, Table.get_set] at kept
    split at kept
    next same =>
      cases kept
      exact evolves (same ▸ stored)
    · rw [stored] at kept
      cases kept
      exact .refl sound.own
  cases step with
  | idle _ => exact shrunk (.refl _)
  | register unused _ _ _ =>
    refine written rfl fun found => ?_
    rw [unused.session] at found
    cases found
  | setup found _ unset first second =>
    refine written rfl fun found' => ?_
    rw [found] at found'
    cases found'
    -- No recovery method is set, so the session had neither of the two hashes.
    have hash : session.emailHash = none := by simpa [unset] using sound.hashed
    have password : session.passwordHash = none := by simpa [unset] using sound.guarded
    exact ⟨⟨sound.own, sound.own⟩, rfl, rfl, rfl, rfl, .inr ⟨⟨unset, hash, password⟩, rfl, rfl, rfl⟩,
      id, used.trans (first.trans second)⟩
  | touch _ found _ later =>
    refine written rfl fun found' => ?_
    rw [found] at found'
    cases found'
    exact ⟨⟨sound.own, sound.own⟩, rfl, rfl, rfl, rfl, .inl ⟨rfl, rfl, rfl⟩, id, used.trans later⟩
  | deactivate found _ =>
    refine written rfl fun found' => ?_
    rw [found] at found'
    cases found'
    exact ⟨⟨sound.own, sound.own⟩, rfl, rfl, rfl, rfl, .inl ⟨rfl, rfl, rfl⟩, fun _ => rfl, le_refl _⟩
  | remove => exact shrunk (r.deleteSession_shrinks _)
  | loginStart _ _ => exact shrunk (.refl _)
  | recoveryStart _ _ => exact shrunk (.refl _)
  | loginDrop => exact shrunk (.refl _)
  | loginSelect opened _ _ _ _ =>
    refine written rfl fun found => ?_
    -- The client of an open login has no session yet: there is none to evolve.
    rw [orderly.exclusive.session_none opened] at found
    cases found
  | recoverySelect => exact shrunk (.refl _)
  | cleanup _ _ expired _ => exact shrunk (rules.expires_shrinks _ _ expired)

end Steps

theorem opened_orderly (clock : Nat) : (State.opened clock).registry.Orderly where
  sound _ _ stored := nomatch stored
  exclusive := opened_exclusive clock
  recent _ _ stored := nomatch stored

section Monotone

variable {Pt : Type} [AddCommGroup Pt] [Module Scalar Pt] [Curve Pt] [Sha2] [Argon2]
variable {options : SignerOptions}

/-- From any state that has a session under a key, as long as the key has one, the
session only evolves. -/
theorem session_monotone {past later : List RustEvent} {s s' : State} {key : Str}
    {session : SignerSession}
    (reached : RustRuns Pt options (· ≤ ·) Opened (fun _ => True) past s)
    (stored : s.sessions.get key = some session)
    (run : RustRuns Pt options (· ≤ ·) (fun start => start = s)
      (fun e => e.after.sessions.get key ≠ none) later s') :
    ∃ session', s'.sessions.get key = some session' ∧ session.Evolves key session' := by
  have orderly : s.registry.Orderly :=
    reached.registry opened_orderly fun _ _ step held => step.orderly held
  suffices s'.registry.Orderly ∧
      ∃ session', s'.sessions.get key = some session' ∧ session.Evolves key session' from this.2
  refine Runs.invariant (I := fun s' => s'.registry.Orderly ∧
    ∃ session', s'.sessions.get key = some session' ∧ session.Evolves key session') ?_ ?_ run
  · rintro _ rfl
    exact ⟨orderly, session, stored, .refl (orderly.sound key session stored).own⟩
  · rintro e happens present ⟨orderly, session₁, stored₁, evolved⟩
    have step := registry_step happens
    obtain ⟨session₂, stored₂⟩ := Option.ne_none_iff_exists'.mp present
    exact ⟨step.orderly orderly, session₂, stored₂,
      evolved.trans (step.evolves orderly stored₁ stored₂)⟩

end Monotone

section MonotoneRun

attribute [local instance] Sample.sha2 Sample.argon2

/-- From its registration on, through its recovery setup and a login that copies it. -/
theorem session_monotone_login :
    ∃ session', (replay (exec (createPsigPkgWithNonce Scalar)) (handle Scalar Sample.options)
        ((loginRun.drop 1).map fun (job, time) => (job, Sample.steady time)) []
        (Sample.play (loginRun.take 1)).2).2.sessions.get (Sample.clientKey 7).pubkey =
          some session' ∧
      (newSession (Sample.clientKey 7)
        { share := Sample.share, group := Sample.group [1], recovery := true } 1000 1000).Evolves
        (Sample.clientKey 7).pubkey session' :=
  session_monotone (Sample.play_runs (loginRun.take 1) (by decide +kernel)) (by decide +kernel)
    (Runs.replay _ (.start _ rfl) (by decide +kernel))

end MonotoneRun

/-! ## Well-formed sessions -/

/-- A session holds the share of one of its group's members. -/
structure SignerSession.WellFormed (Pt : Type) [AddCommGroup Pt] [Module Scalar Pt] [Curve Pt]
    (session : SignerSession) : Prop where
  positive : 1 ≤ session.group.threshold.toNat
  enough : session.group.threshold.toNat ≤ session.group.commits.length
  distinct : (session.group.commits.map (·.idx)).Nodup
  member : ∃ c ∈ session.group.commits, c.idx = session.share.idx ∧
    ∃ seckey pubkey, decode32 session.share.seckey = some seckey ∧
      decode33 c.pubkey = some pubkey ∧
      serializePoint (scalarFromBytes seckey • (Curve.generator : Pt)) = .ok pubkey

section WellFormed

variable {Pt : Type} [AddCommGroup Pt] [Module Scalar Pt] [Curve Pt]

/-- A positive membership check names the member. -/
theorem isGroupMember_true {group : Group} {share : Share}
    (member : isGroupMember Pt group share = .ok true) :
    ∃ c ∈ group.commits, c.idx = share.idx ∧
      ∃ seckey pubkey, decode32 share.seckey = some seckey ∧ decode33 c.pubkey = some pubkey ∧
        serializePoint (scalarFromBytes seckey • (Curve.generator : Pt)) = .ok pubkey := by
  unfold isGroupMember at member
  cases decoded : decode32 share.seckey with
  | none => simp [decoded] at member
  | some seckey =>
    rw [decoded] at member
    cases derived : getPubkey Pt seckey with
    | error e => simp [derived] at member
    | ok pubkey =>
      have found : (group.commits.any fun c =>
          c.idx == share.idx && c.pubkey == hexEncode pubkey.data) = true := by
        simpa [derived] using member
      rw [List.any_eq_true] at found
      obtain ⟨c, mem, same⟩ := found
      simp only [Bool.and_eq_true, beq_iff_eq] at same
      refine ⟨c, mem, same.1, seckey, pubkey, rfl, ?_, derived⟩
      rw [same.2, decode33, hexDecode_hexEncode, Option.bind_some, Bytes.ofList_data]

theorem SignerSession.WellFormed.of_accepts {options : SignerOptions} {auth : NostrAuth}
    {data : RegisterRequest} {t₁ t₂ : Nat} (accepted : RustAccepts Pt options auth data)
    (distinct : (data.group.commits.map (·.idx)).Nodup) :
    (newSession auth data t₁ t₂).WellFormed Pt :=
  ⟨Nat.one_le_iff_ne_zero.mpr accepted.positive, accepted.enough, distinct,
    isGroupMember_true accepted.member⟩

variable [Sha2] [Argon2] {options : SignerOptions}

/-- No group that a registration is about to store has an index at two places that are
not next to each other. -/
def RegistersDistinct (Pt : Type) [AddCommGroup Pt] [Module Scalar Pt] [Curve Pt]
    (options : SignerOptions) (e : RustEvent) : Prop :=
  ∀ auth data, e.job = .request (some auth) (.body (.register data)) →
    e.before.registry.Unused auth.pubkey → RustAccepts Pt options auth data →
    (data.group.commits.map (·.idx)).Nodup

theorem sessions_well_formed {events : List RustEvent} {s : State}
    (run : RustRuns Pt options anyClock Opened (RegistersDistinct Pt options) events s) :
    ∀ client session, s.sessions.get client = some session → session.WellFormed Pt := by
  refine RustRuns.registry (I := fun r => ∀ client session,
    r.sessions.get client = some session → session.WellFormed Pt) ?_ ?_ run
  · intro clock client session stored
    cases stored
  · intro e distinct step held
    refine step.forall_sessions (P := fun _ session => session.WellFormed Pt) ?_ ?_ ?_ ?_ ?_ held
    · intro auth data t₁ t₂ job unused accepted
      exact .of_accepts accepted (distinct auth data job unused accepted)
    · intro client session data emailHash t formed
      exact ⟨formed.1, formed.2, formed.3, formed.4⟩
    · intro client session t formed
      exact ⟨formed.1, formed.2, formed.3, formed.4⟩
    · intro client session t formed
      exact ⟨formed.1, formed.2, formed.3, formed.4⟩
    · intro auth data login session t₁ t₂ _ _ _ _ formed
      exact ⟨formed.1, formed.2, formed.3, formed.4⟩

end WellFormed

section WellFormedRun

attribute [local instance] Sample.sha2 Sample.argon2

/-- The indices 1, 2, 1 have no two adjacent equal ones. -/
theorem repeated_index_registered :
    ¬ ∀ events s, RustRuns Scalar Sample.options (· ≤ ·) Opened (fun _ => True) events s →
      ∀ client session, s.sessions.get client = some session → session.WellFormed Scalar := by
  intro formed
  have run := Sample.play_runs (R := (· ≤ ·))
    [(Sample.register (Sample.clientKey 7) [1, 2, 1], 1000)] (by decide +kernel)
  have stored := formed _ _ run (Sample.clientKey 7).pubkey (newSession (Sample.clientKey 7)
    { share := Sample.share, group := Sample.group [1, 2, 1], recovery := true } 1000 1000)
    (by decide +kernel)
  exact absurd stored.distinct (by decide +kernel)

theorem sessions_well_formed_register :
    (newSession (Sample.clientKey 7)
      { share := Sample.share, group := Sample.group [1, 2], recovery := true } 1000 1000).WellFormed
      Scalar := by
  have happens : (Sample.next (Sample.register (Sample.clientKey 7) [1, 2]) 1000
      (State.opened 0)).Happens (rustWorld Scalar anyClock) (handle Scalar Sample.options) :=
    Event.happens_ofRun (by decide +kernel)
  refine sessions_well_formed (.step _ (.start _ ⟨0, rfl⟩) happens ?_)
    (Sample.clientKey 7).pubkey _ (by decide +kernel)
  intro auth data job _ _
  cases job
  decide

end WellFormedRun

end Pomade.Signer
