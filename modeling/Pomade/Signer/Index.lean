import Pomade.Signer.Sessions

/-! # The email index

The index lists, for each email hash, the clients whose session has that hash.  It is a
copy kept by hand; here is what each way of changing a session does to it.
-/

namespace Pomade.Signer

open Pomade.Lib Pomade.Frost

/-- How often a client is in the index entry of an email hash. -/
def listed (index : Table SessionIndex) (emailHash client : Str) : Nat :=
  ((index.get emailHash).map fun entry => entry.clients.count client).getD 0

/-- The email hash of the session a client has. -/
def emailHashOf (sessions : Table SignerSession) (client : Str) : Option Str :=
  (sessions.get client).bind fun session => session.emailHash

/-- The index lists exactly the clients with an email hash, once each. -/
structure IndexExact (sessions : Table SignerSession) (index : Table SessionIndex) : Prop where
  exact : ∀ emailHash client, listed index emailHash client =
    if emailHashOf sessions client = some emailHash then 1 else 0
  nonempty : ∀ emailHash entry, index.get emailHash = some entry → entry.clients ≠ []

section Tables

variable {sessions sessions' : Table SignerSession} {index : Table SessionIndex}
variable {client client' emailHash emailHash' : Str} {session : SignerSession}

theorem listed_set_ne (entry : SessionIndex) (other : emailHash' ≠ emailHash) :
    listed (index.set emailHash entry) emailHash' client = listed index emailHash' client := by
  rw [listed, listed, Table.get_set_ne other]

theorem listed_set_self (entry : SessionIndex) :
    listed (index.set emailHash entry) emailHash client = entry.clients.count client := by
  rw [listed, Table.get_set_self]
  rfl

theorem count_indexWith (absent : listed index emailHash client = 0) :
    (indexWith (index.get emailHash) client).clients.count client' =
      if client' = client then 1 else listed index emailHash client' := by
  have count : ∀ c, ((index.get emailHash).getD { clients := [] }).clients.count c =
      listed index emailHash c := by
    intro c
    unfold listed
    cases index.get emailHash <;> rfl
  have new : client ∉ ((index.get emailHash).getD { clients := [] }).clients := by
    rw [← List.count_eq_zero, count, absent]
  unfold indexWith
  dsimp only
  rw [if_neg new, List.count_append, count, List.count_singleton]
  by_cases same : client' = client
  · subst same
    simp [absent]
  · simp [same, Ne.symm same]

theorem listed_enindex (absent : listed index emailHash client = 0) :
    listed (enindex index client (some emailHash)) emailHash' client' =
      if emailHash' = emailHash ∧ client' = client then 1
      else listed index emailHash' client' := by
  unfold enindex
  dsimp only
  by_cases same : emailHash' = emailHash
  · subst same
    simp only [listed_set_self, count_indexWith absent, true_and]
  · simp only [listed_set_ne _ same, same, false_and, if_false]

theorem count_without (clients : List Str) :
    (clients.filter fun c => decide (c ≠ client)).count client' =
      if client' = client then 0 else clients.count client' := by
  split
  next same =>
    rw [List.count_eq_zero]
    intro member
    exact of_decide_eq_true (List.mem_filter.mp member).2 same
  next other => exact List.count_filter (decide_eq_true other)

theorem listed_unindex :
    listed (unindex index client (some emailHash)) emailHash' client' =
      if emailHash' = emailHash ∧ client' = client then 0
      else listed index emailHash' client' := by
  unfold unindex
  dsimp only
  by_cases same : emailHash' = emailHash
  · subst same
    cases found : index.get emailHash' with
    | none => simp [listed, found]
    | some entry =>
      have before : listed index emailHash' client' = entry.clients.count client' := by
        simp [listed, found]
      dsimp only
      rw [before]
      simp only [true_and]
      rw [← count_without]
      split
      next empty => rw [listed, Table.get_delete_self, List.isEmpty_iff.mp empty]; rfl
      next => exact listed_set_self _
  · have other : ∀ entry, listed (index.set emailHash entry) emailHash' client' =
        listed index emailHash' client' := fun entry => listed_set_ne entry same
    cases index.get emailHash with
    | none => simp [same]
    | some entry =>
      dsimp only
      split
      · simp [listed, Table.get_delete_ne same, same]
      · simp [other, same]

theorem nonempty_enindex (nonempty : ∀ h entry, index.get h = some entry → entry.clients ≠ [])
    (client : Str) (hash : Option Str) {h : Str} {entry : SessionIndex}
    (found : (enindex index client hash).get h = some entry) : entry.clients ≠ [] := by
  cases hash with
  | none => exact nonempty h entry found
  | some emailHash =>
    unfold enindex at found
    dsimp only at found
    rw [Table.get_set] at found
    split at found
    · cases found
      unfold indexWith
      dsimp only
      split
      next member => exact List.ne_nil_of_mem member
      next => simp
    · exact nonempty h entry found

theorem nonempty_unindex (nonempty : ∀ h entry, index.get h = some entry → entry.clients ≠ [])
    (client : Str) (hash : Option Str) {h : Str} {entry : SessionIndex}
    (found : (unindex index client hash).get h = some entry) : entry.clients ≠ [] := by
  cases hash with
  | none => exact nonempty h entry found
  | some emailHash =>
    unfold unindex at found
    dsimp only at found
    split at found
    · exact nonempty h entry found
    split at found
    · rw [Table.get_delete] at found
      split at found
      · cases found
      · exact nonempty h entry found
    next some_ =>
      rw [Table.get_set] at found
      split at found
      · cases found
        exact fun empty => some_ (List.isEmpty_iff.mpr empty)
      · exact nonempty h entry found

theorem emailHashOf_set :
    emailHashOf (sessions.set client session) client' =
      if client' = client then session.emailHash else emailHashOf sessions client' := by
  unfold emailHashOf
  rw [Table.get_set]
  split <;> rfl

theorem emailHashOf_delete :
    emailHashOf (sessions.delete client) client' =
      if client' = client then none else emailHashOf sessions client' := by
  unfold emailHashOf
  rw [Table.get_delete]
  split <;> rfl

namespace IndexExact

/-- The index speaks about the email hashes alone. -/
theorem congr (exact : IndexExact sessions index)
    (same : ∀ client, emailHashOf sessions' client = emailHashOf sessions client) :
    IndexExact sessions' index :=
  ⟨fun emailHash client => by rw [same, exact.exact], exact.nonempty⟩

/-- Writing a session back with the email hash it had. -/
theorem put (exact : IndexExact sessions index)
    (same : session.emailHash = emailHashOf sessions client) :
    IndexExact (sessions.set client session) index := by
  refine exact.congr fun client' => ?_
  rw [emailHashOf_set, same]
  split
  next here => rw [here]
  next => rfl

/-- Storing a session for a client that had no email hash. -/
theorem add (exact : IndexExact sessions index) (free : emailHashOf sessions client = none) :
    IndexExact (sessions.set client session) (enindex index client session.emailHash) := by
  cases hashed : session.emailHash with
  | none => exact exact.put (by rw [hashed, free])
  | some emailHash =>
    refine ⟨fun emailHash' client' => ?_, fun h entry => nonempty_enindex exact.nonempty _ _⟩
    have absent : listed index emailHash client = 0 := by rw [exact.exact, free]; rfl
    rw [listed_enindex absent, emailHashOf_set, hashed, exact.exact]
    by_cases here : client' = client
    · subst here
      simp [free, eq_comm]
    · simp [here]

/-- Deleting a session with its index entry. -/
theorem delete (exact : IndexExact sessions index) (stored : sessions.get client = some session) :
    IndexExact (sessions.delete client) (unindex index client session.emailHash) := by
  have known : emailHashOf sessions client = session.emailHash := by
    rw [emailHashOf, stored, Option.bind_some]
  cases hashed : session.emailHash with
  | none =>
    refine exact.congr fun client' => ?_
    rw [emailHashOf_delete]
    split
    next here => rw [here, known, hashed]
    next => rfl
  | some emailHash =>
    refine ⟨fun emailHash' client' => ?_, fun h entry => nonempty_unindex exact.nonempty _ _⟩
    rw [listed_unindex, exact.exact, emailHashOf_delete]
    by_cases here : client' = client
    · subst here
      simp [known, hashed, eq_comm]
    · simp [here]

end IndexExact

end Tables

/-! ## Steps -/

section Steps

variable {A : Type} {rules : Rules} {R : Nat → Nat → Prop} {job : Job A} {r r' : Registry}

theorem emailHashOf_eq {client : Str} {session : SignerSession}
    (stored : r.sessions.get client = some session) :
    emailHashOf r.sessions client = session.emailHash := by
  rw [emailHashOf, stored, Option.bind_some]

theorem emailHashOf_absent {client : Str} (absent : r.sessions.get client = none) :
    emailHashOf r.sessions client = none := by
  rw [emailHashOf, absent, Option.bind_none]

theorem Registry.deleteSession_exact (exact : IndexExact r.sessions r.index) (client : Str) :
    IndexExact (r.deleteSession client).sessions (r.deleteSession client).index := by
  unfold Registry.deleteSession
  cases stored : r.sessions.get client with
  | none => exact exact
  | some session => exact exact.delete stored

/-- Every step but a cleanup keeps the index exact. -/
theorem Step.index_exact (step : Step rules R job r r') (sound : r.Sound) (exclusive : r.Exclusive)
    (exact : IndexExact r.sessions r.index)
    (swept : job = .cleanup → rules.expires r r' → IndexExact r'.sessions r'.index) :
    IndexExact r'.sessions r'.index := by
  cases step with
  | idle _ => exact exact
  | register unused _ _ _ => exact exact.add (emailHashOf_absent unused.session)
  | setup stored _ unset _ _ =>
    have hash := (sound _ _ stored).hashed
    rw [unset, Option.isSome_none, Option.isSome_eq_false_iff, Option.isNone_iff_eq_none] at hash
    exact exact.add ((emailHashOf_eq stored).trans hash)
  | touch _ stored _ _ => exact exact.put (emailHashOf_eq stored).symm
  | deactivate stored _ => exact exact.put (emailHashOf_eq stored).symm
  | remove => exact Registry.deleteSession_exact exact _
  | loginStart _ _ => exact exact
  | recoveryStart _ _ => exact exact
  | loginDrop => exact exact
  | loginSelect opened _ _ _ _ =>
    exact exact.add (emailHashOf_absent (exclusive.session_none opened))
  | recoverySelect => exact exact
  | cleanup _ _ expired _ => exact swept rfl expired

end Steps

/-! ## Runs of the Rust signer -/

section Runs

variable {Pt : Type} [AddCommGroup Pt] [Module Scalar Pt] [Curve Pt] [Sha2] [Argon2]
variable {options : SignerOptions}

/-- If the event is a cleanup, it finds no session with an email hash that was last used
a month before its second reading of the clock. -/
def ExpiresUnindexed (e : RustEvent) : Prop :=
  e.job = .cleanup → ∀ time ∈ (clockReadings e)[1]?, ∀ client session,
    e.before.sessions.get client = some session →
    session.lastActivity < saturatingSub time monthSecs → session.emailHash = none

omit [Sha2] [Argon2] in
theorem Cleaned.index_exact {s s' : State} {time15m timeMonth : Nat}
    (cleaned : Cleaned anyClock s s' time15m timeMonth)
    (exact : IndexExact s.sessions s.sessionsByEmailHash)
    (unindexed : ∀ client session, s.sessions.get client = some session →
      session.lastActivity < saturatingSub timeMonth monthSecs → session.emailHash = none) :
    IndexExact s'.sessions s'.sessionsByEmailHash := by
  rw [cleaned.index]
  refine exact.congr fun client => ?_
  unfold emailHashOf
  rw [cleaned.sessions]
  cases stored : s.sessions.get client with
  | none => rfl
  | some session =>
    by_cases old : session.lastActivity < saturatingSub timeMonth monthSecs
    · rw [Option.filter_some_neg (by simpa using old), Option.bind_some, Option.bind_none,
        unindexed client session stored old]
    · rw [Option.filter_some_pos (by simpa using old)]

theorem rust_index_exact {events : List RustEvent} {s : State}
    (run : RustRuns Pt options anyClock Opened ExpiresUnindexed events s) :
    IndexExact s.sessions s.sessionsByEmailHash := by
  suffices s.registry.Sound ∧ s.registry.Exclusive ∧ IndexExact s.sessions s.sessionsByEmailHash
    from this.2.2
  refine Runs.invariant (I := fun s => s.registry.Sound ∧ s.registry.Exclusive ∧
    IndexExact s.sessions s.sessionsByEmailHash) ?_ ?_ run
  · rintro s ⟨clock, rfl⟩
    exact ⟨fun _ _ stored => (nomatch stored), opened_exclusive clock, fun _ _ => rfl,
      fun _ _ found => (nomatch found)⟩
  · rintro e happens unindexed ⟨sound, exclusive, exact⟩
    have step := registry_step happens
    refine ⟨step.sound sound, step.exclusive exclusive, ?_⟩
    refine step.index_exact sound exclusive exact fun job _ => ?_
    obtain ⟨time15m, timeMonth, later, cleaned, readings⟩ := cleanup_happens happens job
    exact cleaned.index_exact exact (unindexed job timeMonth (by rw [readings]; rfl))

end Runs

section Sample

attribute [local instance] Sample.sha2 Sample.argon2

/-- A session with an email. -/
def contactRun : List (Job Auth × Nat) :=
  [(Sample.register (Sample.clientKey 7) [1], 1000),
    (Sample.setup (Sample.clientKey 7) Sample.passwordHash, 1001)]

/-- It is swept when it has been idle for a month and a second. -/
theorem cleanup_leaves_index :
    ¬ ∀ events s, RustRuns Scalar Sample.options (· ≤ ·) Opened (fun _ => True) events s →
      IndexExact s.sessions s.sessionsByEmailHash := by
  intro exact
  have run := Sample.play_runs (R := (· ≤ ·)) (contactRun ++ [(.cleanup, 2593002)])
    (by decide +kernel)
  exact absurd ((exact _ _ run).exact Sample.emailHash (Sample.clientKey 7).pubkey)
    (by decide +kernel)

/-- A sweep before that finds nothing. -/
theorem rust_index_exact_contact :
    IndexExact (Sample.next .cleanup 2000 (Sample.play contactRun).2).after.sessions
      (Sample.next .cleanup 2000 (Sample.play contactRun).2).after.sessionsByEmailHash := by
  have contact : RustRuns Scalar Sample.options anyClock Opened ExpiresUnindexed
      (Sample.play contactRun).1 (Sample.play contactRun).2 := by
    refine (Sample.play_runs contactRun (by decide +kernel)).restrict fun e member job => ?_
    have given := Sample.job_of_play member
    rw [job] at given
    exact absurd given (by decide +kernel)
  refine rust_index_exact (.step (Sample.next .cleanup 2000 (Sample.play contactRun).2) contact
    (Event.happens_ofRun (by decide +kernel)) ?_)
  intro _ time second client session _ old
  have reading : time = 2000 := Option.some.inj (second.symm.trans (by decide +kernel))
  rw [reading, saturatingSub_eq] at old
  exact absurd old (Nat.not_lt_zero _)

end Sample

end Pomade.Signer
