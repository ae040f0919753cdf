import Pomade.Signer.Commitments

/-! # Sessions that are written back

A request reads a session, works for a while and writes the whole of it back, and a revocation
that comes in between is lost.  That is the only way in which it can be lost: a session that is
there again, or active again, was stored by a request that creates sessions or by one that had
read it before the revocation.
-/

namespace Pomade.Signer

open Pomade.Lib Pomade.Frost Coll

/-! ## What is stored -/

/-- The key and the session that a call stores. -/
def Op.storesSession : Op → Option (Str × SignerSession)
  | .set .sessions key session => some (key, session)
  | _ => none

def Op.StoresNone (o : Op) : Prop := o.storesSession = none

/-- One session is written back where another was read: it is active only if that was. -/
structure SignerSession.Copies (new old : SignerSession) : Prop where
  share : new.share = old.share
  group : new.group = old.group
  active : new.deactivatedAt = none → old.deactivatedAt = none

/-- The requests that store a session where there was none. -/
def Job.CreatesAt {A : Type} (key : Str) : Job A → Prop
  | .request (some auth) (.body (.register _)) => auth.pubkey = key
  | .request (some auth) (.body (.loginSelect _)) => auth.pubkey = key
  | _ => False

/-- What a job may store when it has made some calls. -/
def HandlesSessions {A : Type} (job : Job A) (o : Op) (seen : List SignerCall) : Prop :=
  ∀ key new, o.storesSession = some (key, new) →
    job.CreatesAt key ∨ ∃ old, ⟨.get .sessions key, some old⟩ ∈ seen ∧ new.Copies old

/-- Nothing but copies of one session is stored, under its key. -/
def Op.WritesBack (client : Str) (old : SignerSession) (o : Op) : Prop :=
  ∀ key new, o.storesSession = some (key, new) → key = client ∧ new.Copies old

theorem Op.Within.storesNone {writes : List Coll} (unwritten : sessions ∉ writes) (o : Op)
    (within : o.Within writes) : o.StoresNone := by
  cases o with
  | set c key value =>
    cases c with
    | sessions => exact absurd within unwritten
    | _ => rfl
  | _ => rfl

theorem Op.writesBack_of_none {client : Str} {old : SignerSession} (o : Op)
    (silent : o.StoresNone) : o.WritesBack client old := by
  intro key new stores
  rw [silent] at stores
  cases stores

theorem Op.writesBack_set {client : Str} {old new : SignerSession} (copies : new.Copies old) :
    (Op.set sessions client new).WritesBack client old := by
  intro key new' stores
  cases stores
  exact ⟨rfl, copies⟩

section Handlers

variable {A : Type} {Pt : Type} [AddCommGroup Pt] [Module Scalar Pt] [Curve Pt]
variable {job : Job A}

/-- A job that stores no session. -/
theorem wp_silent {p : SignerProg Response} (only : p.Only Op.StoresNone) :
    p.wp (World.thread (HandlesSessions job)) (fun _ _ => True) [] := by
  refine Prog.wp_thread_after (fun o seen _ silent key new stores => ?_) only
  rw [silent] at stores
  cases stores

/-- A job that creates sessions, under its own key. -/
theorem wp_creates {p : SignerProg Response} {client : Str} (creates : job.CreatesAt client)
    (only : p.Only fun o => ∀ key new, o.storesSession = some (key, new) → key = client) :
    p.wp (World.thread (HandlesSessions job)) (fun _ _ => True) [] := by
  refine Prog.wp_thread_after (fun o seen _ own key new stores => ?_) only
  rw [own key new stores]
  exact .inl creates

theorem handlesSessions_get (client : Str) (seen : List SignerCall) :
    HandlesSessions job (.get sessions client) seen := by
  intro key new stores
  cases stores

/-- A job that reads a session and writes it back. -/
theorem wp_writesBack {client : Str} {seen : List SignerCall}
    {f : Option SignerSession → SignerProg Response}
    (missing : (f none).Only Op.StoresNone)
    (only : ∀ old, (f (some old)).Only fun o => o.WritesBack client old) :
    (sessions.get client >>= f).wp (World.thread (HandlesSessions job)) (fun _ _ => True) seen := by
  rw [Coll.get, Prog.wp_op_bind]
  refine ⟨handlesSessions_get client seen, fun found seen' step => ?_⟩
  have step : seen' = ⟨.get sessions client, found⟩ :: seen := step
  rw [step]
  cases found with
  | none =>
    refine Prog.wp_thread_after (fun o seen _ silent key new stores => ?_) missing
    rw [silent] at stores
    cases stores
  | some old =>
    refine Prog.wp_thread_after (fun o seen longer writes key new stores => ?_) (only old)
    obtain ⟨same, copies⟩ := writes key new stores
    exact .inr ⟨old, longer.subset (by rw [same]; exact List.mem_cons_self), copies⟩

theorem writesBack_addSession {client : Str} {old new : SignerSession} (copies : new.Copies old) :
    (addSession client new).Only fun o => o.WritesBack client old := by
  unfold addSession
  rw [Coll.set, Prog.only_op_bind]
  refine ⟨Op.writesBack_set copies, fun _ => ?_⟩
  cases new.emailHash with
  | none => trivial
  | some emailHash =>
    exact ⟨Op.writesBack_of_none _ rfl, fun index => ⟨Op.writesBack_of_none _ rfl, fun _ => trivial⟩⟩

theorem writesBack_limiter {client client' : Str} {old : SignerSession} :
    (checkAndRecordRateLimit client').Only fun o => o.WritesBack client old := by
  have listed : rateLimitByClient ∈ [rateLimitByClient] := List.mem_cons_self
  refine (within_checkAndRecordRateLimit listed client').mono fun o within => ?_
  exact Op.writesBack_of_none o (within.storesNone (by decide) o)

theorem handleRecoverySetup_stores [Argon2] {options : SignerOptions} {auth : NostrAuth}
    {data : RecoverySetupRequest} :
    (handleRecoverySetup options auth data).wp (World.thread (HandlesSessions job))
      (fun _ _ => True) [] := by
  unfold handleRecoverySetup
  refine wp_writesBack trivial fun old => ?_
  dsimp only
  split
  · trivial
  rw [Prog.only_op_bind]
  refine ⟨Op.writesBack_of_none _ rfl, fun time => ?_⟩
  split
  · trivial
  split
  · trivial
  split
  · trivial
  split
  swap
  · trivial
  rw [Prog.only_op_bind]
  refine ⟨Op.writesBack_of_none _ rfl, fun lastActivity => ?_⟩
  refine Prog.Only.bind (writesBack_addSession ⟨rfl, rfl, id⟩) fun _ => ?_
  trivial

theorem handleEcdh_stores {auth : NostrAuth} {data : EcdhRequest} :
    (handleEcdh Pt auth data).wp (World.thread (HandlesSessions job)) (fun _ _ => True) [] := by
  unfold handleEcdh
  refine wp_writesBack trivial fun old => ?_
  dsimp only
  split
  · trivial
  refine writesBack_limiter.bind fun admitted => ?_
  split
  · trivial
  split
  · trivial
  refine (only_ofResult _).bind fun result => ?_
  cases result with
  | error e => trivial
  | ok result =>
    refine ⟨Op.writesBack_of_none _ rfl, fun lastActivity => ?_⟩
    exact ⟨Op.writesBack_set ⟨rfl, rfl, id⟩, fun _ => trivial⟩

theorem handleSignComplete_stores [Sha2] {auth : NostrAuth} {data : SignCompleteRequest} :
    (handleSignComplete Pt auth data).wp (World.thread (HandlesSessions job)) (fun _ _ => True)
      [] := by
  unfold handleSignComplete
  refine wp_writesBack trivial fun old => ?_
  dsimp only
  split
  · trivial
  refine writesBack_limiter.bind fun admitted => ?_
  split
  · trivial
  rw [takeCommit, Prog.only_op_bind]
  refine ⟨Op.writesBack_of_none _ rfl, fun taken => ?_⟩
  cases taken with
  | none => trivial
  | some entry =>
    dsimp only
    split
    · trivial
    split
    · trivial
    refine (only_ofResult _).bind fun own => ?_
    split
    · split
      · trivial
      refine ⟨Op.writesBack_of_none _ rfl, fun outcome => (only_ofResult _).bind fun result => ?_⟩
      cases result with
      | error e => trivial
      | ok result =>
        refine ⟨Op.writesBack_of_none _ rfl, fun lastActivity => ?_⟩
        exact ⟨Op.writesBack_set ⟨rfl, rfl, id⟩, fun _ => trivial⟩
    · trivial

/-- A deactivation reads the session once more before it writes it back. -/
theorem handleSessionDeactivate_stores {auth : NostrAuth} {data : SelectRequest} :
    (handleSessionDeactivate auth data).wp (World.thread (HandlesSessions job)) (fun _ _ => True)
      [] := by
  unfold handleSessionDeactivate
  rw [Coll.get, Prog.wp_op_bind]
  refine ⟨handlesSessions_get data.client [], fun found seen step => ?_⟩
  cases found with
  | none => trivial
  | some session =>
    dsimp only
    split
    · unfold deactivateSession
      rw [Prog.bind_assoc]
      refine wp_writesBack trivial fun old => ?_
      refine ⟨Op.writesBack_of_none _ rfl, fun time => ⟨Op.writesBack_set ⟨rfl, rfl, ?_⟩, fun _ => trivial⟩⟩
      intro active
      cases active
    · trivial

theorem storesNone_deleteSession (client : Str) :
    (deleteSession client).Only Op.StoresNone := by
  have removed : ∀ emailHash, (removeFromIndex client emailHash).Only Op.StoresNone :=
    fun emailHash => (within_removeFromIndex List.mem_cons_self client emailHash).mono
      fun o within => Op.Within.storesNone (by simp : sessions ∉ [sessionsByEmailHash]) o within
  unfold deleteSession
  rw [Coll.get, Prog.only_op_bind]
  refine ⟨rfl, fun session => ?_⟩
  cases session with
  | none => trivial
  | some session =>
    dsimp only
    split
    · exact (removed _).bind fun _ => ⟨rfl, fun _ => trivial⟩
    · exact ⟨rfl, fun _ => trivial⟩

theorem handleSessionDelete_stores (auth : NostrAuth) (data : SelectRequest) :
    (handleSessionDelete auth data).Only Op.StoresNone := by
  unfold handleSessionDelete
  rw [Coll.get, Prog.only_op_bind]
  refine ⟨rfl, fun session => ?_⟩
  cases session with
  | none => trivial
  | some session =>
    dsimp only
    split
    · exact (storesNone_deleteSession _).bind fun _ => trivial
    · trivial

theorem creates_addSession {client : Str} {session : SignerSession} :
    (addSession client session).Only
      fun o => ∀ key new, o.storesSession = some (key, new) → key = client := by
  have own : session.Copies session := ⟨rfl, rfl, id⟩
  refine (writesBack_addSession own).mono ?_
  intro o writes key new stores
  exact (writes key new stores).1

theorem handleLoginSelect_stores {auth : NostrAuth} {data : SelectRequest} :
    (handleLoginSelect auth data).Only
      fun o => ∀ key new, o.storesSession = some (key, new) → key = auth.pubkey := by
  have silent : ∀ {o : Op}, o.storesSession = none →
      ∀ key new, o.storesSession = some (key, new) → key = auth.pubkey := by
    intro o none_ key new stores
    rw [none_] at stores
    cases stores
  unfold handleLoginSelect
  dsimp only
  rw [Coll.get, Prog.only_op_bind]
  refine ⟨silent rfl, fun login => ?_⟩
  cases login with
  | none => trivial
  | some login =>
    dsimp only
    rw [Coll.delete, Prog.only_op_bind]
    refine ⟨silent rfl, fun _ => ?_⟩
    split
    · trivial
    rw [Coll.get, Prog.only_op_bind]
    refine ⟨silent rfl, fun session => ?_⟩
    cases session with
    | none => trivial
    | some session =>
      dsimp only
      rw [now, Prog.only_op_bind]
      refine ⟨silent rfl, fun createdAt => ?_⟩
      rw [Prog.only_op_bind]
      refine ⟨silent rfl, fun lastActivity => ?_⟩
      refine Prog.Only.bind creates_addSession fun _ => ?_
      trivial

theorem handleRegister_stores {options : SignerOptions} {auth : NostrAuth} {data : RegisterRequest} :
    (handleRegister Pt options auth data).Only
      fun o => ∀ key new, o.storesSession = some (key, new) → key = auth.pubkey := by
  have silent : ∀ {o : Op}, o.storesSession = none →
      ∀ key new, o.storesSession = some (key, new) → key = auth.pubkey := by
    intro o none_ key new stores
    rw [none_] at stores
    cases stores
  unfold handleRegister
  refine (only_checkKeyReuse (fun _ => silent rfl) (fun _ => silent rfl) (fun _ => silent rfl) _).bind
    fun reused => ?_
  dsimp only
  split
  · trivial
  split
  · trivial
  split
  · trivial
  refine (only_ofResult _).bind fun member => ?_
  split
  · split
    · trivial
    split
    · trivial
    rw [Coll.get, Prog.only_op_bind]
    refine ⟨silent rfl, fun session => ?_⟩
    split
    · trivial
    rw [now, Prog.only_op_bind]
    refine ⟨silent rfl, fun createdAt => ?_⟩
    rw [Prog.only_op_bind]
    refine ⟨silent rfl, fun lastActivity => ?_⟩
    refine Prog.Only.bind creates_addSession fun _ => ?_
    trivial
  · trivial

variable [Sha2] [Argon2] {options : SignerOptions}

theorem dispatch_stores (auth : NostrAuth) (body : Body Auth) :
    (dispatch Pt options auth body).wp
      (World.thread (HandlesSessions (.request (some auth) (.body body)))) (fun _ _ => True) [] := by
  have within : ∀ {writes : List Coll} {program : SignerProg Response},
      program.Only (Op.Within writes) → sessions ∉ writes →
        program.wp (World.thread (HandlesSessions (.request (some auth) (.body body))))
          (fun _ _ => True) [] :=
    fun only unwritten => wp_silent (only.mono (Op.Within.storesNone unwritten))
  cases body with
  | challenge data => exact within (within_handleChallenge data) (by decide)
  | ecdh data => exact handleEcdh_stores
  | loginSelect data => exact wp_creates rfl handleLoginSelect_stores
  | loginStart data =>
    refine wp_silent ?_
    unfold dispatch handleLoginStart
    refine only_startWith (P := Op.StoresNone) rfl (fun _ _ => rfl) (fun _ => rfl) (fun _ _ => rfl)
      ?_ auth data
    intro client createdAt clients
    exact ⟨rfl, fun _ => trivial⟩
  | recoverySelect data => exact within (within_handleRecoverySelect auth data) (by decide)
  | recoverySetup data => exact handleRecoverySetup_stores
  | recoveryStart data =>
    refine wp_silent ?_
    unfold dispatch handleRecoveryStart
    refine only_startWith (P := Op.StoresNone) rfl (fun _ _ => rfl) (fun _ => rfl) (fun _ _ => rfl)
      ?_ auth data
    intro client createdAt clients
    exact ⟨rfl, fun _ => trivial⟩
  | register data => exact wp_creates rfl handleRegister_stores
  | sessionDeactivate data => exact handleSessionDeactivate_stores
  | sessionDelete data => exact wp_silent (handleSessionDelete_stores auth data)
  | sessionList => exact within (within_handleSessionList auth) (by decide)
  | signCommit data => exact within (within_handleSignCommit auth data) (by decide)
  | signComplete data => exact handleSignComplete_stores

/-- What every job stores. -/
theorem handle_stores (options : SignerOptions) (job : Job Auth) :
    (handle Pt options job).wp (World.thread (HandlesSessions job)) (fun _ _ => True) [] := by
  cases job with
  | request auth route =>
    cases auth with
    | none => trivial
    | some auth =>
      cases route with
      | unknown => trivial
      | malformed => trivial
      | body body =>
        unfold handle
        dsimp only
        split
        · exact dispatch_stores auth body
        · trivial
  | cleanup =>
    refine wp_silent (Prog.Only.bind ?_ fun _ => trivial)
    exact only_cleanup (fun _ => rfl) rfl (fun _ _ _ => rfl) fun _ => rfl

end Handlers

/-! ## Requests at the same time -/

/-- What a revocation puts an end to. -/
inductive Standing where
  | stored
  | active

def Standing.Holds (session : SignerSession) : Standing → Prop
  | .stored => True
  | .active => session.deactivatedAt = none

/-- After the call, the key has no session of the standing. -/
def Standing.RevokedBy (standing : Standing) (key : Str) (o : Op) : Prop :=
  o = .delete .sessions key ∨ ∃ session, o = .set .sessions key session ∧ ¬ standing.Holds session

/-- The key has a session of the standing. -/
def Standing.At (standing : Standing) (key : Str) (s : State) : Prop :=
  ∃ session, s.sessions.get key = some session ∧ standing.Holds session

section Steps

variable {signing : SigningFn} {R : Nat → Nat → Prop} {s s' : State} {o : Op} {answer : Ans o}
variable {standing : Standing} {key : Str}

theorem SignerSession.Copies.holds {new old : SignerSession} (copies : new.Copies old)
    (holds : standing.Holds new) : standing.Holds old := by
  cases standing with
  | stored => trivial
  | active => exact copies.active holds

theorem Standing.RevokedBy.revokes (revoked : standing.RevokedBy key o)
    (step : (world signing R).step o s answer s') : ¬ standing.At key s' := by
  intro at_
  obtain ⟨session, stored, holds⟩ := at_
  cases revoked with
  | inl deletes =>
    subst deletes
    obtain ⟨_, same⟩ := step_delete.mp step
    subst same
    have gone : (s.setTable sessions ((s.table sessions).delete key)).sessions.get key = none :=
      Table.get_delete_self _ _
    rw [gone] at stored
    cases stored
  | inr sets =>
    obtain ⟨session', sets, fails⟩ := sets
    subst sets
    obtain ⟨_, same⟩ := step_set.mp step
    subst same
    have new : (s.setTable sessions ((s.table sessions).set key session')).sessions.get key =
        some session' := Table.get_set_self ..
    rw [new] at stored
    cases stored
    exact fails holds

/-- A standing comes from a call that stores such a session. -/
theorem Standing.of_step (step : (world signing R).step o s answer s') (at_ : standing.At key s') :
    standing.At key s ∨ ∃ session, o = .set .sessions key session ∧ standing.Holds session := by
  by_cases deletes : o = .delete .sessions key
  · exact absurd at_ (Standing.RevokedBy.revokes (.inl deletes) step)
  by_cases sets : ∃ session, o = .set .sessions key session
  · obtain ⟨session, sets⟩ := sets
    by_cases holds : standing.Holds session
    · exact .inr ⟨session, sets, holds⟩
    · exact absurd at_ (Standing.RevokedBy.revokes (.inr ⟨session, sets, holds⟩) step)
  · obtain ⟨session, stored, holds⟩ := at_
    have kept : s'.sessions.get key = s.sessions.get key :=
      get_of_step (c := sessions) (fun session sets' => sets ⟨session, sets'⟩) deletes step
    exact .inl ⟨session, kept ▸ stored, holds⟩

end Steps

section Pools

variable {Pt : Type} [AddCommGroup Pt] [Module Scalar Pt] [Curve Pt] [Sha2] [Argon2]
variable {options : SignerOptions} {R : Nat → Nat → Prop}
variable {ok : SignerPool Auth → SignerAction Auth → Prop} {p : SignerPool Auth}
variable {standing : Standing} {key : Str}

theorem stores_of_entry (reach : RustPool Pt options R ok p) {newer older : List (SignerEntry Auth)}
    {x : SignerEntry Auth} (split : p.history = newer ++ x :: older) :
    HandlesSessions x.job x.call.op (Pool.callsOf x.tid older) := by
  obtain ⟨thread, found, job⟩ := reach.coherent.job x (by simp [split])
  have chain := (reach.local (fun job => handle_stores options job) thread
    (List.mem_of_getElem? found)).2
  rw [reach.coherent.seen _ _ found, job, split, Pool.callsOf_append, Pool.callsOf_cons_self] at chain
  exact chain.of_append

/-- A write that brings a standing back: it creates the session, or it writes back what its request
had read of a session in that standing before the revocation. -/
def Revives (standing : Standing) (key : Str) (older : List (SignerEntry Auth))
    (y : SignerEntry Auth) : Prop :=
  ∃ new, y.call.op = .set .sessions key new ∧ standing.Holds new ∧
    (y.job.CreatesAt key ∨ ∃ z ∈ older, z.tid = y.tid ∧
      ∃ old, z.call = ⟨.get .sessions key, some old⟩ ∧ standing.Holds old ∧ new.Copies old)

/-- A standing that is there after a revocation was brought back by a write. -/
theorem stores_since (reach : RustPool Pt options R ok p) {newer older : List (SignerEntry Auth)}
    {d : SignerEntry Auth} (split : p.history = newer ++ d :: older)
    (revoked : standing.RevokedBy key d.call.op) (at_ : standing.At key p.state) :
    ∃ y ∈ newer, ∃ new, y.call.op = .set .sessions key new ∧ standing.Holds new := by
  by_contra missing
  simp only [not_exists, not_and] at missing
  refine absurd at_ (reach.since (I := fun s => ¬ standing.At key s) split ?_ ?_ ?_)
  · exact fun s' step => revoked.revokes step
  · intro x member s s' gone step now
    cases Standing.of_step step now with
    | inl before => exact gone before
    | inr sets =>
      obtain ⟨new, sets, holds⟩ := sets
      exact missing x member new sets holds
  · intro s s' passes gone now
    obtain ⟨time, _, same⟩ := passes
    subst same
    exact gone now

/-- A revocation is lost only to a request that was under way.  Whenever a key has a session again
after its session was deleted, or an active one after it was deactivated, a write since then has
stored it: a request that creates sessions, or one that had read the session before the revocation
and has written its copy back. -/
theorem revived_by_stale_write (reach : RustPool Pt options R ok p)
    {newer older : List (SignerEntry Auth)} {d : SignerEntry Auth}
    (split : p.history = newer ++ d :: older) (revoked : standing.RevokedBy key d.call.op)
    (at_ : standing.At key p.state) : ∃ y ∈ newer, Revives standing key older y := by
  -- The induction is on how much has happened since: where the copy that was written back was read
  -- after the revocation, the standing was back by then.
  induction length : newer.length using Nat.strong_induction_on generalizing p newer with
  | _ n ih =>
    obtain ⟨y, member, new, sets, holds⟩ := stores_since reach split revoked at_
    obtain ⟨later, between, here⟩ := List.append_of_mem member
    have place : p.history = later ++ y :: (between ++ d :: older) := by
      rw [split, here, List.append_assoc, List.cons_append]
    have stores := stores_of_entry reach place key new (by rw [sets]; rfl)
    cases stores with
    | inl creates => exact ⟨y, member, new, sets, holds, .inl creates⟩
    | inr copied =>
      obtain ⟨old, read, copies⟩ := copied
      obtain ⟨z, listed, own, call⟩ := Pool.mem_callsOf.mp read
      have before : standing.Holds old := copies.holds holds
      cases List.mem_append.mp listed with
      | inr earlier =>
        cases List.mem_cons.mp earlier with
        | inr before' =>
          exact ⟨y, member, new, sets, holds, .inr ⟨z, before', own, old, call, before, copies⟩⟩
        | inl revocation =>
          subst revocation
          rw [call] at revoked
          cases revoked with
          | inl deletes => cases deletes
          | inr sets' =>
            obtain ⟨_, sets', _⟩ := sets'
            cases sets'
      | inl since =>
        obtain ⟨later', between', here'⟩ := List.append_of_mem since
        have place' : p.history = (later ++ y :: later') ++ z :: (between' ++ d :: older) := by
          rw [place, here']
          simp
        obtain ⟨p', reach', state, history, _, s', step⟩ := reach.at_entry place'
        have found : standing.At key p'.state := by
          rw [call] at step
          obtain ⟨answer, _⟩ := step_get.mp step
          rw [state]
          exact ⟨old, answer.symm, before⟩
        have shorter : between'.length < n := by
          rw [← length, here, here']
          simp
          omega
        obtain ⟨y', member', revives⟩ := ih _ shorter reach' history found rfl
        refine ⟨y', ?_, revives⟩
        rw [here, here']
        simp [member']

end Pools

theorem Op.set_of_storesSession {o : Op} {key : Str} {session : SignerSession}
    (stores : o.storesSession = some (key, session)) : o = .set .sessions key session := by
  unfold Op.storesSession at stores
  split at stores
  · cases stores
    rfl
  · cases stores

namespace Sample

/-- A client sets up its recovery method; between its reading and its writing of the session, the
session is deactivated. -/
def overtaken : List (Pool.Choice (Job Auth) Nat Env) :=
  alone 0 (register (clientKey 7) [1]) 1000 ++
    [.spawn (setup (clientKey 7) passwordHash)] ++ calls 1 1 1001 ++
    alone 2 (deactivate (clientKey 7)) 1002 ++ calls 1 40 1003

end Sample

theorem revived_by_stale_write_setup :
    let _ := Sample.sha2
    let _ := Sample.argon2
    ∃ newer d older, (Sample.playPool Sample.overtaken).history = newer ++ d :: older ∧
      Standing.active.RevokedBy (Sample.clientKey 7).pubkey d.call.op ∧
      ∃ y ∈ newer, Revives .active (Sample.clientKey 7).pubkey older y := by
  intro _ _
  have reach : RustPool Scalar Sample.options (· ≤ ·) (fun _ _ => True)
      (Sample.playPool Sample.overtaken) := Sample.playPool_reach _ (by decide +kernel)
  have deactivated : ((Sample.playPool Sample.overtaken).history.any fun e =>
      e.call.op.storesSession.any fun stored =>
        stored.1 == (Sample.clientKey 7).pubkey && stored.2.deactivatedAt.isSome) = true := by
    decide +kernel
  have active : ((Sample.playPool Sample.overtaken).state.sessions.get
      (Sample.clientKey 7).pubkey).map (·.deactivatedAt) = some none := by decide +kernel
  obtain ⟨d, member, deactivates⟩ := List.any_eq_true.mp deactivated
  obtain ⟨newer, older, split⟩ := List.append_of_mem member
  obtain ⟨stored, stores, written⟩ := (Option.any_eq_true _ _).mp deactivates
  obtain ⟨key, session⟩ := stored
  simp only [Bool.and_eq_true, beq_iff_eq] at written
  obtain ⟨same, isDeactivated⟩ := written
  subst same
  have revoked : Standing.active.RevokedBy (Sample.clientKey 7).pubkey d.call.op := by
    refine .inr ⟨session, Op.set_of_storesSession stores, fun isActive => ?_⟩
    rw [show session.deactivatedAt = none from isActive] at isDeactivated
    cases isDeactivated
  have back : Standing.active.At (Sample.clientKey 7).pubkey (Sample.playPool Sample.overtaken).state := by
    obtain ⟨session, stored, isActive⟩ := Option.map_eq_some_iff.mp active
    exact ⟨session, stored, isActive⟩
  exact ⟨newer, d, older, split, revoked, revived_by_stale_write reach split revoked back⟩

end Pomade.Signer
