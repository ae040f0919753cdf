import Pomade.Go.Footprint
import Pomade.Signer.Cleanup

/-! # The Go handlers refine the registry

The Go signer takes the same steps as the Rust one, with two differences: registration
also refuses the user's own key, as it is spelled, and a cleanup deletes a session
together with its index entry.
-/

namespace Pomade.Go

open Pomade.Lib Pomade.Frost Pomade.Signer Pomade.Signer.Coll

/-! ## Rules -/

/-- What the Go registration has checked when it stores a session. -/
structure GoAccepts [FrostTaproot] (options : SignerOptions) (auth : NostrAuth)
    (data : RegisterRequest) : Prop where
  distinct : userKeyOf data.group ≠ some auth.pubkey
  worked : options.registerPow ≤ getPow auth.eventId
  positive : data.group.threshold.toNat ≠ 0
  enough : data.group.threshold.toNat ≤ data.group.commits.length
  member : isGroupMember data.group data.share = true
  nodup : (data.group.commits.map (·.idx)).Nodup
  indexed : data.share.idx ∈ data.group.commits.map (·.idx)

/-- A Go cleanup deletes sessions one after the other. -/
def GoExpires (r r' : Registry) : Prop :=
  ∃ clients : List Str,
    r'.sessions = (clients.foldl Registry.deleteSession r).sessions ∧
      r'.index = (clients.foldl Registry.deleteSession r).index

theorem foldl_deleteSession_shrinks (clients : List Str) (r : Registry) :
    Shrinks r.sessions (clients.foldl Registry.deleteSession r).sessions := by
  induction clients generalizing r with
  | nil => exact .refl _
  | cons client clients ih => exact (r.deleteSession_shrinks client).trans (ih _)

theorem deleteSession_congr {r₁ r₂ : Registry} (sessions : r₁.sessions = r₂.sessions)
    (index : r₁.index = r₂.index) (client : Str) :
    (r₁.deleteSession client).sessions = (r₂.deleteSession client).sessions ∧
      (r₁.deleteSession client).index = (r₂.deleteSession client).index := by
  unfold Registry.deleteSession
  rw [sessions]
  cases r₂.sessions.get client with
  | none => exact ⟨sessions, index⟩
  | some session =>
    dsimp only
    rw [index]
    exact ⟨rfl, rfl⟩

/-- Deleting sessions only looks at the sessions and their index. -/
theorem foldl_deleteSession_congr (clients : List Str) {r₁ r₂ : Registry}
    (sessions : r₁.sessions = r₂.sessions) (index : r₁.index = r₂.index) :
    (clients.foldl Registry.deleteSession r₁).sessions =
        (clients.foldl Registry.deleteSession r₂).sessions ∧
      (clients.foldl Registry.deleteSession r₁).index =
        (clients.foldl Registry.deleteSession r₂).index := by
  induction clients generalizing r₁ r₂ with
  | nil => exact ⟨sessions, index⟩
  | cons client clients ih =>
    obtain ⟨sessions', index'⟩ := deleteSession_congr sessions index client
    exact ih sessions' index'

theorem GoExpires.of_same {r r' : Registry} (sessions : r'.sessions = r.sessions)
    (index : r'.index = r.index) : GoExpires r r' :=
  ⟨[], sessions, index⟩

theorem GoExpires.trans {r r' r'' : Registry} (first : GoExpires r r') (second : GoExpires r' r'') :
    GoExpires r r'' := by
  obtain ⟨clients, sessions, index⟩ := first
  obtain ⟨clients', sessions', index'⟩ := second
  obtain ⟨sameSessions, sameIndex⟩ := foldl_deleteSession_congr clients' sessions index
  refine ⟨clients ++ clients', ?_, ?_⟩
  · rw [List.foldl_append, sessions', sameSessions]
  · rw [List.foldl_append, index', sameIndex]

def goRules [FrostTaproot] (options : SignerOptions) : Rules where
  accepts := GoAccepts options
  expires := GoExpires
  expires_shrinks := by
    rintro r r' ⟨clients, sessions, _⟩
    rw [sessions]
    exact foldl_deleteSession_shrinks clients r

/-! ## Calls outside the registry -/

section Only

/-- A footprint outside the registry. -/
theorem leaves_of_within {writes : List Coll} (outside : ∀ c ∈ writes, ¬ c.Registered) (o : Op)
    (within : o.Within writes) : o.LeavesRegistry := by
  cases o with
  | set c key value => exact outside c within
  | delete c key => exact outside c within
  | _ => trivial

/-- The collections that rate limits and challenges write. -/
theorem limits_outside :
    ∀ c ∈ [rateLimitByClient, rateLimitByEmailHash, challenges], ¬ c.Registered := by
  intro c member
  simp only [List.mem_cons, List.not_mem_nil, or_false] at member
  rcases member with rfl | rfl | rfl <;> exact id

theorem only_checkAndRecordRateLimit (client : Str) :
    (checkAndRecordRateLimit client).Only Op.LeavesRegistry :=
  (within_checkAndRecordRateLimit (by decide) client).mono (leaves_of_within limits_outside)

theorem only_evaluateAuth (auth : AuthPayload) (index : SessionIndex) :
    (evaluateAuth auth index).Only Op.LeavesRegistry := by
  unfold evaluateAuth
  split
  · exact (within_passwordSessions _ _).mono (leaves_of_within limits_outside)
  split
  · rw [Prog.only_op_bind]
    refine ⟨trivial, fun challenge => ?_⟩
    cases challenge with
    | none => trivial
    | some challenge =>
      refine ⟨id, fun _ => ?_⟩
      split
      · exact (within_clientSessions _).mono (leaves_of_within limits_outside)
      · trivial
  · trivial

theorem only_getAuthenticatedSessions (auth : AuthPayload) :
    (getAuthenticatedSessions auth).Only Op.LeavesRegistry := by
  have recorded : ∀ (bucket : Option RateLimitBucket) (found : List SignerSession),
      (do
        let attempt ← recordAttempt bucket emailRateLimits
        rateLimitByEmailHash.set auth.emailHash attempt
        return found : SignerProg (List SignerSession)).Only Op.LeavesRegistry :=
    fun bucket found => ⟨trivial, fun _ => ⟨id, fun _ => trivial⟩⟩
  unfold getAuthenticatedSessions
  split
  · trivial
  rw [Prog.only_op_bind]
  refine ⟨trivial, fun bucket => ?_⟩
  refine ((within_isRateLimited bucket _).mono (leaves_of_within limits_outside)).bind ?_
  intro limited
  split
  · trivial
  rw [Prog.only_op_bind]
  refine ⟨trivial, fun index => ?_⟩
  cases index with
  | none => exact recorded bucket []
  | some index =>
    refine (only_evaluateAuth auth index).bind fun items => ?_
    split
    · exact recorded bucket items
    · trivial

theorem only_handleChallenge (options : SignerOptions) (data : ChallengeRequest) :
    (handleChallenge options data).Only Op.LeavesRegistry := by
  refine (within_handleChallenge data).mono (leaves_of_within ?_)
  intro c member
  simp only [List.mem_cons, List.not_mem_nil, or_false] at member
  rcases member with rfl | rfl <;> exact id

end Only

/-! ## Handlers -/

section Handlers

variable [FrostTaproot] {options : SignerOptions} {R : Nat → Nat → Prop} [IsPreorder Nat R]
variable {s : State} {calls : List SignerCall} {signing : SigningFn} {A : Type} {rules : Rules}
variable {α : Type}

omit [FrostTaproot] in
/-- A stretch outside the registry, then the rest. -/
theorem wp_quiet_then {Q : Option Response → State × List SignerCall → Prop}
    {first : SignerProg α} {rest : α → SignerProg Response}
    (only : first.Only Op.LeavesRegistry)
    (next : ∀ value s₁ calls₁, Quiet R s s₁ →
      Prog.wp (traced signing R) (rest value) Q (s₁, calls₁))
    (stop : ∀ s₁ calls₁, Quiet R s s₁ → Q none (s₁, calls₁)) :
    Prog.wp (traced signing R) (first >>= rest) Q (s, calls) := by
  refine Prog.wp_seq (quiet_of_only only _) ?_ ?_
  · rintro value ⟨s₁, calls₁⟩ quiet
    exact next value s₁ calls₁ quiet
  · rintro ⟨s₁, calls₁⟩ quiet
    exact stop s₁ calls₁ quiet

theorem handleRegister_refines {auth : NostrAuth} {data : RegisterRequest} :
    Prog.wp (traced signing R) (handleRegister options auth data)
      (Refines (goRules options) R
        (.request (some auth) (.body (.register data)) : Job A) s) (s, calls) := by
  have idle : Step (goRules options) R (.request (some auth) (.body (.register data)) : Job A)
      s.registry s.registry := (Quiet.refl s).step
  unfold handleRegister
  dsimp only
  refine Prog.wp_then checkKeyReuse_spec ?_
  rintro reused ⟨s₁, calls₁⟩ ⟨rfl, unused⟩
  split
  · exact idle
  next fresh =>
  split
  · exact idle
  next distinct =>
  split
  · exact idle
  next worked =>
  split
  · exact idle
  next threshold =>
  split
  · exact idle
  next member =>
  split
  · exact idle
  next nodup =>
  split
  · exact idle
  next indexed =>
  rw [wp_get]
  split
  · exact idle
  rw [wp_now]
  intro t₁ first
  rw [wp_now]
  intro t₂ second
  refine Prog.wp_unit addSession_spec ?_
  rintro ⟨s₂, calls₂⟩ stored
  have accepted : (goRules options).accepts auth data :=
    ⟨distinct, not_lt.mp worked, by omega, by omega, by simpa using member, not_not.mp nodup,
      not_not.mp indexed⟩
  have unused := unused (by simpa using fresh)
  exact (Step.register unused accepted first second).of_eq stored

omit [FrostTaproot] in
theorem handleRecoverySetup_refines [Argon2] {auth : NostrAuth} {data : RecoverySetupRequest} :
    Prog.wp (traced signing R) (handleRecoverySetup options auth data)
      (Refines rules R (.request (some auth) (.body (.recoverySetup data)) : Job A) s)
      (s, calls) := by
  have idle : Step rules R (.request (some auth) (.body (.recoverySetup data)) : Job A)
      s.registry s.registry := (Quiet.refl s).step
  unfold handleRecoverySetup
  dsimp only
  rw [wp_get]
  cases stored : (s.table sessions).get auth.pubkey with
  | none => exact idle
  | some session =>
    dsimp only
    split
    · exact idle
    next recovery =>
      rw [wp_now]
      intro t₁ first
      split
      · exact .idle first
      split
      · exact .idle first
      next unset =>
        split
        · exact .idle first
        rw [wp_now]
        intro t₂ second
        refine Prog.wp_unit addSession_spec ?_
        rintro ⟨s₂, calls₂⟩ same
        exact (Step.setup stored (by simpa using recovery)
          (Option.not_isSome_iff_eq_none.mp unset) first second).of_eq same

omit [FrostTaproot] in
theorem startWith_refines {record : Str → Nat → List Str → SignerProg Unit} {success : String}
    {auth : NostrAuth} {data : StartRequest AuthPayload} {job : Job A}
    (recorded : ∀ (s₁ : State) calls₁ createdAt clients,
      Prog.wp (traced signing R) (record auth.pubkey createdAt clients)
        (fun r p => r = some () ∧ ∀ r₀ : Registry, r₀.Unused auth.pubkey →
          s₁.registry = { r₀ with clock := createdAt } → R r₀.clock createdAt →
          Step rules R job r₀ p.1.registry)
        (s₁, calls₁)) :
    Prog.wp (traced signing R) (startWith record success auth data) (Refines rules R job s)
      (s, calls) := by
  unfold startWith
  dsimp only
  refine Prog.wp_then checkKeyReuse_spec ?_
  rintro reused ⟨s₁, calls₁⟩ ⟨rfl, unused⟩
  split
  · exact (Quiet.refl s₁).step
  next fresh =>
    refine wp_quiet_then (only_getAuthenticatedSessions _) ?_ fun _ _ quiet => quiet.step
    intro found s₂ calls₂ quiet
    split
    · exact quiet.step
    rw [wp_now]
    intro createdAt later
    have quiet' : Quiet R s₁ { s₂ with clock := createdAt } :=
      quiet.trans ⟨rfl, rfl, rfl, rfl, later⟩
    refine Prog.wp_unit (recorded _ _ _ _) ?_
    rintro ⟨s₃, calls₃⟩ step
    exact step s₁.registry (unused (by simpa using fresh)) quiet'.registry quiet'.later

omit [FrostTaproot] in
theorem handleLoginStart_refines {auth : NostrAuth} {data : StartRequest AuthPayload} :
    Prog.wp (traced signing R) (handleLoginStart auth data)
      (Refines rules R (.request (some auth) (.body (.loginStart data))) s) (s, calls) := by
  refine startWith_refines ?_
  intro s₁ calls₁ createdAt clients
  rw [Coll.set, Prog.op_eq, wp_set]
  refine ⟨rfl, fun r₀ unused same later => ?_⟩
  have logins : s₁.logins = r₀.logins := congrArg Registry.logins same
  refine (@Step.loginStart _ _ _ _ _ _ clients _ unused later).of_eq ?_
  rw [← logins]
  exact congrArg (fun r : Registry =>
    { r with logins := s₁.logins.set auth.pubkey { createdAt, clients } }) same

omit [FrostTaproot] in
theorem handleRecoveryStart_refines {auth : NostrAuth} {data : StartRequest AuthPayload} :
    Prog.wp (traced signing R) (handleRecoveryStart auth data)
      (Refines rules R (.request (some auth) (.body (.recoveryStart data))) s) (s, calls) := by
  refine startWith_refines ?_
  intro s₁ calls₁ createdAt clients
  rw [Coll.set, Prog.op_eq, wp_set]
  refine ⟨rfl, fun r₀ unused same later => ?_⟩
  have recoveries : s₁.recoveries = r₀.recoveries := congrArg Registry.recoveries same
  refine (@Step.recoveryStart _ _ _ _ _ _ clients _ unused later).of_eq ?_
  rw [← recoveries]
  exact congrArg (fun r : Registry =>
    { r with recoveries := s₁.recoveries.set auth.pubkey { createdAt, clients } }) same

omit [FrostTaproot] in
theorem handleRecoverySelect_refines {auth : NostrAuth} {data : SelectRequest} :
    Prog.wp (traced signing R) (handleRecoverySelect auth data)
      (Refines rules R (.request (some auth) (.body (.recoverySelect data)) : Job A) s)
      (s, calls) := Signer.handleRecoverySelect_refines

omit [FrostTaproot] in
theorem handleLoginSelect_refines {auth : NostrAuth} {data : SelectRequest} :
    Prog.wp (traced signing R) (handleLoginSelect auth data)
      (Refines rules R (.request (some auth) (.body (.loginSelect data)) : Job A) s)
      (s, calls) := Signer.handleLoginSelect_refines

variable [Sha2]

omit [Sha2] in
theorem handleSignCommit_refines {auth : NostrAuth} {data : SignCommitRequest} :
    Prog.wp (traced signing R) (handleSignCommit auth data)
      (Refines rules R (.request (some auth) (.body (.signCommit data)) : Job A) s)
      (s, calls) := by
  unfold handleSignCommit
  dsimp only
  rw [wp_get]
  cases stored : (s.table sessions).get auth.pubkey with
  | none => exact (Quiet.refl s).step
  | some session =>
    dsimp only
    split
    · exact (Quiet.refl s).step
    next active =>
      refine wp_quiet_then (only_checkAndRecordRateLimit _) ?_ fun _ _ quiet => quiet.step
      intro admitted s₁ calls₁ quiet
      split
      · exact quiet.step
      split
      · exact quiet.step
      split
      · exact quiet.step
      cases decodeHex32 session.share.seckey with
      | none => exact quiet.step
      | some seckey =>
        dsimp only
        rw [wp_randomBytes32]
        intro binderSeed
        rw [wp_randomBytes32]
        intro hiddenSeed
        rw [wp_now]
        intro createdAt later
        refine Prog.wp_then randomCommitId_spec ?_
        rintro commitId ⟨s₂, calls₂⟩ same
        obtain rfl : s₂ = _ := same
        rw [wp_pushCommit, wp_now]
        intro t latest
        rw [wp_set]
        have pushes : Quiet R s₁ { s₁ with
            commitsByClient := s₁.commitsByClient.set auth.pubkey (s₁.pending auth.pubkey ++
              [{ commitId, members := data.members,
                 secret := (createCommitPkg { idx := session.share.idx, seckey } binderSeed
                  hiddenSeed).secretNonce, createdAt }])
            clock := createdAt } := ⟨rfl, rfl, rfl, rfl, later⟩
        exact (quiet.trans pushes).touch trivial stored (Option.not_isSome_iff_eq_none.mp active) latest

theorem handleSignComplete_refines {auth : NostrAuth} {data : SignCompleteRequest} :
    Prog.wp (traced signing R) (handleSignComplete auth data)
      (Refines rules R (.request (some auth) (.body (.signComplete data)) : Job A) s)
      (s, calls) := by
  unfold handleSignComplete
  dsimp only
  rw [wp_get]
  cases stored : (s.table sessions).get auth.pubkey with
  | none => exact (Quiet.refl s).step
  | some session =>
    dsimp only
    split
    · exact (Quiet.refl s).step
    next active =>
      refine wp_quiet_then (only_checkAndRecordRateLimit _) ?_ fun _ _ quiet => quiet.step
      intro admitted s₁ calls₁ limited
      split
      · exact limited.step
      split
      · exact limited.step
      rw [wp_takePendingInOrder]
      have quiet := limited.trans
        (quiet_takeCommit s₁ List.eraseIdx auth.pubkey data.commitId)
      cases (s₁.takeCommit List.eraseIdx auth.pubkey data.commitId).1 with
      | none => exact quiet.step
      | some entry =>
        dsimp only
        split
        · exact quiet.step
        split
        · exact quiet.step
        split
        · exact quiet.step
        split
        · exact quiet.step
        rw [wp_sign]
        refine wp_ofResult ?_ ?_ quiet.step
        · intro psig _
          dsimp only
          rw [wp_now]
          intro t later
          rw [wp_set]
          exact quiet.touch trivial stored (Option.not_isSome_iff_eq_none.mp active) later
        · intro e _
          exact quiet.step

omit [Sha2] in
theorem handleEcdh_refines {auth : NostrAuth} {data : EcdhRequest} :
    Prog.wp (traced signing R) (handleEcdh auth data)
      (Refines rules R (.request (some auth) (.body (.ecdh data)) : Job A) s) (s, calls) := by
  unfold handleEcdh
  dsimp only
  rw [wp_get]
  cases stored : (s.table sessions).get auth.pubkey with
  | none => exact (Quiet.refl s).step
  | some session =>
    dsimp only
    split
    · exact (Quiet.refl s).step
    next active =>
      refine wp_quiet_then (only_checkAndRecordRateLimit _) ?_ fun _ _ quiet => quiet.step
      intro admitted s₁ calls₁ quiet
      split
      · exact quiet.step
      split
      · exact quiet.step
      split
      · exact quiet.step
      refine wp_ofResult ?_ ?_ quiet.step
      · intro result _
        dsimp only
        rw [wp_now]
        intro t later
        rw [wp_set]
        exact quiet.touch trivial stored (Option.not_isSome_iff_eq_none.mp active) later
      · intro e _
        exact quiet.step

omit [FrostTaproot] [Sha2] in
theorem handleSessionDeactivate_refines {auth : NostrAuth} {data : SelectRequest} :
    Prog.wp (traced signing R) (handleSessionDeactivate auth data)
      (Refines rules R (.request (some auth) (.body (.sessionDeactivate data)) : Job A) s)
      (s, calls) := by
  unfold handleSessionDeactivate
  rw [wp_get]
  cases (s.table sessions).get data.client with
  | none => exact (Quiet.refl s).step
  | some session =>
    dsimp only
    split
    · refine Prog.wp_unit deactivateSession_spec ?_
      rintro ⟨s₁, calls₁⟩ (rfl | ⟨session', t, stored, later, same⟩)
      · exact (Quiet.refl s₁).step
      · exact (Step.deactivate stored later).of_eq same
    · exact (Quiet.refl s).step

omit [FrostTaproot] [Sha2] in
theorem handleSessionDelete_refines {auth : NostrAuth} {data : SelectRequest} :
    Prog.wp (traced signing R) (handleSessionDelete auth data)
      (Refines rules R (.request (some auth) (.body (.sessionDelete data)) : Job A) s)
      (s, calls) := by
  unfold handleSessionDelete
  rw [wp_get]
  cases (s.table sessions).get data.client with
  | none => exact (Quiet.refl s).step
  | some session =>
    dsimp only
    split
    · refine Prog.wp_unit deleteSession_spec ?_
      rintro ⟨s₁, calls₁⟩ same
      exact Step.remove.of_eq same
    · exact (Quiet.refl s).step

theorem dispatch_refines [Argon2] (auth : NostrAuth) (body : Body AuthPayload) :
    Prog.wp (traced signing R) (dispatch options auth body)
      (Refines (goRules options) R (.request (some auth) (.body body)) s) (s, calls) := by
  cases body with
  | challenge data =>
    exact Prog.wp_mono (fun _ _ quiet => quiet.step) _ _
      (quiet_of_only (only_handleChallenge options data) _)
  | ecdh data => exact handleEcdh_refines
  | loginSelect data => exact handleLoginSelect_refines
  | loginStart data => exact handleLoginStart_refines
  | recoverySelect data => exact handleRecoverySelect_refines
  | recoverySetup data => exact handleRecoverySetup_refines
  | recoveryStart data => exact handleRecoveryStart_refines
  | register data => exact handleRegister_refines
  | sessionDeactivate data => exact handleSessionDeactivate_refines
  | sessionDelete data => exact handleSessionDelete_refines
  | sessionList =>
    have only : (handleSessionList auth).Only Op.LeavesRegistry := ⟨trivial, fun _ => trivial⟩
    exact Prog.wp_mono (fun _ _ quiet => quiet.step) _ _ (quiet_of_only only _)
  | signCommit data => exact handleSignCommit_refines
  | signComplete data => exact handleSignComplete_refines

end Handlers

/-! ## Cleanup -/

section Cleanup

variable {R : Nat → Nat → Prop} [IsPreorder Nat R] {s : State} {calls : List SignerCall}
variable {signing : SigningFn}

omit [IsPreorder Nat R] in
/-- A sweep only deletes entries of its collection. -/
theorem sweep_spec {c : Coll} {expired : c.Val → Bool} :
    Prog.wp (traced signing R) (sweep c expired)
      (fun r p => r = some () ∧ ∃ t : Table c.Val, p.1 = s.setTable c t ∧ Shrinks (s.table c) t)
      (s, calls) := by
  unfold sweep Coll.mapEntries
  rw [Prog.wp_traced]
  refine ⟨trivial, fun all s₀ walked => ?_⟩
  obtain ⟨_, rfl⟩ := step_mapEntries.mp walked
  refine Prog.wp_forEach (I := fun _ p => ∃ t : Table c.Val, p.1 = s₀.setTable c t ∧
    Shrinks (s₀.table c) t) _ [] _ ?_ ?_ ?_
  · exact ⟨s₀.table c, (s₀.setTable_table c).symm, .refl _⟩
  · rintro done ⟨key, value⟩ ⟨s₁, calls₁⟩ _ ⟨t, same, shrinks⟩
    subst same
    split
    · rw [wp_delete]
      refine ⟨rfl, t.delete key, ?_, shrinks.trans (.delete t key)⟩
      rw [State.setTable_setTable, State.table_setTable]
    · exact ⟨rfl, t, rfl, shrinks⟩
  · rintro ⟨s₁, calls₁⟩ swept
    exact ⟨rfl, swept⟩

omit [IsPreorder Nat R] in
theorem sweepSessions_spec {cutoff : Nat} :
    Prog.wp (traced signing R) (sweepSessions cutoff)
      (fun r p => r = some () ∧ ∃ clients : List Str,
        p.1.registry = clients.foldl Registry.deleteSession s.registry) (s, calls) := by
  unfold sweepSessions Coll.mapEntries
  rw [Prog.wp_traced]
  refine ⟨trivial, fun all s₀ walked => ?_⟩
  obtain ⟨_, rfl⟩ := step_mapEntries.mp walked
  refine Prog.wp_forEach (I := fun _ p => ∃ clients : List Str,
    p.1.registry = clients.foldl Registry.deleteSession s₀.registry) _ [] _ ⟨[], rfl⟩ ?_ ?_
  · rintro done ⟨client, session⟩ ⟨s₁, calls₁⟩ _ ⟨clients, same⟩
    split
    · refine Prog.wp_mono ?_ _ _ deleteSession_spec
      rintro r ⟨s₂, calls₂⟩ ⟨returned, deleted⟩
      refine ⟨returned, clients ++ [client], ?_⟩
      rw [List.foldl_append, List.foldl_cons, List.foldl_nil, deleted, same]
    · exact ⟨rfl, clients, same⟩
  · rintro ⟨s₁, calls₁⟩ deleted
    exact ⟨rfl, deleted⟩

/-- What a cleanup has done to the registry so far. -/
structure Cleaning (R : Nat → Nat → Prop) (s s' : State) : Prop where
  logins : Shrinks s.logins s'.logins
  recoveries : Shrinks s.recoveries s'.recoveries
  expired : GoExpires s.registry s'.registry
  later : R s.clock s'.clock

theorem Cleaning.trans {s' s'' : State} (first : Cleaning R s s') (second : Cleaning R s' s'') :
    Cleaning R s s'' :=
  ⟨first.logins.trans second.logins, first.recoveries.trans second.recoveries,
    first.expired.trans second.expired, trans_of R first.later second.later⟩

omit [IsPreorder Nat R] in
theorem Cleaning.of_quiet {s' : State} (quiet : Quiet R s s') : Cleaning R s s' := by
  refine ⟨?_, ?_, .of_same quiet.sessions quiet.index, quiet.later⟩
  · rw [quiet.logins]
    exact .refl _
  · rw [quiet.recoveries]
    exact .refl _

theorem Cleaning.of_recoveries {t : Table SignerRecovery} (shrinks : Shrinks s.recoveries t) :
    Cleaning R s (s.setTable Coll.recoveries t) :=
  ⟨.refl _, shrinks, .of_same rfl rfl, refl_of R _⟩

theorem Cleaning.of_logins {t : Table SignerLogin} (shrinks : Shrinks s.logins t) :
    Cleaning R s (s.setTable Coll.logins t) :=
  ⟨shrinks, .refl _, .of_same rfl rfl, refl_of R _⟩

omit [IsPreorder Nat R] in
theorem foldl_deleteSession_rest (clients : List Str) (r : Registry) :
    (clients.foldl Registry.deleteSession r).logins = r.logins ∧
      (clients.foldl Registry.deleteSession r).recoveries = r.recoveries ∧
      (clients.foldl Registry.deleteSession r).clock = r.clock := by
  induction clients generalizing r with
  | nil => exact ⟨rfl, rfl, rfl⟩
  | cons client clients ih =>
    obtain ⟨logins, recoveries, clock⟩ := ih (r.deleteSession client)
    have one : (r.deleteSession client).logins = r.logins ∧
        (r.deleteSession client).recoveries = r.recoveries ∧
        (r.deleteSession client).clock = r.clock := by
      unfold Registry.deleteSession
      cases r.sessions.get client with
      | none => exact ⟨rfl, rfl, rfl⟩
      | some session => exact ⟨rfl, rfl, rfl⟩
    exact ⟨logins.trans one.1, recoveries.trans one.2.1, clock.trans one.2.2⟩

theorem Cleaning.of_sessions {s' : State} {clients : List Str}
    (deleted : s'.registry = clients.foldl Registry.deleteSession s.registry) :
    Cleaning R s s' := by
  obtain ⟨logins, recoveries, clock⟩ := foldl_deleteSession_rest clients s.registry
  rw [← deleted] at logins recoveries clock
  have sameLogins : s'.logins = s.logins := logins
  have sameRecoveries : s'.recoveries = s.recoveries := recoveries
  have sameClock : s'.clock = s.clock := clock
  refine ⟨?_, ?_, ⟨clients, ?_, ?_⟩, ?_⟩
  · rw [sameLogins]
    exact .refl _
  · rw [sameRecoveries]
    exact .refl _
  · rw [deleted]
  · rw [deleted]
  · rw [sameClock]
    exact refl_of R _

theorem cleanup_spec :
    Prog.wp (traced signing R) cleanup (fun _ p => Cleaning R s p.1) (s, calls) := by
  unfold cleanup
  rw [wp_now]
  intro time15m first
  rw [wp_now]
  intro timeMonth second
  have read : Cleaning R s { s with clock := timeMonth } :=
    .of_quiet ⟨rfl, rfl, rfl, rfl, trans_of R first second⟩
  refine Prog.wp_unit sweep_spec ?_
  rintro ⟨s₁, calls₁⟩ ⟨t₁, rfl, shrinks⟩
  have cleaning := read.trans (.of_recoveries shrinks)
  refine Prog.wp_unit sweep_spec ?_
  rintro ⟨s₂, calls₂⟩ ⟨t₂, rfl, shrinks⟩
  have cleaning := cleaning.trans (.of_logins shrinks)
  refine Prog.wp_unit sweep_spec ?_
  rintro ⟨s₃, calls₃⟩ ⟨t₃, rfl, _⟩
  have cleaning := cleaning.trans (.of_quiet (.of_setTable (c := challenges) id t₃))
  have swept : ∀ (c : Coll) (lastAttempt : c.Val → Nat) (config : RateLimitConfig),
      c ∈ [rateLimitByClient, rateLimitByEmailHash, challenges] →
      (sweepBuckets c lastAttempt config).Only Op.LeavesRegistry :=
    fun c _ _ outside => (within_sweepBuckets outside _ _).mono (leaves_of_within limits_outside)
  refine Prog.wp_seq (quiet_of_only (R := R) (swept _ _ _ (by decide)) _) ?_
    fun p quiet => cleaning.trans (.of_quiet quiet)
  rintro _ ⟨s₄, calls₄⟩ quiet
  have cleaning := cleaning.trans (.of_quiet quiet)
  refine Prog.wp_seq (quiet_of_only (R := R) (swept _ _ _ (by decide)) _) ?_
    fun p quiet => cleaning.trans (.of_quiet quiet)
  rintro _ ⟨s₅, calls₅⟩ quiet
  have cleaning := cleaning.trans (.of_quiet quiet)
  refine Prog.wp_unit sweepSessions_spec ?_
  rintro ⟨s₆, calls₆⟩ ⟨clients, deleted⟩
  have cleaning := cleaning.trans (.of_sessions deleted)
  rw [wp_now]
  intro commitTime last
  rw [reapCommits, Prog.op_eq, wp_reapCommits]
  exact cleaning.trans (.of_quiet ⟨rfl, rfl, rfl, rfl, last⟩)

omit [IsPreorder Nat R] in
theorem Cleaning.step {A : Type} [FrostTaproot] {options : SignerOptions} {s' : State}
    (cleaning : Cleaning R s s') :
    Step (goRules options) R (.cleanup : Job A) s.registry s'.registry :=
  .cleanup cleaning.logins cleaning.recoveries cleaning.expired cleaning.later

end Cleanup

/-! ## Jobs -/

/-- A job is a cleanup step, possibly of nothing, and then a step of its own. -/
def RefinesAfterCleanup (rules : Rules) (R : Nat → Nat → Prop) (job : Job AuthPayload)
    (s : State) : Option Response → State × List SignerCall → Prop :=
  fun _ p => ∃ r, Step rules R (.cleanup : Job AuthPayload) s.registry r ∧
    Step rules R job r p.1.registry

section Jobs

variable [FrostTaproot] [Sha2] [Argon2] {options : SignerOptions} {R : Nat → Nat → Prop}
variable [IsPreorder Nat R] {s : State} {calls : List SignerCall} {signing : SigningFn}

theorem route_refines (auth : NostrAuth) (target : Route AuthPayload) :
    Prog.wp (traced signing R) (route options auth target)
      (Refines (goRules options) R (.request (some auth) target) s) (s, calls) := by
  cases target with
  | unknown => exact (Quiet.refl s).step
  | malformed => exact (Quiet.refl s).step
  | body data => exact dispatch_refines auth data

theorem handle_refines (job : Job AuthPayload) :
    Prog.wp (traced signing R) (handle options job)
      (RefinesAfterCleanup (goRules options) R job s) (s, calls) := by
  have idle : ∀ (job : Job AuthPayload) (s : State),
      Step (goRules options) R job s.registry s.registry := fun _ s => (Quiet.refl s).step
  unfold handle
  split
  · exact ⟨s.registry, idle _ _, idle _ _⟩
  next auth target =>
    refine Prog.wp_seq cleanup_spec ?_ ?_
    · rintro _ ⟨s₁, calls₁⟩ cleaning
      refine Prog.wp_mono ?_ _ _ (route_refines auth target)
      intro _ p step
      exact ⟨s₁.registry, cleaning.step, step⟩
    · rintro ⟨s₁, calls₁⟩ cleaning
      exact ⟨s₁.registry, cleaning.step, idle _ _⟩
  · refine Prog.wp_seq cleanup_spec ?_ ?_
    · rintro _ ⟨s₁, calls₁⟩ cleaning
      exact ⟨s₁.registry, cleaning.step, idle _ _⟩
    · rintro ⟨s₁, calls₁⟩ cleaning
      exact ⟨s₁.registry, cleaning.step, idle _ _⟩

end Jobs

end Pomade.Go
