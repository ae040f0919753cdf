import Pomade.Signer.Registry

/-! # The Rust handlers refine the registry

Each handler is executed symbolically once, and what it does to the registry is one
`Step`.  The rate limiter, the challenges and the pending commitments are outside the
registry; a stretch of a handler that only touches those is `Quiet`.
-/

namespace Pomade.Signer

open Pomade.Lib Pomade.Frost Coll

/-- Nothing of the registry changes but the clock. -/
structure Quiet (R : Nat → Nat → Prop) (s s' : State) : Prop where
  sessions : s'.sessions = s.sessions
  index : s'.sessionsByEmailHash = s.sessionsByEmailHash
  logins : s'.logins = s.logins
  recoveries : s'.recoveries = s.recoveries
  later : R s.clock s'.clock

section Quiet

variable {R : Nat → Nat → Prop} [IsPreorder Nat R] {s s' s'' : State}

theorem Quiet.refl (s : State) : Quiet R s s := ⟨rfl, rfl, rfl, rfl, refl_of R _⟩

theorem Quiet.trans (first : Quiet R s s') (second : Quiet R s' s'') : Quiet R s s'' :=
  ⟨second.sessions.trans first.sessions, second.index.trans first.index,
    second.logins.trans first.logins, second.recoveries.trans first.recoveries,
    trans_of R first.later second.later⟩

omit [IsPreorder Nat R] in
theorem Quiet.registry (quiet : Quiet R s s') :
    s'.registry = { s.registry with clock := s'.clock } := by
  simp only [State.registry, quiet.sessions, quiet.index, quiet.logins, quiet.recoveries]

omit [IsPreorder Nat R] in
theorem Quiet.step {A : Type} {rules : Rules} {job : Job A} (quiet : Quiet R s s') :
    Step rules R job s.registry s'.registry := by
  rw [quiet.registry]
  exact .idle quiet.later

end Quiet

/-- The collections of the registry. -/
def Coll.Registered : Coll → Prop
  | .sessions | .sessionsByEmailHash | .logins | .recoveries => True
  | .challenges | .rateLimitByEmailHash | .rateLimitByClient => False

/-- The calls that leave the registry alone. -/
def Op.LeavesRegistry : Op → Prop
  | .set c _ _ | .delete c _ => ¬ c.Registered
  | _ => True

section Only

variable {signing : SigningFn} {R : Nat → Nat → Prop} [IsPreorder Nat R] {s s' : State} {α : Type}

/-- Taking a commitment leaves the registry alone. -/
theorem quiet_takeCommit (s : State) (remove : List CommitEntry → Nat → List CommitEntry)
    (client commitId : Str) : Quiet R s (s.takeCommit remove client commitId).2 := by
  unfold State.takeCommit
  dsimp only
  split
  · exact .refl s
  · exact ⟨rfl, rfl, rfl, rfl, refl_of R _⟩

theorem Quiet.of_setTable {c : Coll} (leaves : ¬ c.Registered) (t : Table c.Val) :
    Quiet R s (s.setTable c t) := by
  cases c
  case challenges => exact ⟨rfl, rfl, rfl, rfl, refl_of R _⟩
  case rateLimitByEmailHash => exact ⟨rfl, rfl, rfl, rfl, refl_of R _⟩
  case rateLimitByClient => exact ⟨rfl, rfl, rfl, rfl, refl_of R _⟩
  all_goals exact absurd trivial leaves

theorem Quiet.of_step {o : Op} {answer : Ans o} (leaves : o.LeavesRegistry)
    (step : (world signing R).step o s answer s') : Quiet R s s' := by
  obtain ⟨e, permitted, outcome⟩ := step
  cases o with
  | set c key value =>
    cases outcome
    exact .of_setTable leaves _
  | delete c key =>
    cases outcome
    exact .of_setTable leaves _
  | now =>
    cases outcome
    exact ⟨rfl, rfl, rfl, rfl, permitted⟩
  | takeCommit client commitId =>
    obtain rfl := congrArg Prod.snd outcome
    exact quiet_takeCommit s swapRemove client commitId
  | takeCommitInOrder client commitId =>
    obtain rfl := congrArg Prod.snd outcome
    exact quiet_takeCommit s List.eraseIdx client commitId
  | _ =>
    cases outcome
    exact ⟨rfl, rfl, rfl, rfl, refl_of R _⟩

/-- A program that makes only such calls. -/
theorem quiet_of_only {program : SignerProg α} (only : program.Only Op.LeavesRegistry)
    (p : State × List SignerCall) :
    Prog.wp (traced signing R) program (fun _ p' => Quiet R p.1 p'.1) p := by
  refine Prog.wp_of_only (R := fun p p' : State × List SignerCall => Quiet R p.1 p'.1)
    (fun p => .refl p.1) Quiet.trans ?_ (fun _ _ => trivial) only p
  intro o p answer p' leaves step
  exact .of_step leaves step.1

end Only

theorem Step.of_eq {A : Type} {rules : Rules} {R : Nat → Nat → Prop} {job : Job A}
    {r r₁ r' : Registry} (step : Step rules R job r r₁) (same : r' = r₁) :
    Step rules R job r r' := same ▸ step

/-! ## Helpers -/

section Helpers

variable {signing : SigningFn} {R : Nat → Nat → Prop} [IsPreorder Nat R] {s : State}
variable {calls : List SignerCall} {α : Type} {Q : Option α → State × List SignerCall → Prop}

theorem isRateLimited_spec {bucket : Option RateLimitBucket} {config : RateLimitConfig} :
    Prog.wp (traced signing R) (isRateLimited bucket config)
      (fun r p => ∃ limited, r = some limited ∧ Quiet R s p.1) (s, calls) := by
  cases bucket with
  | none => exact ⟨false, rfl, .refl s⟩
  | some bucket =>
    unfold isRateLimited
    rw [wp_now]
    intro time later
    exact ⟨_, rfl, rfl, rfl, rfl, rfl, later⟩

omit [IsPreorder Nat R] in
theorem recordAttempt_spec {bucket : Option RateLimitBucket} {config : RateLimitConfig} :
    Prog.wp (traced signing R) (recordAttempt bucket config)
      (fun r p => ∃ attempt, r = some attempt ∧ Quiet R s p.1) (s, calls) := by
  unfold recordAttempt
  rw [wp_now]
  intro time later
  exact ⟨_, rfl, rfl, rfl, rfl, rfl, later⟩

theorem checkAndRecordRateLimit_spec {client : Str} :
    Prog.wp (traced signing R) (checkAndRecordRateLimit client)
      (fun r p => ∃ admitted, r = some admitted ∧ Quiet R s p.1) (s, calls) := by
  unfold checkAndRecordRateLimit
  rw [wp_get]
  refine Prog.wp_then isRateLimited_spec ?_
  rintro limited ⟨s₁, calls₁⟩ checked
  split
  · exact ⟨false, rfl, checked⟩
  · refine Prog.wp_then recordAttempt_spec ?_
    rintro attempt ⟨s₂, calls₂⟩ recorded
    rw [wp_set]
    have set : Quiet R s₂ (s₂.setTable rateLimitByClient
        ((s₂.table rateLimitByClient).set client attempt)) :=
      ⟨rfl, rfl, rfl, rfl, refl_of R _⟩
    exact ⟨true, rfl, (checked.trans recorded).trans set⟩

omit [IsPreorder Nat R] in
theorem checkKeyReuse_spec {client : Str} :
    Prog.wp (traced signing R) (checkKeyReuse client)
      (fun r p => ∃ reused, r = some reused ∧ p.1 = s ∧
        (reused = false → s.registry.Unused client)) (s, calls) := by
  unfold checkKeyReuse
  rw [wp_get]
  split
  · exact ⟨true, rfl, rfl, nofun⟩
  next session =>
    rw [wp_get]
    split
    · exact ⟨true, rfl, rfl, nofun⟩
    next recovery =>
      rw [wp_get]
      split
      · exact ⟨true, rfl, rfl, nofun⟩
      next login =>
        exact ⟨false, rfl, rfl, fun _ => ⟨Option.not_isSome_iff_eq_none.mp session,
          Option.not_isSome_iff_eq_none.mp recovery, Option.not_isSome_iff_eq_none.mp login⟩⟩

omit [IsPreorder Nat R] in
theorem addSession_spec {client : Str} {session : SignerSession} :
    Prog.wp (traced signing R) (addSession client session)
      (fun r p => r = some () ∧ p.1.registry = s.registry.addSession client session)
      (s, calls) := by
  unfold addSession
  rw [wp_set]
  split
  next unhashed => exact ⟨rfl, by simp [State.registry, Registry.addSession, enindex, unhashed]⟩
  next emailHash hashed =>
    rw [wp_get, Coll.set, Prog.op_eq, wp_set]
    exact ⟨rfl, by simp [State.registry, Registry.addSession, enindex, hashed]⟩

omit [IsPreorder Nat R] in
theorem deactivateSession_spec {client : Str} :
    Prog.wp (traced signing R) (deactivateSession client)
      (fun r p => r = some () ∧ (p.1 = s ∨ ∃ session t, s.sessions.get client = some session ∧
        R s.clock t ∧ p.1.registry =
          { s.registry.putSession client { session with deactivatedAt := some t } with
            clock := t })) (s, calls) := by
  unfold deactivateSession
  rw [wp_get]
  cases stored : (s.table sessions).get client with
  | none => exact ⟨rfl, .inl rfl⟩
  | some session =>
    dsimp only
    rw [wp_now]
    intro time later
    rw [Coll.set, Prog.op_eq, wp_set]
    exact ⟨rfl, .inr ⟨session, time, stored, later, rfl⟩⟩

omit [IsPreorder Nat R] in
theorem removeFromIndex_spec {client emailHash : Str} :
    Prog.wp (traced signing R) (removeFromIndex client emailHash)
      (fun r p => r = some () ∧ p.1 = { s with
        sessionsByEmailHash := unindex s.sessionsByEmailHash client (some emailHash) })
      (s, calls) := by
  unfold removeFromIndex
  rw [wp_get]
  cases found : s.sessionsByEmailHash.get emailHash with
  | none =>
    simp only [State.table, found, unindex]
    exact ⟨rfl, rfl⟩
  | some index =>
    simp only [State.table, found, unindex]
    split
    · rw [wp_delete]
      exact ⟨rfl, rfl⟩
    · rw [Coll.set, Prog.op_eq, wp_set]
      exact ⟨rfl, rfl⟩

omit [IsPreorder Nat R] in
theorem deleteSession_spec {client : Str} :
    Prog.wp (traced signing R) (deleteSession client)
      (fun r p => r = some () ∧ p.1.registry = s.registry.deleteSession client)
      (s, calls) := by
  unfold deleteSession
  rw [wp_get]
  cases stored : s.sessions.get client with
  | none =>
    have same : s.registry.deleteSession client = s.registry := by
      simp only [Registry.deleteSession, State.registry, stored]
    simp only [State.table, stored]
    exact ⟨rfl, same.symm⟩
  | some session =>
    have same : s.registry.deleteSession client =
        { s.registry with
          sessions := s.sessions.delete client
          index := unindex s.sessionsByEmailHash client session.emailHash } := by
      simp only [Registry.deleteSession, State.registry, stored]
    rw [same]
    simp only [State.table, stored]
    cases hashed : session.emailHash with
    | none =>
      dsimp only
      rw [wp_delete]
      exact ⟨rfl, rfl⟩
    | some emailHash =>
      dsimp only
      refine Prog.wp_unit removeFromIndex_spec ?_
      rintro ⟨s₁, calls₁⟩ rfl
      rw [wp_delete]
      exact ⟨rfl, rfl⟩

omit [IsPreorder Nat R] in
theorem indexedSessions_spec {index : SessionIndex} :
    Prog.wp (traced signing R) (indexedSessions index)
      (fun r p => ∃ found, r = some found ∧ p.1 = s) (s, calls) := by
  refine Prog.wp_filterMap (I := fun _ _ p => p.1 = s) index.clients [] [] _ rfl ?_ ?_
  · rintro done kept client ⟨s₁, calls₁⟩ _ rfl
    rw [Coll.get, Prog.op_eq, wp_get]
    exact ⟨_, rfl, rfl⟩
  · rintro rest ⟨s₁, calls₁⟩ rfl
    exact ⟨rest, rfl, rfl⟩

theorem evaluateAuth_spec {auth : Auth} {index : Option SessionIndex} :
    Prog.wp (traced signing R) (evaluateAuth auth index)
      (fun r p => ∃ found, r = some found ∧ Quiet R s p.1) (s, calls) := by
  unfold evaluateAuth
  cases index with
  | none => exact ⟨[], rfl, .refl s⟩
  | some index =>
    cases auth with
    | password emailHash passwordHash =>
      dsimp only
      refine Prog.wp_then indexedSessions_spec ?_
      rintro stored ⟨s₁, calls₁⟩ rfl
      exact ⟨_, rfl, .refl s₁⟩
    | otp emailHash otp =>
      dsimp only
      rw [wp_get]
      cases (s.table challenges).get emailHash with
      | none => exact ⟨[], rfl, .refl s⟩
      | some challenge =>
        dsimp only
        rw [wp_delete]
        have deleted : Quiet R s (s.setTable challenges ((s.table challenges).delete emailHash)) :=
          ⟨rfl, rfl, rfl, rfl, refl_of R _⟩
        split
        · refine Prog.wp_mono ?_ _ _ indexedSessions_spec
          rintro r ⟨s₁, calls₁⟩ ⟨found, returned, rfl⟩
          exact ⟨found, returned, deleted⟩
        · exact ⟨[], rfl, deleted⟩

theorem getAuthenticatedSessions_spec {auth : Auth} :
    Prog.wp (traced signing R) (getAuthenticatedSessions auth)
      (fun r p => ∃ found, r = some found ∧ Quiet R s p.1) (s, calls) := by
  unfold getAuthenticatedSessions
  dsimp only
  rw [wp_get]
  refine Prog.wp_then isRateLimited_spec ?_
  rintro limited ⟨s₁, calls₁⟩ checked
  split
  · exact ⟨[], rfl, checked⟩
  · rw [wp_get]
    refine Prog.wp_then evaluateAuth_spec ?_
    rintro found ⟨s₂, calls₂⟩ evaluated
    split
    · refine Prog.wp_then recordAttempt_spec ?_
      rintro attempt ⟨s₃, calls₃⟩ recorded
      rw [wp_set]
      have set : Quiet R s₃ (s₃.setTable rateLimitByEmailHash
          ((s₃.table rateLimitByEmailHash).set auth.emailHash attempt)) :=
        ⟨rfl, rfl, rfl, rfl, refl_of R _⟩
      exact ⟨found, rfl, ((checked.trans evaluated).trans recorded).trans set⟩
    · exact ⟨found, rfl, checked.trans evaluated⟩

end Helpers

/-! ## Handlers -/

/-- What the Rust registration has checked when it stores a session. -/
structure RustAccepts (Pt : Type) [AddCommGroup Pt] [Module Scalar Pt] [Curve Pt]
    (options : SignerOptions) (auth : NostrAuth) (data : RegisterRequest) : Prop where
  valid : (Body.register data : Body Auth).schemaValid = true
  worked : options.registerPow ≤ getPow auth.eventId
  positive : data.group.threshold.toNat ≠ 0
  enough : data.group.threshold.toNat ≤ data.group.commits.length
  member : isGroupMember Pt data.group data.share = .ok true
  deduped : (dedup (data.group.commits.map (·.idx))).length =
    (data.group.commits.map (·.idx)).length
  indexed : data.share.idx ∈ data.group.commits.map (·.idx)

/-- A Rust cleanup deletes the sessions that are older than a cutoff, and nothing else. -/
def RustExpires (r r' : Registry) : Prop :=
  ∃ cutoff, r'.index = r.index ∧
    ∀ key, r'.sessions.get key =
      (r.sessions.get key).filter fun session => decide (cutoff ≤ session.lastActivity)

def rustRules (Pt : Type) [AddCommGroup Pt] [Module Scalar Pt] [Curve Pt]
    (options : SignerOptions) : Rules where
  accepts := RustAccepts Pt options
  expires := RustExpires
  expires_shrinks := by
    rintro r r' ⟨cutoff, _, swept⟩
    exact .of_filter swept

/-- The outcome of a job is a step of the registry. -/
def Refines {A : Type} (rules : Rules) (R : Nat → Nat → Prop) (job : Job A) (s : State) :
    Option Response → State × List SignerCall → Prop :=
  fun _ p => Step rules R job s.registry p.1.registry

section Handlers

variable {Pt : Type} [AddCommGroup Pt] [Module Scalar Pt] [Curve Pt]
variable {options : SignerOptions} {R : Nat → Nat → Prop} [IsPreorder Nat R] {s : State}
variable {calls : List SignerCall} {signing : SigningFn} {A : Type} {rules : Rules}

theorem handleRegister_refines {auth : NostrAuth} {data : RegisterRequest}
    (valid : (Body.register data : Body Auth).schemaValid = true) :
    Prog.wp (traced signing R) (handleRegister Pt options auth data)
      (Refines (rustRules Pt options) R
        (.request (some auth) (.body (.register data)) : Job A) s) (s, calls) := by
  have idle : Step (rustRules Pt options) R (.request (some auth) (.body (.register data)) : Job A)
      s.registry s.registry := (Quiet.refl s).step
  unfold handleRegister
  dsimp only
  refine Prog.wp_then checkKeyReuse_spec ?_
  rintro reused ⟨s₁, calls₁⟩ ⟨rfl, unused⟩
  split
  · exact idle
  next fresh =>
    split
    · exact idle
    next worked =>
    split
    · exact idle
    next threshold =>
      refine wp_ofResult ?_ ?_ idle
      · intro member isMember
        cases member with
        | false => exact idle
        | true =>
          dsimp only
          split
          · exact idle
          next deduped =>
            split
            · exact idle
            next indexed =>
            rw [wp_get]
            split
            · exact idle
            rw [wp_now]
            intro t₁ first
            rw [wp_now]
            intro t₂ second
            refine Prog.wp_unit addSession_spec ?_
            rintro ⟨s₂, calls₂⟩ stored
            -- Every refusal leaves the registry alone; here all of them are behind.
            have accepted : (rustRules Pt options).accepts auth data :=
              ⟨valid, not_lt.mp worked, by omega, by omega, isMember, not_not.mp deduped,
                not_not.mp indexed⟩
            have unused := unused (by simpa using fresh)
            exact (Step.register unused accepted first second).of_eq stored
      · intro e _
        exact idle

theorem handleRecoverySetup_refines [Argon2] {auth : NostrAuth} {data : RecoverySetupRequest} :
    Prog.wp (traced signing R) (handleRecoverySetup options auth data)
      (Refines rules R (.request (some auth) (.body (.recoverySetup data)) : Job A) s)
      (s, calls) := by
  have idle : Step rules R (.request (some auth) (.body (.recoverySetup data)) : Job A)
      s.registry s.registry := (Quiet.refl s).step
  unfold handleRecoverySetup
  dsimp only
  rw [wp_get]
  cases stored : (s.table sessions).get auth.pubkey with
  | none => exact idle
  | some session =>
    dsimp only
    split
    · exact idle
    next recovery =>
      rw [wp_now]
      intro t₁ first
      split
      · exact .idle first
      split
      · exact .idle first
      next unset =>
        split
        · exact .idle first
        split
        swap
        · exact .idle first
        rw [wp_now]
        intro t₂ second
        refine Prog.wp_unit addSession_spec ?_
        rintro ⟨s₂, calls₂⟩ same
        exact (Step.setup stored (by simpa using recovery)
          (Option.not_isSome_iff_eq_none.mp unset) first second).of_eq same

omit [IsPreorder Nat R] in
theorem randomInt_spec {min max : UInt32} :
    Prog.wp (traced signing R) (randomInt min max) (fun r p => ∃ value, r = some value ∧ p.1 = s)
      (s, calls) := by
  unfold randomInt
  rw [wp_randomU32]
  exact fun word => ⟨_, rfl, rfl⟩

omit [IsPreorder Nat R] in
theorem randomCommitId_spec :
    Prog.wp (traced signing R) randomCommitId (fun r p => ∃ value, r = some value ∧ p.1 = s)
      (s, calls) := by
  unfold randomCommitId
  rw [wp_randomBytes32]
  exact fun bytes => ⟨_, rfl, rfl⟩

omit [IsPreorder Nat R] in
theorem challengeRecipient_spec {emailHash : Str} :
    Prog.wp (traced signing R) (challengeRecipient emailHash)
      (fun r p => ∃ recipient, r = some recipient ∧ p.1 = s) (s, calls) := by
  unfold challengeRecipient
  rw [wp_get]
  cases (s.table sessionsByEmailHash).get emailHash with
  | none => exact ⟨none, rfl, rfl⟩
  | some index =>
    dsimp only
    cases index.clients.head? with
    | none => exact ⟨none, rfl, rfl⟩
    | some client =>
      dsimp only
      rw [wp_get]
      cases (s.table sessions).get client with
      | none => exact ⟨none, rfl, rfl⟩
      | some session => exact ⟨session.email, rfl, rfl⟩

theorem handleChallenge_quiet {data : ChallengeRequest} :
    Prog.wp (traced signing R) (handleChallenge options data) (fun _ p => Quiet R s p.1)
      (s, calls) := by
  unfold handleChallenge
  rw [wp_get]
  refine Prog.wp_then isRateLimited_spec ?_
  rintro limited ⟨s₁, calls₁⟩ checked
  split
  · exact checked
  refine Prog.wp_then challengeRecipient_spec ?_
  rintro recipient ⟨s₂, calls₂⟩ rfl
  cases recipient with
  | none => exact checked
  | some email =>
    dsimp only
    refine Prog.wp_then recordAttempt_spec ?_
    rintro attempt ⟨s₃, calls₃⟩ recorded
    rw [wp_set]
    refine Prog.wp_then randomInt_spec ?_
    rintro suffix ⟨s₄, calls₄⟩ rfl
    rw [wp_now]
    intro createdAt later
    rw [wp_set]
    have quiet : Quiet R s ((({ s₃ with
        rateLimitByEmailHash := s₃.rateLimitByEmailHash.set data.emailHash attempt,
        clock := createdAt,
        challenges := s₃.challenges.set data.emailHash
          { otp := data.otpPrefix ++ (toString suffix.toNat).toList, createdAt } } : State))) :=
      (checked.trans recorded).trans ⟨rfl, rfl, rfl, rfl, later⟩
    split
    · exact quiet
    split
    · rw [wp_sendMail]
      exact quiet
    · exact quiet

theorem startWith_refines {record : Str → Nat → List Str → SignerProg Unit} {success : String}
    {auth : NostrAuth} {data : StartRequest Auth} {job : Job A}
    (recorded : ∀ (s₁ : State) calls₁ createdAt clients, s₁.registry.Unused auth.pubkey →
      Prog.wp (traced signing R) (record auth.pubkey createdAt clients)
        (fun r p => r = some () ∧ ∀ r₀ : Registry, r₀.Unused auth.pubkey →
          s₁.registry = { r₀ with clock := createdAt } → R r₀.clock createdAt →
          Step rules R job r₀ p.1.registry)
        (s₁, calls₁)) :
    Prog.wp (traced signing R) (startWith record success auth data) (Refines rules R job s)
      (s, calls) := by
  unfold startWith
  dsimp only
  refine Prog.wp_then checkKeyReuse_spec ?_
  rintro reused ⟨s₁, calls₁⟩ ⟨rfl, unused⟩
  split
  · exact (Quiet.refl s₁).step
  next fresh =>
    have unused := unused (by simpa using fresh)
    refine Prog.wp_then getAuthenticatedSessions_spec ?_
    rintro found ⟨s₂, calls₂⟩ quiet
    split
    · exact quiet.step
    rw [wp_now]
    intro createdAt later
    have same : ({ s₂ with clock := createdAt } : State).registry =
        { s₁.registry with clock := createdAt } := by
      have quiet' : Quiet R s₁ { s₂ with clock := createdAt } :=
        quiet.trans ⟨rfl, rfl, rfl, rfl, later⟩
      exact quiet'.registry
    have stillUnused : ({ s₂ with clock := createdAt } : State).registry.Unused auth.pubkey := by
      rw [same]
      exact ⟨unused.1, unused.2, unused.3⟩
    refine Prog.wp_unit (recorded _ _ _ _ stillUnused) ?_
    rintro ⟨s₃, calls₃⟩ step
    exact step s₁.registry unused same (trans_of R quiet.later later)

theorem handleLoginStart_refines {auth : NostrAuth} {data : StartRequest Auth} :
    Prog.wp (traced signing R) (handleLoginStart auth data)
      (Refines rules R (.request (some auth) (.body (.loginStart data))) s) (s, calls) := by
  refine startWith_refines ?_
  intro s₁ calls₁ createdAt clients unused
  rw [Coll.set, Prog.op_eq, wp_set]
  refine ⟨rfl, fun r₀ unused₀ same later => ?_⟩
  have logins : s₁.logins = r₀.logins := congrArg Registry.logins same
  refine (@Step.loginStart _ _ _ _ _ _ clients _ unused₀ later).of_eq ?_
  rw [← logins]
  exact congrArg (fun r : Registry =>
    { r with logins := s₁.logins.set auth.pubkey { createdAt, clients } }) same

theorem handleRecoveryStart_refines {auth : NostrAuth} {data : StartRequest Auth} :
    Prog.wp (traced signing R) (handleRecoveryStart auth data)
      (Refines rules R (.request (some auth) (.body (.recoveryStart data))) s) (s, calls) := by
  refine startWith_refines ?_
  intro s₁ calls₁ createdAt clients unused
  rw [Coll.set, Prog.op_eq, wp_set]
  refine ⟨rfl, fun r₀ unused₀ same later => ?_⟩
  have recoveries : s₁.recoveries = r₀.recoveries := congrArg Registry.recoveries same
  refine (@Step.recoveryStart _ _ _ _ _ _ clients _ unused₀ later).of_eq ?_
  rw [← recoveries]
  exact congrArg (fun r : Registry =>
    { r with recoveries := s₁.recoveries.set auth.pubkey { createdAt, clients } }) same

theorem handleRecoverySelect_refines {auth : NostrAuth} {data : SelectRequest} :
    Prog.wp (traced signing R) (handleRecoverySelect auth data)
      (Refines rules R (.request (some auth) (.body (.recoverySelect data)) : Job A) s)
      (s, calls) := by
  unfold handleRecoverySelect
  dsimp only
  rw [wp_get]
  cases (s.table recoveries).get auth.pubkey with
  | none => exact (Quiet.refl s).step
  | some recovery =>
    dsimp only
    rw [wp_delete]
    split
    · exact .recoverySelect
    rw [wp_get]
    split
    · exact .recoverySelect
    · exact .recoverySelect

theorem handleLoginSelect_refines {auth : NostrAuth} {data : SelectRequest} :
    Prog.wp (traced signing R) (handleLoginSelect auth data)
      (Refines rules R (.request (some auth) (.body (.loginSelect data)) : Job A) s)
      (s, calls) := by
  unfold handleLoginSelect
  dsimp only
  rw [wp_get]
  cases opened : (s.table logins).get auth.pubkey with
  | none => exact (Quiet.refl s).step
  | some login =>
    dsimp only
    rw [wp_delete]
    split
    · exact .loginDrop
    next chosen =>
    rw [wp_get]
    cases stored : s.sessions.get data.client with
    | none =>
      simp only [State.setTable, State.table, stored]
      exact .loginDrop
    | some session =>
      simp only [State.setTable, State.table, stored]
      rw [wp_now]
      intro t₁ first
      rw [wp_now]
      intro t₂ second
      refine Prog.wp_unit addSession_spec ?_
      rintro ⟨s₂, calls₂⟩ same
      exact (Step.loginSelect opened (not_not.mp chosen) stored first second).of_eq same

/-- Writing back the session of an active client, after a quiet stretch. -/
theorem Quiet.touch {auth : NostrAuth} {body : Body A} {session : SignerSession} {s₁ : State}
    {t : Nat} (quiet : Quiet R s s₁) (uses : body.UsesShare)
    (stored : s.sessions.get auth.pubkey = some session) (active : session.deactivatedAt = none)
    (later : R s₁.clock t) :
    Step rules R (.request (some auth) (.body body)) s.registry
      ({ s₁ with
        sessions := s₁.sessions.set auth.pubkey { session with lastActivity := t }
        clock := t } : State).registry := by
  refine (Step.touch uses stored active (trans_of R quiet.later later)).of_eq ?_
  simp only [State.registry, Registry.putSession, quiet.sessions, quiet.index, quiet.logins,
    quiet.recoveries]

theorem handleSignCommit_quiet [Sha2] {auth : NostrAuth} {data : SignCommitRequest} :
    Prog.wp (traced signing R) (handleSignCommit Pt auth data) (fun _ p => Quiet R s p.1)
      (s, calls) := by
  unfold handleSignCommit
  dsimp only
  rw [wp_get]
  cases (s.table sessions).get auth.pubkey with
  | none => exact .refl s
  | some session =>
    dsimp only
    split
    · exact .refl s
    refine Prog.wp_then checkAndRecordRateLimit_spec ?_
    rintro admitted ⟨s₁, calls₁⟩ quiet
    split
    · exact quiet
    split
    · exact quiet
    cases decode32 session.share.seckey with
    | none => exact quiet
    | some seckey =>
      dsimp only
      rw [wp_randomBytes32]
      intro binderSeed
      rw [wp_randomBytes32]
      intro hiddenSeed
      refine wp_ofResult ?_ ?_ quiet
      · intro pkg _
        dsimp only
        refine Prog.wp_then randomCommitId_spec ?_
        rintro commitId ⟨s₂, calls₂⟩ rfl
        rw [wp_now]
        intro createdAt later
        rw [wp_pushCommit]
        -- A pushed commitment is no part of the registry, and it stays also when the answer fails.
        have pushed : Quiet R s ({ s₂ with
            commitsByClient := s₂.commitsByClient.set auth.pubkey (s₂.pending auth.pubkey ++
              [{ commitId, members := data.members, secret := pkg.secretNonce, createdAt }])
            clock := createdAt } : State) :=
          quiet.trans ⟨rfl, rfl, rfl, rfl, later⟩
        refine wp_ofResult ?_ ?_ pushed
        · intro pubkey _
          exact pushed
        · intro e _
          exact pushed
      · intro e _
        exact quiet

theorem handleSignComplete_refines [Sha2] {auth : NostrAuth} {data : SignCompleteRequest} :
    Prog.wp (traced signing R) (handleSignComplete Pt auth data)
      (Refines rules R (.request (some auth) (.body (.signComplete data)) : Job A) s)
      (s, calls) := by
  unfold handleSignComplete
  dsimp only
  rw [wp_get]
  cases stored : (s.table sessions).get auth.pubkey with
  | none => exact (Quiet.refl s).step
  | some session =>
    dsimp only
    split
    · exact (Quiet.refl s).step
    next active =>
      refine Prog.wp_then checkAndRecordRateLimit_spec ?_
      rintro admitted ⟨s₁, calls₁⟩ limited
      split
      · exact limited.step
      rw [takeCommit, wp_takePending]
      -- Nor is a taken one: the session is touched only when the signature is made.
      have quiet := limited.trans
        (quiet_takeCommit s₁ swapRemove auth.pubkey data.commitId)
      cases (s₁.takeCommit swapRemove auth.pubkey data.commitId).1 with
      | none => exact quiet.step
      | some entry =>
        dsimp only
        split
        · exact quiet.step
        split
        · exact quiet.step
        refine wp_ofResult ?_ ?_ quiet.step
        · intro own _
          cases own with
          | false => exact quiet.step
          | true =>
            dsimp only
            split
            · exact quiet.step
            rw [wp_sign]
            refine wp_ofResult ?_ ?_ quiet.step
            · intro result _
              dsimp only
              rw [wp_now]
              intro t later
              rw [wp_set]
              exact quiet.touch trivial stored (Option.not_isSome_iff_eq_none.mp active) later
            · intro e _
              exact quiet.step
        · intro e _
          exact quiet.step

theorem handleEcdh_refines {auth : NostrAuth} {data : EcdhRequest} :
    Prog.wp (traced signing R) (handleEcdh Pt auth data)
      (Refines rules R (.request (some auth) (.body (.ecdh data)) : Job A) s) (s, calls) := by
  unfold handleEcdh
  dsimp only
  rw [wp_get]
  cases stored : (s.table sessions).get auth.pubkey with
  | none => exact (Quiet.refl s).step
  | some session =>
    dsimp only
    split
    · exact (Quiet.refl s).step
    next active =>
      refine Prog.wp_then checkAndRecordRateLimit_spec ?_
      rintro admitted ⟨s₁, calls₁⟩ quiet
      split
      · exact quiet.step
      split
      · exact quiet.step
      refine wp_ofResult ?_ ?_ quiet.step
      · intro result _
        dsimp only
        rw [wp_now]
        intro t later
        rw [wp_set]
        exact quiet.touch trivial stored (Option.not_isSome_iff_eq_none.mp active) later
      · intro e _
        exact quiet.step

theorem handleSessionList_quiet {auth : NostrAuth} :
    Prog.wp (traced signing R) (handleSessionList auth) (fun _ p => Quiet R s p.1)
      (s, calls) := by
  unfold handleSessionList
  rw [wp_entries]
  exact .refl s

theorem handleSessionDeactivate_refines {auth : NostrAuth} {data : SelectRequest} :
    Prog.wp (traced signing R) (handleSessionDeactivate auth data)
      (Refines rules R (.request (some auth) (.body (.sessionDeactivate data)) : Job A) s)
      (s, calls) := by
  unfold handleSessionDeactivate
  rw [wp_get]
  cases (s.table sessions).get data.client with
  | none => exact (Quiet.refl s).step
  | some session =>
    dsimp only
    split
    · refine Prog.wp_unit deactivateSession_spec ?_
      rintro ⟨s₁, calls₁⟩ (rfl | ⟨session', t, stored, later, same⟩)
      · exact (Quiet.refl s₁).step
      · exact (Step.deactivate stored later).of_eq same
    · exact (Quiet.refl s).step

theorem handleSessionDelete_refines {auth : NostrAuth} {data : SelectRequest} :
    Prog.wp (traced signing R) (handleSessionDelete auth data)
      (Refines rules R (.request (some auth) (.body (.sessionDelete data)) : Job A) s)
      (s, calls) := by
  unfold handleSessionDelete
  rw [wp_get]
  cases (s.table sessions).get data.client with
  | none => exact (Quiet.refl s).step
  | some session =>
    dsimp only
    split
    · refine Prog.wp_unit deleteSession_spec ?_
      rintro ⟨s₁, calls₁⟩ same
      exact Step.remove.of_eq same
    · exact (Quiet.refl s).step

end Handlers

end Pomade.Signer
