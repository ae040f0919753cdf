import Pomade.Signer.Handlers

/-! # Footprints

Which collections a handler may write.  The footprint of every handler but
`handle_login_start` and `handle_recovery_start` also says that it reads no one-time
password.
-/

namespace Pomade.Signer

open Pomade.Lib Pomade.Frost Coll

/-- The call writes none but the given collections and reads no one-time password. -/
def Op.Within (writes : List Coll) : Op → Prop
  | .get c _ => c ≠ .challenges
  | .set c _ _ => c ∈ writes
  | .delete c _ => c ∈ writes
  | _ => True

/-- The same of a call that has nothing to do with commitments. -/
def Op.Plain (writes : List Coll) : Op → Prop
  | .get c _ => c ≠ .challenges
  | .set c _ _ => c ∈ writes
  | .delete c _ => c ∈ writes
  | .entries _ | .mapEntries _ | .now | .randomBytes32 | .randomU32 | .sendMail _ _ => True
  | .pushCommit _ _ | .takeCommit _ _ | .takeCommitInOrder _ _ | .reapCommits _ | .sign _ => False

theorem Op.Plain.within {writes : List Coll} (o : Op) (plain : o.Plain writes) : o.Within writes := by
  cases o <;> first | exact plain | trivial

/-! ## Helpers -/

section Helpers

variable {writes : List Coll}

theorem plain_set {c : Coll} {key : Str} {value : c.Val} (written : c ∈ writes) :
    (Op.set c key value).Plain writes := written

theorem within_set {c : Coll} {key : Str} {value : c.Val} (written : c ∈ writes) :
    (Op.set c key value).Within writes := written

theorem plain_delete {c : Coll} {key : Str} (written : c ∈ writes) :
    (Op.delete c key).Plain writes := written

theorem only_ofResult {α : Type} {P : Op → Prop} (result : Result α) : (ofResult result).Only P := by
  match result with
  | .ok _ => trivial
  | .error (.err _) => trivial
  | .error (.panic _) => trivial

theorem plain_checkKeyReuse (client : Str) : (checkKeyReuse client).Only (Op.Plain writes) := by
  unfold checkKeyReuse
  rw [Prog.only_op_bind]
  refine ⟨nofun, fun session => ?_⟩
  split
  · trivial
  rw [Prog.only_op_bind]
  refine ⟨nofun, fun recovery => ?_⟩
  split
  · trivial
  rw [Prog.only_op_bind]
  refine ⟨nofun, fun login => ?_⟩
  split <;> trivial

theorem within_checkKeyReuse (client : Str) : (checkKeyReuse client).Only (Op.Within writes) :=
  (plain_checkKeyReuse client).mono Op.Plain.within

theorem plain_addSession (session_ : sessions ∈ writes) (index_ : sessionsByEmailHash ∈ writes)
    (client : Str) (session : SignerSession) :
    (addSession client session).Only (Op.Plain writes) := by
  refine ⟨session_, fun _ => ?_⟩
  cases session.emailHash with
  | none => trivial
  | some emailHash => exact ⟨nofun, fun _ => ⟨index_, fun _ => trivial⟩⟩

theorem within_addSession (session_ : sessions ∈ writes) (index_ : sessionsByEmailHash ∈ writes)
    (client : Str) (session : SignerSession) :
    (addSession client session).Only (Op.Within writes) :=
  (plain_addSession session_ index_ client session).mono Op.Plain.within

theorem plain_removeFromIndex (index_ : sessionsByEmailHash ∈ writes) (client emailHash : Str) :
    (removeFromIndex client emailHash).Only (Op.Plain writes) := by
  unfold removeFromIndex
  rw [Prog.only_op_bind]
  refine ⟨nofun, fun index => ?_⟩
  cases index with
  | none => trivial
  | some index =>
    dsimp only
    split
    · exact ⟨index_, fun _ => trivial⟩
    · exact ⟨index_, fun _ => trivial⟩

theorem within_removeFromIndex (index_ : sessionsByEmailHash ∈ writes) (client emailHash : Str) :
    (removeFromIndex client emailHash).Only (Op.Within writes) :=
  (plain_removeFromIndex index_ client emailHash).mono Op.Plain.within

theorem plain_deleteSession (session_ : sessions ∈ writes) (index_ : sessionsByEmailHash ∈ writes)
    (client : Str) : (deleteSession client).Only (Op.Plain writes) := by
  unfold deleteSession
  rw [Prog.only_op_bind]
  refine ⟨nofun, fun session => ?_⟩
  cases session with
  | none => trivial
  | some session =>
    dsimp only
    split
    · exact (plain_removeFromIndex index_ _ _).bind fun _ => ⟨session_, fun _ => trivial⟩
    · exact ⟨session_, fun _ => trivial⟩

theorem within_deleteSession (session_ : sessions ∈ writes) (index_ : sessionsByEmailHash ∈ writes)
    (client : Str) : (deleteSession client).Only (Op.Within writes) :=
  (plain_deleteSession session_ index_ client).mono Op.Plain.within

theorem plain_deactivateSession (session_ : sessions ∈ writes) (client : Str) :
    (deactivateSession client).Only (Op.Plain writes) := by
  unfold deactivateSession
  rw [Prog.only_op_bind]
  refine ⟨nofun, fun session => ?_⟩
  cases session with
  | none => trivial
  | some session => exact ⟨trivial, fun _ => ⟨session_, fun _ => trivial⟩⟩

theorem within_deactivateSession (session_ : sessions ∈ writes) (client : Str) :
    (deactivateSession client).Only (Op.Within writes) :=
  (plain_deactivateSession session_ client).mono Op.Plain.within

theorem plain_isRateLimited (bucket : Option RateLimitBucket) (config : RateLimitConfig) :
    (isRateLimited bucket config).Only (Op.Plain writes) := by
  cases bucket with
  | none => trivial
  | some bucket => exact ⟨trivial, fun _ => trivial⟩

theorem within_isRateLimited (bucket : Option RateLimitBucket) (config : RateLimitConfig) :
    (isRateLimited bucket config).Only (Op.Within writes) :=
  (plain_isRateLimited bucket config).mono Op.Plain.within

theorem plain_recordAttempt (bucket : Option RateLimitBucket) (config : RateLimitConfig) :
    (recordAttempt bucket config).Only (Op.Plain writes) :=
  ⟨trivial, fun _ => trivial⟩

theorem within_recordAttempt (bucket : Option RateLimitBucket) (config : RateLimitConfig) :
    (recordAttempt bucket config).Only (Op.Within writes) :=
  (plain_recordAttempt bucket config).mono Op.Plain.within

theorem plain_checkAndRecordRateLimit (bucket_ : rateLimitByClient ∈ writes) (client : Str) :
    (checkAndRecordRateLimit client).Only (Op.Plain writes) := by
  unfold checkAndRecordRateLimit
  rw [Prog.only_op_bind]
  refine ⟨nofun, fun bucket => (plain_isRateLimited bucket _).bind fun limited => ?_⟩
  split
  · trivial
  · exact (plain_recordAttempt bucket _).bind fun _ => ⟨bucket_, fun _ => trivial⟩

theorem within_checkAndRecordRateLimit (bucket_ : rateLimitByClient ∈ writes) (client : Str) :
    (checkAndRecordRateLimit client).Only (Op.Within writes) :=
  (plain_checkAndRecordRateLimit bucket_ client).mono Op.Plain.within

theorem plain_indexedSessions (index : SessionIndex) :
    (indexedSessions index).Only (Op.Plain writes) :=
  Prog.only_filterMap (fun _ => Prog.only_op.mpr nofun) _

theorem within_indexedSessions (index : SessionIndex) :
    (indexedSessions index).Only (Op.Within writes) :=
  (plain_indexedSessions index).mono Op.Plain.within

theorem plain_challengeRecipient (emailHash : Str) :
    (challengeRecipient emailHash).Only (Op.Plain writes) := by
  unfold challengeRecipient
  rw [Prog.only_op_bind]
  refine ⟨nofun, fun index => ?_⟩
  cases index with
  | none => trivial
  | some index =>
    dsimp only
    split
    · trivial
    · rw [Prog.only_op_bind]
      refine ⟨nofun, fun session => ?_⟩
      cases session <;> trivial

theorem within_challengeRecipient (emailHash : Str) :
    (challengeRecipient emailHash).Only (Op.Within writes) :=
  (plain_challengeRecipient emailHash).mono Op.Plain.within

end Helpers

/-! ## Handlers -/

section Handlers

variable {Pt : Type} [AddCommGroup Pt] [Module Scalar Pt] [Curve Pt]
variable {options : SignerOptions}

/-- The collections that adding and deleting a session writes. -/
abbrev sessionWrites : List Coll := [sessions, sessionsByEmailHash]

theorem plain_handleRegister (auth : NostrAuth) (data : RegisterRequest) :
    (handleRegister Pt options auth data).Only (Op.Plain sessionWrites) := by
  unfold handleRegister
  refine (plain_checkKeyReuse _).bind fun reused => ?_
  dsimp only
  split
  · trivial
  split
  · trivial
  split
  · trivial
  refine (only_ofResult _).bind fun member => ?_
  split
  · split
    · trivial
    split
    · trivial
    rw [Prog.only_op_bind]
    refine ⟨nofun, fun session => ?_⟩
    split
    · trivial
    refine ⟨trivial, fun createdAt => ⟨trivial, fun lastActivity => ?_⟩⟩
    exact (plain_addSession (by decide) (by decide) _ _).bind fun _ => trivial
  · trivial

theorem within_handleRegister (auth : NostrAuth) (data : RegisterRequest) :
    (handleRegister Pt options auth data).Only (Op.Within sessionWrites) :=
  (plain_handleRegister auth data).mono Op.Plain.within

theorem plain_handleRecoverySetup [Argon2] (auth : NostrAuth) (data : RecoverySetupRequest) :
    (handleRecoverySetup options auth data).Only (Op.Plain sessionWrites) := by
  unfold handleRecoverySetup
  dsimp only
  rw [Prog.only_op_bind]
  refine ⟨nofun, fun session => ?_⟩
  cases session with
  | none => trivial
  | some session =>
    dsimp only
    split
    · trivial
    rw [Prog.only_op_bind]
    refine ⟨trivial, fun time => ?_⟩
    split
    · trivial
    split
    · trivial
    split
    · trivial
    split
    swap
    · trivial
    refine ⟨trivial, fun lastActivity => ?_⟩
    exact (plain_addSession (by decide) (by decide) _ _).bind fun _ => trivial

theorem within_handleRecoverySetup [Argon2] (auth : NostrAuth) (data : RecoverySetupRequest) :
    (handleRecoverySetup options auth data).Only (Op.Within sessionWrites) :=
  (plain_handleRecoverySetup auth data).mono Op.Plain.within

theorem plain_handleChallenge (data : ChallengeRequest) :
    (handleChallenge options data).Only (Op.Plain [rateLimitByEmailHash, challenges]) := by
  unfold handleChallenge
  rw [Prog.only_op_bind]
  refine ⟨nofun, fun bucket => (plain_isRateLimited bucket _).bind fun limited => ?_⟩
  split
  · trivial
  refine (plain_challengeRecipient _).bind fun recipient => ?_
  cases recipient with
  | none => trivial
  | some email =>
    refine (plain_recordAttempt bucket _).bind fun attempt => ?_
    refine ⟨plain_set (by decide), fun _ => ⟨trivial, fun suffix => ⟨trivial, fun createdAt => ?_⟩⟩⟩
    refine ⟨plain_set (by decide), fun _ => ?_⟩
    split
    · trivial
    split
    · exact ⟨trivial, fun _ => trivial⟩
    · trivial

theorem within_handleChallenge (data : ChallengeRequest) :
    (handleChallenge options data).Only (Op.Within [rateLimitByEmailHash, challenges]) :=
  (plain_handleChallenge data).mono Op.Plain.within

theorem plain_handleRecoverySelect (auth : NostrAuth) (data : SelectRequest) :
    (handleRecoverySelect auth data).Only (Op.Plain [recoveries]) := by
  unfold handleRecoverySelect
  dsimp only
  rw [Prog.only_op_bind]
  refine ⟨nofun, fun recovery => ?_⟩
  cases recovery with
  | none => trivial
  | some recovery =>
    dsimp only
    rw [Prog.only_op_bind]
    refine ⟨plain_delete (by decide), fun _ => ?_⟩
    split
    · trivial
    rw [Prog.only_op_bind]
    refine ⟨nofun, fun session => ?_⟩
    cases session <;> trivial

theorem within_handleRecoverySelect (auth : NostrAuth) (data : SelectRequest) :
    (handleRecoverySelect auth data).Only (Op.Within [recoveries]) :=
  (plain_handleRecoverySelect auth data).mono Op.Plain.within

theorem plain_handleLoginSelect (auth : NostrAuth) (data : SelectRequest) :
    (handleLoginSelect auth data).Only (Op.Plain (logins :: sessionWrites)) := by
  unfold handleLoginSelect
  dsimp only
  rw [Prog.only_op_bind]
  refine ⟨nofun, fun login => ?_⟩
  cases login with
  | none => trivial
  | some login =>
    dsimp only
    rw [Prog.only_op_bind]
    refine ⟨plain_delete (by decide), fun _ => ?_⟩
    split
    · trivial
    rw [Prog.only_op_bind]
    refine ⟨nofun, fun session => ?_⟩
    cases session with
    | none => trivial
    | some session =>
      refine ⟨trivial, fun createdAt => ⟨trivial, fun lastActivity => ?_⟩⟩
      exact (plain_addSession (by decide) (by decide) _ _).bind fun _ => trivial

theorem within_handleLoginSelect (auth : NostrAuth) (data : SelectRequest) :
    (handleLoginSelect auth data).Only (Op.Within (logins :: sessionWrites)) :=
  (plain_handleLoginSelect auth data).mono Op.Plain.within

theorem plain_handleSessionDeactivate (auth : NostrAuth) (data : SelectRequest) :
    (handleSessionDeactivate auth data).Only (Op.Plain [sessions]) := by
  unfold handleSessionDeactivate
  rw [Prog.only_op_bind]
  refine ⟨nofun, fun session => ?_⟩
  cases session with
  | none => trivial
  | some session =>
    dsimp only
    split
    · exact (plain_deactivateSession (by decide) _).bind fun _ => trivial
    · trivial

theorem within_handleSessionDeactivate (auth : NostrAuth) (data : SelectRequest) :
    (handleSessionDeactivate auth data).Only (Op.Within [sessions]) :=
  (plain_handleSessionDeactivate auth data).mono Op.Plain.within

theorem plain_handleSessionDelete (auth : NostrAuth) (data : SelectRequest) :
    (handleSessionDelete auth data).Only (Op.Plain sessionWrites) := by
  unfold handleSessionDelete
  rw [Prog.only_op_bind]
  refine ⟨nofun, fun session => ?_⟩
  cases session with
  | none => trivial
  | some session =>
    dsimp only
    split
    · exact (plain_deleteSession (by decide) (by decide) _).bind fun _ => trivial
    · trivial

theorem within_handleSessionDelete (auth : NostrAuth) (data : SelectRequest) :
    (handleSessionDelete auth data).Only (Op.Within sessionWrites) :=
  (plain_handleSessionDelete auth data).mono Op.Plain.within

theorem plain_handleSessionList (auth : NostrAuth) :
    (handleSessionList auth).Only (Op.Plain []) :=
  ⟨trivial, fun _ => trivial⟩

theorem within_handleSessionList (auth : NostrAuth) :
    (handleSessionList auth).Only (Op.Within []) :=
  (plain_handleSessionList auth).mono Op.Plain.within

/-! ## Requests that use a share

What these do after the rate limiter has let them through. -/

/-- The collections that a request with a share writes. -/
abbrev shareWrites : List Coll := [rateLimitByClient, sessions]

theorem plain_handleEcdh (auth : NostrAuth) (data : EcdhRequest) :
    (handleEcdh Pt auth data).Only (Op.Plain shareWrites) := by
  unfold handleEcdh
  dsimp only
  rw [Prog.only_op_bind]
  refine ⟨nofun, fun session => ?_⟩
  cases session with
  | none => trivial
  | some session =>
    dsimp only
    split
    · trivial
    refine (plain_checkAndRecordRateLimit (by decide) _).bind fun admitted => ?_
    split
    · trivial
    split
    · trivial
    refine (only_ofResult _).bind fun result => ?_
    cases result with
    | error e => trivial
    | ok result => exact ⟨trivial, fun _ => ⟨plain_set (by decide), fun _ => trivial⟩⟩

theorem within_handleEcdh (auth : NostrAuth) (data : EcdhRequest) :
    (handleEcdh Pt auth data).Only (Op.Within shareWrites) :=
  (plain_handleEcdh auth data).mono Op.Plain.within

theorem within_handleSignComplete [Sha2] (auth : NostrAuth) (data : SignCompleteRequest) :
    (handleSignComplete Pt auth data).Only (Op.Within shareWrites) := by
  unfold handleSignComplete
  dsimp only
  rw [Prog.only_op_bind]
  refine ⟨nofun, fun session => ?_⟩
  cases session with
  | none => trivial
  | some session =>
    dsimp only
    split
    · trivial
    refine (within_checkAndRecordRateLimit (by decide) _).bind fun admitted => ?_
    split
    · trivial
    rw [takeCommit, Prog.only_op_bind]
    refine ⟨trivial, fun taken => ?_⟩
    cases taken with
    | none => trivial
    | some entry =>
      dsimp only
      split
      · trivial
      split
      · trivial
      refine (only_ofResult _).bind fun own => ?_
      split
      · split
        · trivial
        refine ⟨trivial, fun outcome => (only_ofResult _).bind fun result => ?_⟩
        cases result with
        | error e => trivial
        | ok result => exact ⟨trivial, fun _ => ⟨within_set (by decide), fun _ => trivial⟩⟩
      · trivial

theorem within_handleSignCommit [Sha2] (auth : NostrAuth) (data : SignCommitRequest) :
    (handleSignCommit Pt auth data).Only (Op.Within [rateLimitByClient]) := by
  unfold handleSignCommit
  dsimp only
  rw [Prog.only_op_bind]
  refine ⟨nofun, fun session => ?_⟩
  cases session with
  | none => trivial
  | some session =>
    dsimp only
    split
    · trivial
    refine (within_checkAndRecordRateLimit (by decide) _).bind fun admitted => ?_
    split
    · trivial
    split
    · trivial
    cases decode32 session.share.seckey with
    | none => trivial
    | some seckey =>
      refine ⟨trivial, fun binderSeed => ⟨trivial, fun hiddenSeed => ?_⟩⟩
      refine (only_ofResult _).bind fun pkg => ?_
      cases pkg with
      | error e => trivial
      | ok pkg =>
        refine ⟨trivial, fun commitId => ⟨trivial, fun createdAt => ⟨trivial, fun _ => ?_⟩⟩⟩
        refine (only_ofResult _).bind fun pubkey => ?_
        cases pubkey <;> trivial

end Handlers

/-! ## Cleanup -/

section Cleanup

variable {P : Op → Prop}

theorem only_sweep {c : Coll} (reads : P (.entries c)) (deletes : ∀ key, P (.delete c key))
    (expired : c.Val → Bool) : (sweep c expired).Only P := by
  unfold sweep
  rw [Prog.only_op_bind]
  refine ⟨reads, fun all => Prog.only_forEach (fun entry => ?_) all⟩
  split
  · exact ⟨deletes _, fun _ => trivial⟩
  · trivial

theorem only_sweepBuckets {c : Coll} (reads : P (.entries c)) (clock : P .now)
    (deletes : ∀ key, P (.delete c key)) (lastAttempt : c.Val → Nat) (config : RateLimitConfig) :
    (sweepBuckets c lastAttempt config).Only P := by
  unfold sweepBuckets
  rw [Prog.only_op_bind]
  refine ⟨reads, fun all => Prog.only_forEach (fun entry => ?_) all⟩
  rw [Prog.only_op_bind]
  refine ⟨clock, fun time => ?_⟩
  split
  · exact ⟨deletes _, fun _ => trivial⟩
  · trivial

/-- The collections that a cleanup sweeps. -/
abbrev cleanupWrites : List Coll :=
  [recoveries, logins, challenges, rateLimitByEmailHash, rateLimitByClient, sessions]

theorem only_cleanup (reads : ∀ c, P (.entries c)) (clock : P .now)
    (deletes : ∀ c ∈ cleanupWrites, ∀ key, P (.delete c key))
    (reaps : ∀ cutoff, P (.reapCommits cutoff)) : cleanup.Only P := by
  have swept : ∀ {c : Coll} (_ : c ∈ cleanupWrites) (expired : c.Val → Bool),
      (sweep c expired).Only P :=
    fun written => only_sweep (reads _) (deletes _ written)
  have bucketsSwept : ∀ {c : Coll} (_ : c ∈ cleanupWrites) (lastAttempt : c.Val → Nat)
      (config : RateLimitConfig), (sweepBuckets c lastAttempt config).Only P :=
    fun written => only_sweepBuckets (reads _) clock (deletes _ written)
  unfold cleanup
  rw [Prog.only_op_bind]
  refine ⟨clock, fun time15m => ?_⟩
  rw [Prog.only_op_bind]
  refine ⟨clock, fun timeMonth => ?_⟩
  refine (swept (by decide) _).bind fun _ => ?_
  refine (swept (by decide) _).bind fun _ => ?_
  refine (swept (by decide) _).bind fun _ => ?_
  refine (bucketsSwept (by decide) _ _).bind fun _ => ?_
  refine (bucketsSwept (by decide) _ _).bind fun _ => ?_
  exact (swept (by decide) _).bind fun _ => ⟨clock, fun _ => ⟨reaps _, fun _ => trivial⟩⟩

end Cleanup

theorem within_sweep {writes : List Coll} {c : Coll} (swept : c ∈ writes) (expired : c.Val → Bool) :
    (sweep c expired).Only (Op.Within writes) :=
  only_sweep trivial (fun _ => swept) expired

theorem within_sweepBuckets {writes : List Coll} {c : Coll} (swept : c ∈ writes)
    (lastAttempt : c.Val → Nat) (config : RateLimitConfig) :
    (sweepBuckets c lastAttempt config).Only (Op.Within writes) :=
  only_sweepBuckets trivial trivial (fun _ => swept) lastAttempt config

theorem within_cleanup : cleanup.Only (Op.Within cleanupWrites) :=
  only_cleanup (fun _ => trivial) trivial (fun _ written _ => written) fun _ => trivial

end Pomade.Signer
