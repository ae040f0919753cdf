import Pomade.Go.Handlers
import Pomade.Signer.Footprint

/-! # Footprints, Go signer

As for the Rust signer: which collections a handler may write, and that none but
`handleLoginStart` and `handleRecoveryStart` reads a one-time password.
-/

namespace Pomade.Go

open Pomade.Lib Pomade.Frost Pomade.Signer Pomade.Signer.Coll

/-! ## Helpers -/

section Helpers

variable {writes : List Coll}

theorem within_isRateLimited (bucket : Option RateLimitBucket) (config : RateLimitConfig) :
    (isRateLimited bucket config).Only (Op.Within writes) := by
  cases bucket with
  | none => trivial
  | some bucket => exact ⟨trivial, fun _ => trivial⟩

theorem within_recordAttempt (bucket : Option RateLimitBucket) (config : RateLimitConfig) :
    (recordAttempt bucket config).Only (Op.Within writes) :=
  ⟨trivial, fun _ => trivial⟩

/-- Recording an attempt in the bucket of an email hash. -/
theorem within_recordEmail {α : Type} (bucket_ : rateLimitByEmailHash ∈ writes)
    (bucket : Option RateLimitBucket) (emailHash : Str) {rest : SignerProg α}
    (within : rest.Only (Op.Within writes)) :
    (do
      let attempt ← recordAttempt bucket emailRateLimits
      rateLimitByEmailHash.set emailHash attempt
      rest).Only (Op.Within writes) :=
  (within_recordAttempt _ _).bind fun _ => ⟨bucket_, fun _ => within⟩

theorem within_checkAndRecordRateLimit (bucket_ : rateLimitByClient ∈ writes) (client : Str) :
    (checkAndRecordRateLimit client).Only (Op.Within writes) := by
  unfold checkAndRecordRateLimit
  rw [Prog.only_op_bind]
  refine ⟨nofun, fun bucket => (within_isRateLimited bucket _).bind fun limited => ?_⟩
  split
  · trivial
  · exact (within_recordAttempt bucket _).bind fun _ => ⟨bucket_, fun _ => trivial⟩

theorem within_passwordSessions (passwordHash : Str) (clients : List Str) :
    (passwordSessions passwordHash clients).Only (Op.Within writes) := by
  refine Prog.only_filterMap (fun client => ?_) _
  rw [Prog.only_op_bind]
  refine ⟨nofun, fun session => ?_⟩
  cases session with
  | none => trivial
  | some session =>
    dsimp only
    split <;> trivial

theorem within_clientSessions (clients : List Str) :
    (clientSessions clients).Only (Op.Within writes) :=
  Prog.only_filterMap (fun _ => Prog.only_op.mpr nofun) _

theorem within_challengeRecipient (emailHash : Str) :
    (challengeRecipient emailHash).Only (Op.Within writes) := by
  unfold challengeRecipient
  rw [Prog.only_op_bind]
  refine ⟨nofun, fun index => ?_⟩
  cases index with
  | none => trivial
  | some index =>
    dsimp only
    split
    · trivial
    · rw [Prog.only_op_bind]
      refine ⟨nofun, fun session => ?_⟩
      cases session <;> trivial

end Helpers

/-! ## Handlers -/

section Handlers

variable [FrostTaproot] {options : SignerOptions}

theorem within_handleRegister (auth : NostrAuth) (data : RegisterRequest) :
    (handleRegister options auth data).Only (Op.Within sessionWrites) := by
  unfold handleRegister
  refine (within_checkKeyReuse _).bind fun reused => ?_
  dsimp only
  split
  · trivial
  split
  · trivial
  split
  · trivial
  split
  · trivial
  split
  · trivial
  split
  · trivial
  split
  · trivial
  rw [Prog.only_op_bind]
  refine ⟨nofun, fun session => ?_⟩
  split
  · trivial
  refine ⟨trivial, fun createdAt => ⟨trivial, fun lastActivity => ?_⟩⟩
  exact (within_addSession (by decide) (by decide) _ _).bind fun _ => trivial

omit [FrostTaproot] in
theorem within_handleRecoverySetup [Argon2] (auth : NostrAuth) (data : RecoverySetupRequest) :
    (handleRecoverySetup options auth data).Only (Op.Within sessionWrites) := by
  unfold handleRecoverySetup
  dsimp only
  rw [Prog.only_op_bind]
  refine ⟨nofun, fun session => ?_⟩
  cases session with
  | none => trivial
  | some session =>
    dsimp only
    split
    · trivial
    rw [Prog.only_op_bind]
    refine ⟨trivial, fun time => ?_⟩
    split
    · trivial
    split
    · trivial
    split
    · trivial
    refine ⟨trivial, fun lastActivity => ?_⟩
    exact (within_addSession (by decide) (by decide) _ _).bind fun _ => trivial

omit [FrostTaproot] in
theorem within_handleChallenge (data : ChallengeRequest) :
    (handleChallenge options data).Only (Op.Within [rateLimitByEmailHash, challenges]) := by
  unfold handleChallenge
  split
  · trivial
  rw [Prog.only_op_bind]
  refine ⟨nofun, fun bucket => (within_isRateLimited bucket _).bind fun limited => ?_⟩
  split
  · trivial
  refine within_recordEmail (by decide) _ _ ((within_challengeRecipient _).bind fun recipient => ?_)
  cases recipient with
  | none => trivial
  | some email =>
    refine ⟨trivial, fun n => ⟨trivial, fun createdAt => ⟨within_set (by decide), fun _ => ?_⟩⟩⟩
    split
    · exact ⟨trivial, fun _ => trivial⟩
    · trivial

omit [FrostTaproot] in
theorem within_handleRecoverySelect (auth : NostrAuth) (data : SelectRequest) :
    (handleRecoverySelect auth data).Only (Op.Within [recoveries]) :=
  Signer.within_handleRecoverySelect auth data

omit [FrostTaproot] in
theorem within_handleLoginSelect (auth : NostrAuth) (data : SelectRequest) :
    (handleLoginSelect auth data).Only (Op.Within (logins :: sessionWrites)) :=
  Signer.within_handleLoginSelect auth data

omit [FrostTaproot] in
theorem within_handleSessionDeactivate (auth : NostrAuth) (data : SelectRequest) :
    (handleSessionDeactivate auth data).Only (Op.Within [sessions]) := by
  unfold handleSessionDeactivate
  rw [Prog.only_op_bind]
  refine ⟨nofun, fun session => ?_⟩
  cases session with
  | none => trivial
  | some session =>
    dsimp only
    split
    · exact (within_deactivateSession (by decide) _).bind fun _ => trivial
    · trivial

omit [FrostTaproot] in
theorem within_handleSessionDelete (auth : NostrAuth) (data : SelectRequest) :
    (handleSessionDelete auth data).Only (Op.Within sessionWrites) := by
  unfold handleSessionDelete
  rw [Prog.only_op_bind]
  refine ⟨nofun, fun session => ?_⟩
  cases session with
  | none => trivial
  | some session =>
    dsimp only
    split
    · exact (within_deleteSession (by decide) (by decide) _).bind fun _ => trivial
    · trivial

omit [FrostTaproot] in
theorem within_handleSessionList (auth : NostrAuth) :
    (handleSessionList auth).Only (Op.Within []) :=
  ⟨trivial, fun _ => trivial⟩

theorem within_handleEcdh (auth : NostrAuth) (data : EcdhRequest) :
    (handleEcdh auth data).Only (Op.Within shareWrites) := by
  unfold handleEcdh
  dsimp only
  rw [Prog.only_op_bind]
  refine ⟨nofun, fun session => ?_⟩
  cases session with
  | none => trivial
  | some session =>
    dsimp only
    split
    · trivial
    refine (within_checkAndRecordRateLimit (by decide) _).bind fun admitted => ?_
    split
    · trivial
    split
    · trivial
    split
    · trivial
    refine (only_ofResult _).bind fun result => ?_
    cases result with
    | error e => trivial
    | ok result => exact ⟨trivial, fun _ => ⟨within_set (by decide), fun _ => trivial⟩⟩

theorem within_handleSignCommit (auth : NostrAuth) (data : SignCommitRequest) :
    (handleSignCommit auth data).Only (Op.Within shareWrites) := by
  unfold handleSignCommit
  dsimp only
  rw [Prog.only_op_bind]
  refine ⟨nofun, fun session => ?_⟩
  cases session with
  | none => trivial
  | some session =>
    dsimp only
    split
    · trivial
    refine (within_checkAndRecordRateLimit (by decide) _).bind fun admitted => ?_
    split
    · trivial
    split
    · trivial
    split
    · trivial
    cases decodeHex32 session.share.seckey with
    | none => trivial
    | some seckey =>
      refine ⟨trivial, fun binderSeed => ⟨trivial, fun hiddenSeed => ⟨trivial, fun createdAt => ?_⟩⟩⟩
      refine ⟨trivial, fun commitId => ⟨trivial, fun _ => ⟨trivial, fun lastActivity => ?_⟩⟩⟩
      exact ⟨within_set (by decide), fun _ => trivial⟩

theorem within_handleSignComplete [Sha2] (auth : NostrAuth) (data : SignCompleteRequest) :
    (handleSignComplete auth data).Only (Op.Within shareWrites) := by
  unfold handleSignComplete
  dsimp only
  rw [Prog.only_op_bind]
  refine ⟨nofun, fun session => ?_⟩
  cases session with
  | none => trivial
  | some session =>
    dsimp only
    split
    · trivial
    refine (within_checkAndRecordRateLimit (by decide) _).bind fun admitted => ?_
    split
    · trivial
    split
    · trivial
    rw [Prog.only_op_bind]
    refine ⟨trivial, fun taken => ?_⟩
    cases taken with
    | none => trivial
    | some entry =>
      dsimp only
      split
      · trivial
      split
      · trivial
      split
      · trivial
      split
      · trivial
      refine ⟨trivial, fun outcome => (only_ofResult _).bind fun result => ?_⟩
      cases result with
      | error e => trivial
      | ok result => exact ⟨trivial, fun _ => ⟨within_set (by decide), fun _ => trivial⟩⟩

end Handlers

/-! ## Cleanup -/

section Cleanup

variable {writes : List Coll}

theorem within_sweep {c : Coll} (swept : c ∈ writes) (expired : c.Val → Bool) :
    (sweep c expired).Only (Op.Within writes) := by
  unfold sweep
  rw [Prog.only_op_bind]
  refine ⟨trivial, fun all => Prog.only_forEach (fun entry => ?_) all⟩
  split
  · exact ⟨swept, fun _ => trivial⟩
  · trivial

theorem within_sweepBuckets {c : Coll} (swept : c ∈ writes) (lastAttempt : c.Val → Nat)
    (config : RateLimitConfig) :
    (sweepBuckets c lastAttempt config).Only (Op.Within writes) := by
  unfold sweepBuckets
  rw [Prog.only_op_bind]
  refine ⟨trivial, fun all => Prog.only_forEach (fun entry => ?_) all⟩
  rw [Prog.only_op_bind]
  refine ⟨trivial, fun time => ?_⟩
  split
  · exact ⟨swept, fun _ => trivial⟩
  · trivial

theorem within_sweepSessions (session_ : sessions ∈ writes) (index_ : sessionsByEmailHash ∈ writes)
    (cutoffMonth : Nat) : (sweepSessions cutoffMonth).Only (Op.Within writes) := by
  unfold sweepSessions
  rw [Prog.only_op_bind]
  refine ⟨trivial, fun all => Prog.only_forEach (fun entry => ?_) all⟩
  split
  · exact within_deleteSession session_ index_ _
  · trivial

theorem within_cleanup : cleanup.Only (Op.Within (sessionsByEmailHash :: cleanupWrites)) := by
  unfold cleanup
  rw [Prog.only_op_bind]
  refine ⟨trivial, fun time15m => ?_⟩
  dsimp only
  rw [Prog.only_op_bind]
  refine ⟨trivial, fun timeMonth => ?_⟩
  refine (within_sweep (by decide) _).bind fun _ => ?_
  refine (within_sweep (by decide) _).bind fun _ => ?_
  refine (within_sweep (by decide) _).bind fun _ => ?_
  refine (within_sweepBuckets (by decide) _ _).bind fun _ => ?_
  refine (within_sweepBuckets (by decide) _ _).bind fun _ => ?_
  refine (within_sweepSessions (by decide) (by decide) _).bind fun _ => ?_
  exact ⟨trivial, fun _ => ⟨trivial, fun _ => trivial⟩⟩

end Cleanup

end Pomade.Go
