import Pomade.Go.Footprint
import Pomade.Go.Runs
import Pomade.Signer.OneTime

/-! # One-time passwords are used once, both signers

The Go signer reads and deletes a one-time password with the same two calls, after the
cleanup of its request.
-/

namespace Pomade.Go

open Pomade.Lib Pomade.Frost Pomade.Signer Pomade.Signer.Coll

/-- The pools that the Go signer reaches, if every action satisfies `ok`. -/
abbrev GoPool [FrostTaproot] [Sha2] [Argon2] (options : SignerOptions) (R : Nat → Nat → Prop)
    (ok : SignerPool AuthPayload → SignerAction AuthPayload → Prop) :
    SignerPool AuthPayload → Prop :=
  Pool.Reach (goWorld R) (handle options) (TimePasses R) Opened ok

/-- A password hash takes precedence. -/
def AuthPayload.presents (a : AuthPayload) : Option (Str × Str) :=
  if a.isPassword then none else if a.isOTP then some (a.emailHash, a.otp) else none

/-- The email hash and the one-time password that a request presents. -/
def presents (job : Job AuthPayload) : Option (Str × Str) :=
  job.startAuth.bind AuthPayload.presents

/-! ## What a request does with a password -/

section Threads

variable {seen : List SignerCall}

theorem evaluateAuth_thread (auth : AuthPayload) (index : SessionIndex)
    (settled : holding seen = none) :
    (evaluateAuth auth index).wp (World.thread DeletesNext)
      (fun found seen' => holding seen' = none ∧ FindsSessions auth.presents found seen') seen := by
  unfold evaluateAuth AuthPayload.presents
  split
  · refine Prog.wp_mono ?_ _ _ (wp_within [] (within_passwordSessions _ _) settled)
    intro found seen' continues
    exact ⟨continues.1, .of_none⟩
  split
  · refine wp_takePassword settled (fun _ => rfl) ?_ ?_
    · intro seen' continues
      exact ⟨continues.1, .nil⟩
    · intro challenge seen' continues member
      split
      next same =>
        refine Prog.wp_mono ?_ _ _ (wp_within [] (within_clientSessions _) continues.1)
        rintro found seen'' ⟨settled', longer⟩
        refine ⟨settled', fun sessions _ _ => ?_⟩
        rintro _ _ ⟨⟩
        exact ⟨challenge, longer.subset member, beq_iff_eq.mp same⟩
      · exact ⟨continues.1, .nil⟩
  · exact ⟨settled, .nil⟩

theorem getAuthenticatedSessions_thread (auth : AuthPayload) (settled : holding seen = none) :
    (getAuthenticatedSessions auth).wp (World.thread DeletesNext)
      (fun found seen' => holding seen' = none ∧ FindsSessions auth.presents found seen') seen := by
  unfold getAuthenticatedSessions
  have stopped : ∀ {seen seen' : List SignerCall}, Continues seen seen' →
      holding seen' = none ∧ FindsSessions auth.presents none seen' :=
    fun continues => ⟨continues.1, .stopped⟩
  split
  · exact ⟨settled, .nil⟩
  refine wp_within_bind [] (Prog.only_op.mpr nofun) settled ?_ fun _ => stopped
  intro bucket seen₁ continues
  -- Once no session was found, only the attempt is recorded.
  have records : ∀ {seen : List SignerCall}, holding seen = none →
      (do
        let attempt ← recordAttempt bucket emailRateLimits
        rateLimitByEmailHash.set auth.emailHash attempt
        return [] : SignerProg (List SignerSession)).wp (World.thread DeletesNext)
          (fun found seen' => holding seen' = none ∧ FindsSessions auth.presents found seen') seen := by
    intro seen settled
    refine wp_within_bind [] (within_recordAttempt _ _) settled ?_ fun _ => stopped
    intro attempt seen' continues
    refine wp_within_bind [rateLimitByEmailHash] (Prog.only_op.mpr (within_set (by decide)))
      continues.1 ?_ fun _ => stopped
    intro _ seen'' continues
    exact ⟨continues.1, .nil⟩
  refine wp_within_bind [] (within_isRateLimited bucket _) continues.1 ?_ fun _ => stopped
  intro limited seen₂ continues
  split
  · exact ⟨continues.1, .nil⟩
  refine wp_within_bind [] (Prog.only_op.mpr nofun) continues.1 ?_ fun _ => stopped
  intro index seen₃ continues
  cases index with
  | none => exact records continues.1
  | some index =>
    refine Prog.wp_seq (evaluateAuth_thread auth index continues.1) ?_ ?_
    · rintro items seen₄ ⟨settled, finds⟩
      split
      next empty =>
        have none_ : items = [] := List.isEmpty_iff.mp empty
        subst none_
        exact records settled
      · exact ⟨settled, finds⟩
    · rintro seen₄ ⟨settled, _⟩
      exact ⟨settled, .stopped⟩

theorem handleRecoveryStart_thread (auth : NostrAuth) (data : StartRequest AuthPayload)
    (settled : holding seen = none) :
    (handleRecoveryStart auth data).wp (World.thread DeletesNext)
      (Succeeds data.auth.presents) seen := by
  unfold handleRecoveryStart startWith
  refine wp_start [recoveries] (fun createdAt clients => recoveries.set auth.pubkey { createdAt, clients })
    ?_ ?_ settled
  · intro seen settled
    exact getAuthenticatedSessions_thread data.auth settled
  · intro createdAt clients
    exact Prog.only_op.mpr (within_set (by decide))

theorem handleLoginStart_thread (auth : NostrAuth) (data : StartRequest AuthPayload)
    (settled : holding seen = none) :
    (handleLoginStart auth data).wp (World.thread DeletesNext)
      (Succeeds data.auth.presents) seen := by
  unfold handleLoginStart startWith
  refine wp_start [logins] (fun createdAt clients => logins.set auth.pubkey { createdAt, clients })
    ?_ ?_ settled
  · intro seen settled
    exact getAuthenticatedSessions_thread data.auth settled
  · intro createdAt clients
    exact Prog.only_op.mpr (within_set (by decide))

theorem dispatch_thread [FrostTaproot] [Sha2] [Argon2] (options : SignerOptions)
    (auth : NostrAuth) (body : Body AuthPayload) (settled : holding seen = none) :
    (dispatch options auth body).wp (World.thread DeletesNext)
      (Succeeds (presents (.request (some auth) (.body body)))) seen := by
  cases body with
  | loginStart data => exact handleLoginStart_thread auth data settled
  | recoveryStart data => exact handleRecoveryStart_thread auth data settled
  | challenge data => exact wp_succeeds_of_within _ (within_handleChallenge data) settled
  | ecdh data => exact wp_succeeds_of_within _ (within_handleEcdh auth data) settled
  | loginSelect data => exact wp_succeeds_of_within _ (within_handleLoginSelect auth data) settled
  | recoverySelect data =>
    exact wp_succeeds_of_within _ (within_handleRecoverySelect auth data) settled
  | recoverySetup data =>
    exact wp_succeeds_of_within _ (within_handleRecoverySetup auth data) settled
  | register data => exact wp_succeeds_of_within _ (within_handleRegister auth data) settled
  | sessionDeactivate data =>
    exact wp_succeeds_of_within _ (within_handleSessionDeactivate auth data) settled
  | sessionDelete data =>
    exact wp_succeeds_of_within _ (within_handleSessionDelete auth data) settled
  | sessionList => exact wp_succeeds_of_within _ (within_handleSessionList auth) settled
  | signCommit data => exact wp_succeeds_of_within _ (within_handleSignCommit auth data) settled
  | signComplete data =>
    exact wp_succeeds_of_within _ (within_handleSignComplete auth data) settled

/-- Every request deletes the password it finds next, and succeeds with a password only
if it has found it. -/
theorem handle_thread [FrostTaproot] [Sha2] [Argon2] (options : SignerOptions)
    (job : Job AuthPayload) :
    (handle options job).wp (World.thread DeletesNext) (Succeeds (presents job)) [] := by
  unfold handle
  split
  · exact .refuse
  next auth target =>
    refine wp_within_bind _ within_cleanup rfl ?_ fun _ _ => .stopped
    intro _ seen continues
    cases target with
    | unknown => exact .refuse
    | malformed => exact .refuse
    | body data => exact dispatch_thread options auth data continues.1
  · exact wp_succeeds_of_within _ (within_cleanup.bind fun _ => trivial) rfl

end Threads

/-! ## Single use -/

/-- In every run, of either signer and however its requests interleave, a one-time
password authenticates at most one request, as long as no request finds its password
while another one that has found it is yet to delete it. -/
theorem one_time_password_single_use (Pt : Type) [AddCommGroup Pt] [Module Scalar Pt] [Curve Pt]
    [FrostTaproot] [Sha2] [Argon2] (options : SignerOptions) (R : Nat → Nat → Prop) :
    (∀ p, RustPool Pt options R (OneReader Signer.presents) p → SingleUse Signer.presents p) ∧
      ∀ p, GoPool options R (OneReader presents) p → SingleUse presents p := by
  constructor
  · intro p reach
    exact single_use (Signer.handle_thread Pt options) reach
  · intro p reach
    exact single_use (handle_thread options) reach

/-- No other request succeeds with a password: whoever does is authenticated by a stored
one. -/
theorem ok_authenticates (Pt : Type) [AddCommGroup Pt] [Module Scalar Pt] [Curve Pt]
    [FrostTaproot] [Sha2] [Argon2] (options : SignerOptions) (R : Nat → Nat → Prop) :
    (∀ p ok, RustPool Pt options R ok p → ∀ (tid : Nat) thread response emailHash otp,
      p.threads[tid]? = some thread → answered thread.rest = some response → response.ok = true →
      Signer.presents thread.job = some (emailHash, otp) →
        ∃ place, Authenticates Signer.presents p tid emailHash place) ∧
      ∀ p ok, GoPool options R ok p → ∀ (tid : Nat) thread response emailHash otp,
        p.threads[tid]? = some thread → answered thread.rest = some response →
        response.ok = true → presents thread.job = some (emailHash, otp) →
          ∃ place, Authenticates presents p tid emailHash place := by
  constructor
  · intro p ok reach tid thread response emailHash otp found finished succeeds presented
    exact authenticates_of_ok (Signer.handle_thread Pt options) reach found finished succeeds presented
  · intro p ok reach tid thread response emailHash otp found finished succeeds presented
    exact authenticates_of_ok (handle_thread options) reach found finished succeeds presented

/-! ### Two requests with the same password -/

namespace Sample

open Pomade.Signer.Sample

def challenge : Job AuthPayload :=
  job (clientKey 1) (.challenge { otpPrefix := "12".toList, emailHash })

def otpLogin (auth : NostrAuth) : Job AuthPayload :=
  job auth (.loginStart { auth := { emailHash, passwordHash := [], otp } })

section

attribute [local instance] frost sha2 argon2

/-- The pool after a schedule. -/
def playPool (choices : List (Pool.Choice (Job AuthPayload) Nat Env)) : SignerPool AuthPayload :=
  Pool.play (exec createPsigPkgWithNonce) (handle options)
    (fun time s => { s with clock := time }) choices ⟨State.opened 0, [], []⟩

theorem playPool_reach {R : Nat → Nat → Prop}
    {ok : SignerPool AuthPayload → SignerAction AuthPayload → Prop}
    (choices : List (Pool.Choice (Job AuthPayload) Nat Env))
    (plays : Pool.Plays (exec createPsigPkgWithNonce) (permit R) (handle options)
      (fun time s => R s.clock time) (fun time s => { s with clock := time }) ok choices
      ⟨State.opened 0, [], []⟩) :
    GoPool options R ok (playPool choices) :=
  Pool.Reach.play choices (.start _ ⟨0, rfl⟩) plays

end

end Sample

section Races

open Pomade.Signer.Sample

attribute [local instance] Sample.frost sha2 argon2

/-- Two logins of the Rust signer with the same password; the first has made `count`
calls when the second starts. -/
def rustRace (count : Nat) : List (Pool.Choice (Job Auth) Nat Env) :=
  race (Signer.Sample.register (clientKey 7) [1], Signer.Sample.setup (clientKey 7) Signer.Sample.passwordHash,
    Signer.Sample.challenge "12".toList) (Signer.Sample.otpLogin (clientKey 8))
      (Signer.Sample.otpLogin (clientKey 9)) count 1000

/-- The same for the Go signer, whose cleanup at a time in the first month would find
everything expired. -/
def goRace (count : Nat) : List (Pool.Choice (Job AuthPayload) Nat Env) :=
  race (Sample.register (clientKey 7) (group [1]), Sample.setup (clientKey 7), Sample.challenge)
    (Sample.otpLogin (clientKey 8)) (Sample.otpLogin (clientKey 9)) count 3000000

theorem one_time_password_used_twice :
    (¬ ∀ p, RustPool Scalar options (· ≤ ·) (fun _ _ => True) p →
      SingleUse Signer.presents p) ∧
    ¬ ∀ p, GoPool options (· ≤ ·) (fun _ _ => True) p → SingleUse presents p := by
  constructor
  · intro single
    have reach : RustPool Scalar options (· ≤ ·) (fun _ _ => True)
        (Signer.Sample.playPool (rustRace 7)) :=
      Signer.Sample.playPool_reach _ (by decide +kernel)
    have second : Authenticates Signer.presents (Signer.Sample.playPool (rustRace 7)) 4 emailHash 20 :=
      .of_getElem 8 (by decide +kernel) (by decide +kernel)
    have first : Authenticates Signer.presents (Signer.Sample.playPool (rustRace 7)) 3 emailHash 20 :=
      .of_getElem 15 (by decide +kernel) (by decide +kernel)
    exact absurd (single _ reach emailHash 20 4 3 second first) (by decide)
  · intro single
    have reach : GoPool options (· ≤ ·) (fun _ _ => True) (Sample.playPool (goRace 18)) :=
      Sample.playPool_reach _ (by decide +kernel)
    have second : Authenticates presents (Sample.playPool (goRace 18)) 4 emailHash 50 :=
      .of_getElem 8 (by decide +kernel) (by decide +kernel)
    have first : Authenticates presents (Sample.playPool (goRace 18)) 3 emailHash 50 :=
      .of_getElem 26 (by decide +kernel) (by decide +kernel)
    exact absurd (single _ reach emailHash 50 4 3 second first) (by decide)

/-- One login after the other. -/
theorem one_time_password_single_use_login :
    Authenticates Signer.presents (Signer.Sample.playPool (rustRace 40)) 3 emailHash 20 ∧
      SingleUse Signer.presents (Signer.Sample.playPool (rustRace 40)) ∧
        Authenticates presents (Sample.playPool (goRace 40)) 3 emailHash 50 ∧
          SingleUse presents (Sample.playPool (goRace 40)) := by
  have single := one_time_password_single_use Scalar options (· ≤ ·)
  refine ⟨?_, ?_, ?_, ?_⟩
  · exact .of_getElem 13 (by decide +kernel) (by decide +kernel)
  · exact single.1 _ (Signer.Sample.playPool_reach (rustRace 40) (by decide +kernel))
  · exact .of_getElem 24 (by decide +kernel) (by decide +kernel)
  · exact single.2 _ (Sample.playPool_reach (goRace 40) (by decide +kernel))

end Races

end Pomade.Go
