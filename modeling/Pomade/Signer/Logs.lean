import Pomade.Signer.Runs

/-! # The handlers with their log lines

A debug line that is written computes its arguments, and `&text[..8]` panics on a text that has
no boundary after eight bytes.  Most lines cut a key of 64 digits.  Two cut an email hash of the
request, which is any text: these are the lines of `handle_challenge` and of
`get_authenticated_sessions`.  The reset time that the second one prints is left out.
-/

namespace Pomade.Signer

open Pomade.Lib Pomade.Frost Coll

/-- `text[..n]` is a text: some first characters of `text` take `n` bytes. -/
def sliceable : Str → Nat → Bool
  | [], n => n == 0
  | c :: text, n => n == 0 || decide (c.utf8Size ≤ n) && sliceable text (n - c.utf8Size)

/-- A debug line with the first eight bytes of a text. -/
def logPrefix (debug : Bool) (text : Str) : SignerProg Unit :=
  if debug && !sliceable text 8 then Prog.abort else return ()

section Handlers

variable (Pt : Type) [AddCommGroup Pt] [Module Scalar Pt] [Curve Pt] [Sha2] [Argon2]
variable (options : SignerOptions) (debug : Bool)

def getAuthenticatedSessionsLogged (auth : Auth) : SignerProg (List SignerSession) := do
  let emailHash := auth.emailHash
  let bucket ← rateLimitByEmailHash.get emailHash
  if ← isRateLimited bucket emailRateLimits then
    logPrefix debug emailHash
    return []
  let index ← sessionsByEmailHash.get emailHash
  let found ← evaluateAuth auth index
  if found.isEmpty then
    let attempt ← recordAttempt bucket emailRateLimits
    rateLimitByEmailHash.set emailHash attempt
    return found
  else return found

def handleChallengeLogged (data : ChallengeRequest) : SignerProg Response := do
  let bucket ← rateLimitByEmailHash.get data.emailHash
  if ← isRateLimited bucket emailRateLimits then return checkInbox
  let some email ← challengeRecipient data.emailHash
    | do
      logPrefix debug data.emailHash
      return checkInbox
  let attempt ← recordAttempt bucket emailRateLimits
  rateLimitByEmailHash.set data.emailHash attempt
  let suffix ← randomInt 100000 1000000
  let otp := data.otpPrefix ++ (toString suffix.toNat).toList
  let createdAt ← now
  challenges.set data.emailHash { otp, createdAt }
  if options.testMode then return checkInbox
  if options.mailer then
    sendMail email otp
    return checkInbox
  else Prog.abort

/-- What `handle_recovery_start` and `handle_login_start` have in common. -/
def startWithLogged (record : Str → Nat → List Str → SignerProg Unit) (success : String)
    (auth : NostrAuth) (data : StartRequest Auth) : SignerProg Response := do
  let client := auth.pubkey
  if ← checkKeyReuse client then return refuse "Do not re-use session keys."
  let found ← getAuthenticatedSessionsLogged debug data.auth
  if found.isEmpty then return refuse "No sessions found."
  let createdAt ← now
  record client createdAt (found.map (·.client))
  return accept success (.items (found.map SessionItem.ofSession))

def handleRecoveryStartLogged (auth : NostrAuth) (data : StartRequest Auth) :
    SignerProg Response :=
  startWithLogged debug
    (fun client createdAt clients => recoveries.set client { createdAt, clients })
    "Successfully retrieved recovery options." auth data

def handleLoginStartLogged (auth : NostrAuth) (data : StartRequest Auth) : SignerProg Response :=
  startWithLogged debug (fun client createdAt clients => logins.set client { createdAt, clients })
    "Successfully retrieved login options." auth data

def dispatchLogged (auth : NostrAuth) : Body Auth → SignerProg Response
  | .challenge data => handleChallengeLogged options debug data
  | .loginStart data => handleLoginStartLogged debug auth data
  | .recoveryStart data => handleRecoveryStartLogged debug auth data
  | body => dispatch Pt options auth body

/-- One job, as `handle` does it. -/
def handleLogged : Job Auth → SignerProg Response
  | .request (some auth) (.body body) =>
    if body.schemaValid then dispatchLogged Pt options debug auth body
    else pure (refuse "Failed to validate request data.")
  | job => handle Pt options job

end Handlers

/-! ## Without the lines -/

section Cuts

variable {options : SignerOptions} {debug : Bool}

/-- The line comes before a response, and at worst takes its place. -/
theorem cuts_logPrefix {α : Type} (text : Str) (value : α) :
    Prog.Cuts (logPrefix debug text >>= fun _ => pure value) (pure value : SignerProg α) := by
  unfold logPrefix
  split
  · exact .stop value
  · exact .same _

theorem handleChallenge_cuts (data : ChallengeRequest) :
    Prog.Cuts (handleChallengeLogged options debug data) (handleChallenge options data) := by
  unfold handleChallengeLogged handleChallenge
  apply Prog.Cuts.bind_right
  intro bucket
  apply Prog.Cuts.bind_right
  intro limited
  split
  · exact .same _
  apply Prog.Cuts.bind_right
  intro recipient
  cases recipient with
  | none => exact cuts_logPrefix data.emailHash checkInbox
  | some email => exact .same _

theorem startWith_cuts (record : Str → Nat → List Str → SignerProg Unit) (success : String)
    (auth : NostrAuth) (data : StartRequest Auth) :
    Prog.Cuts (startWithLogged debug record success auth data)
      (startWith record success auth data) := by
  unfold startWithLogged startWith
  apply Prog.Cuts.bind_right
  intro reused
  split
  · exact .same _
  unfold getAuthenticatedSessionsLogged getAuthenticatedSessions
  dsimp only
  simp only [Prog.bind_assoc]
  apply Prog.Cuts.bind_right
  intro bucket
  apply Prog.Cuts.bind_right
  intro limited
  split
  · simp only [Prog.bind_assoc]
    exact cuts_logPrefix data.auth.emailHash (refuse "No sessions found.")
  · exact .same _

variable {Pt : Type} [AddCommGroup Pt] [Module Scalar Pt] [Curve Pt] [Sha2] [Argon2]

theorem dispatch_cuts (auth : NostrAuth) (body : Body Auth) :
    Prog.Cuts (dispatchLogged Pt options debug auth body) (dispatch Pt options auth body) := by
  cases body with
  | challenge data => exact handleChallenge_cuts data
  | loginStart data =>
    unfold dispatchLogged dispatch handleLoginStartLogged handleLoginStart
    exact startWith_cuts _ _ auth data
  | recoveryStart data =>
    unfold dispatchLogged dispatch handleRecoveryStartLogged handleRecoveryStart
    exact startWith_cuts _ _ auth data
  | _ => exact .same _

theorem handle_cuts (job : Job Auth) :
    Prog.Cuts (handleLogged Pt options debug job) (handle Pt options job) := by
  cases job with
  | cleanup => exact .same _
  | request auth route =>
    cases auth with
    | none => exact .same _
    | some auth =>
      cases route with
      | unknown => exact .same _
      | malformed => exact .same _
      | body body =>
        unfold handleLogged handle
        dsimp only
        split
        · exact dispatch_cuts auth body
        · exact .same _

/-- Without debug output the lines do nothing. -/
theorem handleLogged_quiet (job : Job Auth) :
    handleLogged Pt options false job = handle Pt options job := by
  have body : ∀ auth body, dispatchLogged Pt options false auth body = dispatch Pt options auth body := by
    intro auth body
    cases body <;> rfl
  cases job with
  | cleanup => rfl
  | request auth route =>
    cases auth with
    | none => rfl
    | some auth =>
      cases route with
      | body data =>
        unfold handleLogged handle
        dsimp only
        rw [body]
      | _ => rfl

end Cuts

/-! ## Runs -/

section Runs

variable (Pt : Type) [AddCommGroup Pt] [Module Scalar Pt] [Curve Pt] [Sha2] [Argon2]
variable (options : SignerOptions) (debug : Bool) (R : Nat → Nat → Prop)

/-- The runs of the signer that writes debug lines, or does not. -/
abbrev LoggedRuns (ok : RustEvent → Prop) : List RustEvent → State → Prop :=
  Runs (rustWorld Pt R) (handleLogged Pt options debug) Opened ok

variable {Pt options debug R}

theorem LoggedRuns.quiet {ok : RustEvent → Prop} {events : List RustEvent} {s : State}
    (run : LoggedRuns Pt options debug R ok events s) :
    ∃ events', RustRuns Pt options R Opened (fun _ => True) events' s :=
  Runs.of_cuts handle_cuts run

end Runs

end Pomade.Signer
