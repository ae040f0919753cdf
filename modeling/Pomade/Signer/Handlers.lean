import Pomade.Lib.Utf8
import Pomade.Signer.Session

/-! # The Rust signer

`signer.rs` with `ratelimit.rs` and `pow.rs`: the thirteen handlers, the periodic
cleanup, and the routing.  Every storage access, clock reading and random draw of
the source is one call, in the source's order.  Log output is left out.
-/

namespace Pomade.Signer

open Pomade.Lib Pomade.Frost Coll

/-- `u64::saturating_sub`, kept from unfolding into one step for each second. -/
@[irreducible] def saturatingSub (a b : Nat) : Nat := a - b

theorem saturatingSub_eq (a b : Nat) : saturatingSub a b = a - b := by rw [saturatingSub]

/-! ## Rate limits -/

structure RateLimitConfig where
  maxAttempts : UInt32
  windowSeconds : Nat

def clientRateLimits : RateLimitConfig := { maxAttempts := 500, windowSeconds := 60 }
def emailRateLimits : RateLimitConfig := { maxAttempts := 5, windowSeconds := 120 }

def monthSecs : Nat := 30 * 24 * 3600
def minuteSecs : Nat := 60

/-- `time.saturating_sub(15 * MINUTE_SECS)`. -/
def cutoff15m (time : Nat) : Nat := saturatingSub time (15 * minuteSecs)

/-- How long an unconsumed round-1 commitment lives before being reaped. -/
def commitTtlSecs : Nat := 2 * 60

/-- The test of `is_rate_limited` on a bucket, at a time. -/
def RateLimitBucket.isLimited (bucket : RateLimitBucket) (config : RateLimitConfig) (time : Nat) :
    Bool :=
  decide (saturatingSub time config.windowSeconds ≤ bucket.lastAttempt) &&
    decide (config.maxAttempts ≤ bucket.attempts)

def isRateLimited (bucket : Option RateLimitBucket) (config : RateLimitConfig) :
    SignerProg Bool := do
  match bucket with
  | none => return false
  | some bucket =>
    let time ← now
    return bucket.isLimited config time

/-- The bucket `record_attempt` returns at a time. -/
def recordedAt (bucket : Option RateLimitBucket) (config : RateLimitConfig) (current : Nat) :
    RateLimitBucket :=
  match bucket with
  | some b =>
    if saturatingSub current config.windowSeconds ≤ b.lastAttempt then
      { attempts := b.attempts + 1, lastAttempt := current, firstAttempt := b.firstAttempt }
    else { attempts := 1, firstAttempt := current, lastAttempt := current }
  | none => { attempts := 1, firstAttempt := current, lastAttempt := current }

def recordAttempt (bucket : Option RateLimitBucket) (config : RateLimitConfig) :
    SignerProg RateLimitBucket := do
  let current ← now
  return recordedAt bucket config current

def getRateLimitResetTime (bucket : Option RateLimitBucket) (config : RateLimitConfig) :
    SignerProg Nat := do
  match bucket with
  | none => return 0
  | some bucket =>
    let time ← now
    if bucket.lastAttempt < saturatingSub time config.windowSeconds then return 0
    let reset := bucket.firstAttempt + config.windowSeconds
    let time ← now
    return saturatingSub reset time

/-! ## Helpers -/

structure SignerOptions where
  url : Str
  registerPow : Nat
  argonM : UInt32
  mailer : Bool
  testMode : Bool

/-- The parameters that the `argon2` crate takes. -/
def argon2Params (memory time lanes : UInt32) : Bool :=
  decide (8 * lanes.toNat ≤ memory.toNat) && decide (1 ≤ time.toNat) &&
    decide (1 ≤ lanes.toNat) && decide (lanes.toNat < 2 ^ 24)

/-- The passwords and salts that the `argon2` crate takes. -/
def argon2Inputs (password salt : List UInt8) : Bool :=
  decide (password.length < 2 ^ 32) && decide (8 ≤ salt.length) && decide (salt.length < 2 ^ 32)

/-- Argon2id, as the two signers call it: the `argon2` crate, which has limits, and the Go
package, which has none.  An error of the crate is a `none`. -/
class Argon2 where
  Params : Type
  params : (memory time lanes : UInt32) → Option Params
  hashPasswordInto : Params → (password salt : List UInt8) → Option (Bytes 32)
  idKey : (password salt : List UInt8) → (time memory : UInt32) → (threads : UInt8) → Bytes 32
  params_isSome : ∀ memory time lanes,
    (params memory time lanes).isSome = argon2Params memory time lanes
  hashPasswordInto_isSome : ∀ params password salt,
    (hashPasswordInto params password salt).isSome = argon2Inputs password salt

/-- `none` where one of the two `expect`s panics. -/
def hashEmail [Argon2] (email url : Str) (argonM : UInt32) : Option Str := do
  let params ← Argon2.params argonM 3 2
  let output ← Argon2.hashPasswordInto params (textBytes email) (textBytes url)
  return hexEncode output.data

/-- The memory is enough for two lanes, and the url is long enough for a salt. -/
structure Hashable (email url : Str) (argonM : UInt32) : Prop where
  memory : 16 ≤ argonM.toNat
  salt : 8 ≤ (textBytes url).length
  saltBound : (textBytes url).length < 2 ^ 32
  passwordBound : (textBytes email).length < 2 ^ 32

theorem hashEmail_isSome [Argon2] {email url : Str} {argonM : UInt32} :
    (hashEmail email url argonM).isSome ↔ Hashable email url argonM := by
  have params := Argon2.params_isSome argonM 3 2
  unfold hashEmail
  cases made : Argon2.params argonM 3 2 with
  | none =>
    rw [made] at params
    refine iff_of_false (by simp) fun hashable => ?_
    have memory := hashable.memory
    simp [argon2Params] at params
    omega
  | some made' =>
    have inputs := Argon2.hashPasswordInto_isSome made' (textBytes email) (textBytes url)
    rw [made] at params
    simp [argon2Params] at params
    cases hashed : Argon2.hashPasswordInto made' (textBytes email) (textBytes url) with
    | none =>
      rw [hashed] at inputs
      refine iff_of_false (by simp [hashed]) fun hashable => ?_
      have bound := hashable.saltBound
      have password := hashable.passwordBound
      simp [argon2Inputs, hashable.salt] at inputs
      omega
    | some output =>
      rw [hashed] at inputs
      simp [argon2Inputs] at inputs
      obtain ⟨⟨password, salt⟩, bound⟩ := inputs
      exact iff_of_true (by simp [hashed]) ⟨by omega, salt, bound, password⟩

/-- Count the leading zero bits of an event id. -/
def getPow (id : Bytes 32) : Nat :=
  let zeros := id.data.takeWhile fun byte => byte == 0
  match id.data.dropWhile fun byte => byte == 0 with
  | [] => 8 * zeros.length
  | byte :: _ => 8 * zeros.length + (7 - Nat.log2 byte.toNat)

def regexIsHex64 (s : Str) : Bool := s.length == 64 && s.all isLowerHexDigit

/-- Compare two strings in constant time with respect to their contents. -/
def ctStrEq (a b : Str) : Bool := a.length == b.length && a == b

/-- A random number in `min..max`. -/
def randomInt (min max : UInt32) : SignerProg UInt32 := do
  let v ← randomU32
  return min + v % (max - min)

def randomCommitId : SignerProg Str := do
  let buf ← randomBytes32
  return hexEncode buf.data

/-- `Vec::dedup`: of adjacent equal elements only the first is kept. -/
def dedup : List UInt32 → List UInt32
  | [] => []
  | [x] => [x]
  | x :: y :: rest => if x = y then dedup (y :: rest) else x :: dedup (y :: rest)

def checkAndRecordRateLimit (client : Str) : SignerProg Bool := do
  let bucket ← rateLimitByClient.get client
  if ← isRateLimited bucket clientRateLimits then return false
  let attempt ← recordAttempt bucket clientRateLimits
  rateLimitByClient.set client attempt
  return true

def takeCommit (commitId client : Str) : SignerProg (Option CommitEntry) :=
  takePending client commitId

/-- The sessions of an index entry whose stored password hash is the presented one. -/
def passwordMatches (passwordHash : Str) (session : SignerSession) : Bool :=
  match session.passwordHash with
  | some h => ctStrEq h passwordHash
  | none => false

/-- The stored sessions of an index entry. -/
def indexedSessions (index : SessionIndex) : SignerProg (List SignerSession) :=
  Prog.filterMap (fun c => sessions.get c) index.clients

/-- The middle of `get_authenticated_sessions`: the sessions the credentials open. -/
def evaluateAuth (auth : Auth) (index : Option SessionIndex) :
    SignerProg (List SignerSession) := do
  match index with
  | none => return []
  | some index =>
    match auth with
    | .password _ passwordHash =>
      let stored ← indexedSessions index
      return stored.filter (passwordMatches passwordHash)
    | .otp emailHash otp =>
      match ← challenges.get emailHash with
      | none => return []
      | some challenge =>
        let _ ← challenges.delete emailHash
        if ctStrEq otp challenge.otp then indexedSessions index else return []

def getAuthenticatedSessions (auth : Auth) : SignerProg (List SignerSession) := do
  let emailHash := auth.emailHash
  let bucket ← rateLimitByEmailHash.get emailHash
  if ← isRateLimited bucket emailRateLimits then return []
  let index ← sessionsByEmailHash.get emailHash
  let found ← evaluateAuth auth index
  if found.isEmpty then
    let attempt ← recordAttempt bucket emailRateLimits
    rateLimitByEmailHash.set emailHash attempt
    return found
  else return found

def checkKeyReuse (client : Str) : SignerProg Bool := do
  if (← sessions.get client).isSome then return true
  if (← recoveries.get client).isSome then return true
  if (← logins.get client).isSome then return true
  return false

/-- The index entry `add_session` writes. -/
def indexWith (index : Option SessionIndex) (client : Str) : SessionIndex :=
  let clients := (index.getD { clients := [] }).clients
  { clients := if client ∈ clients then clients else clients ++ [client] }

def addSession (client : Str) (session : SignerSession) : SignerProg Unit := do
  sessions.set client session
  match session.emailHash with
  | none => return ()
  | some emailHash =>
    let index ← sessionsByEmailHash.get emailHash
    sessionsByEmailHash.set emailHash (indexWith index client)

def deactivateSession (client : Str) : SignerProg Unit := do
  let some session ← sessions.get client | return ()
  let time ← now
  sessions.set client { session with deactivatedAt := some time }

/-- Take `client` out of the index entry of `emailHash`, dropping an empty entry. -/
def removeFromIndex (client emailHash : Str) : SignerProg Unit := do
  let some index ← sessionsByEmailHash.get emailHash | return ()
  let clients := index.clients.filter fun c => decide (c ≠ client)
  if clients.isEmpty then
    let _ ← sessionsByEmailHash.delete emailHash
  else sessionsByEmailHash.set emailHash { clients }

def deleteSession (client : Str) : SignerProg Unit := do
  let some session ← sessions.get client | return ()
  match session.emailHash with
  | some emailHash => removeFromIndex client emailHash
  | none => pure ()
  let _ ← sessions.delete client

/-! ## Cleanup -/

/-- Delete the entries of a collection that a fixed test calls expired. -/
def sweep (c : Coll) (expired : c.Val → Bool) : SignerProg Unit := do
  let all ← c.entries
  Prog.forEach (fun entry : Str × c.Val => do
    if expired entry.2 then
      let _ ← c.delete entry.1) all

/-- Delete the buckets whose last attempt is out of the window, reading the clock
for each of them. -/
def sweepBuckets (c : Coll) (lastAttempt : c.Val → Nat) (config : RateLimitConfig) :
    SignerProg Unit := do
  let all ← c.entries
  Prog.forEach (fun entry : Str × c.Val => do
    let time ← now
    if lastAttempt entry.2 < saturatingSub time config.windowSeconds then
      let _ ← c.delete entry.1) all

/-- Clean up expired logins, recoveries, challenges, and rate limit buckets. -/
def cleanup : SignerProg Unit := do
  let time15m ← now
  let timeMonth ← now
  let cutoffMonth := saturatingSub timeMonth monthSecs
  sweep recoveries fun r => decide (r.createdAt < cutoff15m time15m)
  sweep logins fun l => decide (l.createdAt < cutoff15m time15m)
  sweep challenges fun c => decide (c.createdAt < cutoff15m time15m)
  sweepBuckets rateLimitByEmailHash (fun b => b.lastAttempt) emailRateLimits
  sweepBuckets rateLimitByClient (fun b => b.lastAttempt) clientRateLimits
  sweep sessions fun s => decide (s.lastActivity < cutoffMonth)
  let commitTime ← now
  reapCommits (saturatingSub commitTime commitTtlSecs)

/-! ## Handlers -/

section Handlers

variable (Pt : Type) [AddCommGroup Pt] [Module Scalar Pt] [Curve Pt] [Sha2] [Argon2]
variable (options : SignerOptions)

def handleRegister (auth : NostrAuth) (data : RegisterRequest) : SignerProg Response := do
  let client := auth.pubkey
  if ← checkKeyReuse client then return refuse "Do not re-use session keys."
  if getPow auth.eventId < options.registerPow then
    return refuse "Registration requires 16 bits of proof of work (NIP-13)."
  let threshold := data.group.threshold.toNat
  let total := data.group.commits.length
  if threshold = 0 ∨ threshold > total then return refuse "Invalid group threshold."
  match ← ofResult (isGroupMember Pt data.group data.share) with
  | .ok true => pure ()
  | _ => return refuse "Share does not belong to the provided group."
  let idxs := data.group.commits.map (·.idx)
  if (dedup idxs).length ≠ idxs.length then
    return refuse "Group contains duplicate member indices."
  if data.share.idx ∉ idxs then return refuse "Share index not found in group commits."
  if (← sessions.get client).isSome then return refuse "Client is already registered."
  let createdAt ← now
  let lastActivity ← now
  addSession client
    { client, share := data.share, group := data.group, recovery := data.recovery, createdAt,
      deactivatedAt := none, lastActivity, email := none, emailHash := none,
      passwordHash := none }
  return accept "Your key has been registered" .none

def handleRecoverySetup (auth : NostrAuth) (data : RecoverySetupRequest) :
    SignerProg Response := do
  let client := auth.pubkey
  let some session ← sessions.get client | return refuse "No session found."
  if !session.recovery then return refuse "Recovery is disabled on this session."
  let time ← now
  if session.createdAt < cutoff15m time then
    return refuse "Recovery method must be set within 15 minutes of session."
  if session.email.isSome then return refuse "Recovery has already been initialized."
  if !regexIsHex64 data.passwordHash then
    return refuse
      "Recovery method password hash must be an argon2id hash of user email and password."
  let some emailHash := hashEmail data.email options.url options.argonM | Prog.abort
  let lastActivity ← now
  addSession client
    { session with
      lastActivity, email := some data.email, emailHash := some emailHash,
      passwordHash := some data.passwordHash }
  return accept "Recovery method successfully initialized." .none

def checkInbox : Response :=
  accept "Please check your email inbox for a one-time password." .none

/-- The email address that a challenge for an email hash is sent to. -/
def challengeRecipient (emailHash : Str) : SignerProg (Option Str) := do
  let some index ← sessionsByEmailHash.get emailHash | return none
  match index.clients.head? with
  | none => return none
  | some client =>
    let some session ← sessions.get client | return none
    return session.email

def handleChallenge (data : ChallengeRequest) : SignerProg Response := do
  let bucket ← rateLimitByEmailHash.get data.emailHash
  if ← isRateLimited bucket emailRateLimits then return checkInbox
  let some email ← challengeRecipient data.emailHash | return checkInbox
  let attempt ← recordAttempt bucket emailRateLimits
  rateLimitByEmailHash.set data.emailHash attempt
  let suffix ← randomInt 100000 1000000
  let otp := data.otpPrefix ++ (toString suffix.toNat).toList
  let createdAt ← now
  challenges.set data.emailHash { otp, createdAt }
  if options.testMode then return checkInbox
  if options.mailer then
    sendMail email otp
    return checkInbox
  else Prog.abort

/-- The common body of `handle_recovery_start` and `handle_login_start`: they differ
in the record written and in the messages. -/
def startWith (record : Str → Nat → List Str → SignerProg Unit) (success : String)
    (auth : NostrAuth) (data : StartRequest Auth) : SignerProg Response := do
  let client := auth.pubkey
  if ← checkKeyReuse client then return refuse "Do not re-use session keys."
  let found ← getAuthenticatedSessions data.auth
  if found.isEmpty then return refuse "No sessions found."
  let createdAt ← now
  record client createdAt (found.map (·.client))
  return accept success (.items (found.map SessionItem.ofSession))

def handleRecoveryStart (auth : NostrAuth) (data : StartRequest Auth) : SignerProg Response :=
  startWith (fun client createdAt clients => recoveries.set client { createdAt, clients })
    "Successfully retrieved recovery options." auth data

def handleRecoverySelect (auth : NostrAuth) (data : SelectRequest) : SignerProg Response := do
  let client := auth.pubkey
  let some recovery ← recoveries.get client | return refuse "No active recovery found."
  let _ ← recoveries.delete client
  if data.client ∉ recovery.clients then
    return refuse "Invalid session selected for recovery."
  let some session ← sessions.get data.client | return refuse "Recovery session not found."
  return accept "Recovery successfully completed." (.recovered session.share session.group)

def handleLoginStart (auth : NostrAuth) (data : StartRequest Auth) : SignerProg Response :=
  startWith (fun client createdAt clients => logins.set client { createdAt, clients })
    "Successfully retrieved login options." auth data

def handleLoginSelect (auth : NostrAuth) (data : SelectRequest) : SignerProg Response := do
  let client := auth.pubkey
  let some login ← logins.get client | return refuse "No active login found."
  let _ ← logins.delete client
  if data.client ∉ login.clients then return refuse "Invalid session selected for login."
  let some session ← sessions.get data.client | return refuse "Login session not found."
  let createdAt ← now
  let lastActivity ← now
  addSession client
    { client, share := session.share, group := session.group, email := session.email,
      emailHash := session.emailHash, passwordHash := session.passwordHash, recovery := true,
      createdAt, deactivatedAt := none, lastActivity }
  return accept "Login successfully completed." (.group session.group)

def handleSignCommit (auth : NostrAuth) (data : SignCommitRequest) : SignerProg Response := do
  let client := auth.pubkey
  let some session ← sessions.get client | return refuse "No session found for client"
  if session.deactivatedAt.isSome then return refuse "Session is deactivated"
  if !(← checkAndRecordRateLimit client) then
    return refuse "Rate limit exceeded. Please try again later."
  if session.share.idx ∉ data.members then
    return refuse "Signer index not present in members list"
  match decode32 session.share.seckey with
  | none => return refuse "Failed to create commitment"
  | some seckey =>
    let binderSeed ← randomBytes32
    let hiddenSeed ← randomBytes32
    match ← ofResult (createCommitPkg Pt { idx := session.share.idx, seckey } hiddenSeed
      binderSeed) with
    | .error _ => Prog.abort
    | .ok pkg =>
      let commitId ← randomCommitId
      let createdAt ← now
      pushCommit client
        { commitId, members := data.members, secret := pkg.secretNonce, createdAt }
      match ← ofResult (getPubkey Pt seckey) with
      | .error _ => Prog.abort
      | .ok pubkey =>
        return accept "Commitment created" (.commit
          { commitId, idx := session.share.idx, pubkey := hexEncode pubkey.data,
            hiddenPn := hexEncode pkg.hiddenPn.data, binderPn := hexEncode pkg.binderPn.data })

/-- The pnonces cover exactly the chosen member set, one entry each. -/
def pnoncesValid (group : Group) (members : List UInt32) (pnonces : List PublicNonceItem) : Bool :=
  let groupIdxs := group.commits.map (·.idx)
  pnonces.length == members.length &&
    members.all fun m =>
      decide (m ∈ groupIdxs) && (pnonces.filter fun pn => pn.idx == m).length == 1

/-- The pnonce for this signer equals the public half of the stored secret. -/
def ownMatches (secret : SecretNonce) (pnonces : List PublicNonceItem) : Result Bool := do
  let ownHidden ← getPubkey Pt secret.hiddenSn
  let ownBinder ← getPubkey Pt secret.binderSn
  return pnonces.any fun pn =>
    pn.idx == secret.idx && pn.hiddenPn == hexEncode ownHidden.data &&
      pn.binderPn == hexEncode ownBinder.data

def handleSignComplete (auth : NostrAuth) (data : SignCompleteRequest) : SignerProg Response := do
  let client := auth.pubkey
  let some session ← sessions.get client | return refuse "No session found for client"
  if session.deactivatedAt.isSome then return refuse "Session is deactivated"
  if !(← checkAndRecordRateLimit client) then
    return refuse "Rate limit exceeded. Please try again later."
  let some entry ← takeCommit data.commitId client
    | return refuse "Commitment not found or already used"
  if data.request.members ≠ entry.members then
    return refuse "Member set does not match commitment"
  if !pnoncesValid session.group data.request.members data.pnonces then
    return refuse "Invalid public nonce set"
  match ← ofResult (ownMatches Pt entry.secret data.pnonces) with
  | .ok true => pure ()
  | _ => return refuse "Public nonce does not match commitment"
  if !verifySessionPkg session.group data.request then
    return refuse "Failed to verify session package"
  let outcome ← sign
    { group := session.group, request := data.request, share := session.share,
      secret := entry.secret, pnonces := data.pnonces }
  match ← ofResult outcome with
  | .ok result =>
    let lastActivity ← now
    sessions.set client { session with lastActivity }
    return accept "Successfully signed event" (.psig result)
  | .error _ => return refuse "Failed to sign event"

def handleEcdh (auth : NostrAuth) (data : EcdhRequest) : SignerProg Response := do
  let client := auth.pubkey
  let some session ← sessions.get client | return refuse "No session found for client"
  if session.deactivatedAt.isSome then return refuse "Session is deactivated"
  if !(← checkAndRecordRateLimit client) then
    return refuse "Rate limit exceeded. Please try again later."
  if data.ecdhPk == generatorX then return refuse "Invalid ECDH public key"
  match ← ofResult (createEcdhPkg Pt data session.share) with
  | .ok result =>
    let lastActivity ← now
    sessions.set client { session with lastActivity }
    return accept "Successfully derived shared secret" (.ecdh result)
  | .error _ => return refuse "Key derivation failed"

def handleSessionList (auth : NostrAuth) : SignerProg Response := do
  let all ← sessions.entries
  let items := all.filterMap fun entry =>
    if entry.2.group.groupPk.drop 2 = auth.pubkey then some (SessionItem.ofSession entry.2)
    else none
  return accept "Successfully retrieved session list." (.items items)

def handleSessionDeactivate (auth : NostrAuth) (data : SelectRequest) : SignerProg Response := do
  match ← sessions.get data.client with
  | some session =>
    if session.group.groupPk.drop 2 = auth.pubkey then
      deactivateSession data.client
      return accept "Successfully deactivated selected session." .none
    else return refuse "Failed to deactivate selected session."
  | none => return refuse "Failed to deactivate selected session."

def handleSessionDelete (auth : NostrAuth) (data : SelectRequest) : SignerProg Response := do
  match ← sessions.get data.client with
  | some session =>
    if session.group.groupPk.drop 2 = auth.pubkey then
      deleteSession data.client
      return accept "Successfully deleted selected session." .none
    else return refuse "Failed to delete selected session."
  | none => return refuse "Failed to delete selected session."

/-! ## Routing -/

/-- The path and the body of a request. -/
inductive Route (AuthType : Type) where
  | unknown
  | malformed
  | body (data : Body AuthType)
deriving DecidableEq

/-- What reaches the signer: a request, authenticated or not, or a tick of the cleanup
timer. -/
inductive Job (AuthType : Type) where
  | request (auth : Option NostrAuth) (route : Route AuthType)
  | cleanup
deriving DecidableEq

/-- The body of the job, if it has one, is valid. -/
def Job.schemaValid {A : Type} : Job A → Bool
  | .request _ (.body data) => data.schemaValid
  | _ => true

def dispatch (auth : NostrAuth) : Body Auth → SignerProg Response
  | .challenge data => handleChallenge options data
  | .ecdh data => handleEcdh Pt auth data
  | .loginSelect data => handleLoginSelect auth data
  | .loginStart data => handleLoginStart auth data
  | .recoverySelect data => handleRecoverySelect auth data
  | .recoverySetup data => handleRecoverySetup options auth data
  | .recoveryStart data => handleRecoveryStart auth data
  | .register data => handleRegister Pt options auth data
  | .sessionDeactivate data => handleSessionDeactivate auth data
  | .sessionDelete data => handleSessionDelete auth data
  | .sessionList => handleSessionList auth
  | .signCommit data => handleSignCommit Pt auth data
  | .signComplete data => handleSignComplete Pt auth data

/-- One job.  A path that does not exist and a body that does not decode are refused
before any handler runs. -/
def handle : Job Auth → SignerProg Response
  | .request none _ => pure (refuse "Failed to validate authentication.")
  | .request (some _) .unknown => pure (refuse "Not found")
  | .request (some _) .malformed => pure (refuse "Failed to validate request data.")
  | .request (some auth) (.body body) =>
    if body.schemaValid then dispatch Pt options auth body
    else pure (refuse "Failed to validate request data.")
  | .cleanup => do
    cleanup
    return accept "" .none

end Handlers

/-- The world of the Rust signer. -/
def rustWorld (Pt : Type) [AddCommGroup Pt] [Module Scalar Pt] [Curve Pt] [Sha2]
    (R : Nat → Nat → Prop) : World Op Ans State :=
  world (createPsigPkgWithNonce Pt) R

end Pomade.Signer
