import Pomade.Go.Session
import Pomade.Signer.Handlers

/-! # The Go signer

`signer.go` with `ratelimit.go` and `pow.go`.  It keeps the same store as the Rust
signer.  Helpers that make the same calls in the same order in both (`checkKeyReuse`,
`addSession`, `deactivateSession`, `deleteSession`, `randomInt`, `getPow`, `isHex64`) are
those of the Rust model; everything that differs is defined here.  The differences:
unsigned subtraction wraps around, a cleanup runs before every authenticated request,
maps are walked in no particular order, and decoding a body does not check it.
-/

namespace Pomade.Go

open Pomade.Lib Pomade.Frost Pomade.Signer Pomade.Signer.Coll

/-- Subtraction of `uint64`. -/
@[irreducible] def wrappingSub (a b : Nat) : Nat := (a + 2 ^ 64 - b) % 2 ^ 64

/-- `AuthPayload`.  Fields that are absent are empty. -/
structure AuthPayload where
  emailHash : Str
  passwordHash : Str
  otp : Str
deriving DecidableEq

def AuthPayload.isPassword (a : AuthPayload) : Bool := !a.passwordHash.isEmpty

def AuthPayload.isOTP (a : AuthPayload) : Bool := !a.otp.isEmpty

/-! ## Rate limits -/

/-- The test of `isRateLimited` on a bucket, at a time. -/
def bucketLimited (bucket : RateLimitBucket) (config : RateLimitConfig) (time : Nat) : Bool :=
  decide (wrappingSub time config.windowSeconds ≤ bucket.lastAttempt) &&
    decide (config.maxAttempts ≤ bucket.attempts)

def isRateLimited (bucket : Option RateLimitBucket) (config : RateLimitConfig) :
    SignerProg Bool := do
  match bucket with
  | none => return false
  | some bucket =>
    let time ← now
    return bucketLimited bucket config time

/-- The bucket `recordAttempt` returns at a time. -/
def recordedAt (bucket : Option RateLimitBucket) (config : RateLimitConfig) (current : Nat) :
    RateLimitBucket :=
  match bucket with
  | some b =>
    if wrappingSub current config.windowSeconds ≤ b.lastAttempt then
      { attempts := b.attempts + 1, firstAttempt := b.firstAttempt, lastAttempt := current }
    else { attempts := 1, firstAttempt := current, lastAttempt := current }
  | none => { attempts := 1, firstAttempt := current, lastAttempt := current }

def recordAttempt (bucket : Option RateLimitBucket) (config : RateLimitConfig) :
    SignerProg RateLimitBucket := do
  let current ← now
  return recordedAt bucket config current

/-! ## Helpers -/

/-- `GroupPk[2:]` of a key that is long enough to be sliced. -/
def userKeyOf (group : Group) : Option Str :=
  if 66 ≤ group.groupPk.length then some (group.groupPk.drop 2) else none

def makeSessionItem (session : SignerSession) : SessionItem where
  pubkey := (userKeyOf session.group).getD []
  client := session.client
  createdAt := session.createdAt
  deactivatedAt := session.deactivatedAt
  lastActivity := session.lastActivity
  threshold := session.group.threshold
  total := UInt32.ofNat session.group.commits.length
  idx := session.share.idx
  email := session.email

def isHex64 (s : Str) : Bool := regexIsHex64 s

def hashEmail [Argon2] (email url : Str) (argonM : UInt32) : Str :=
  hexEncode (Argon2.idKey (textBytes email) (textBytes url) 3 argonM 2).data

/-- `subtle.ConstantTimeCompare(x, y) == 1`. -/
def constantTimeEq (x y : Str) : Bool := x == y

/-- `fmt.Sprintf("%s%d", prefix, n)`. -/
def otpOf (otpPrefix : Str) (n : UInt32) : Str := otpPrefix ++ (toString n.toNat).toList

/-- `^\d{2}$`. -/
def prefixMatches (s : Str) : Bool := s.length == 2 && s.all Char.isDigit

def checkAndRecordRateLimit (client : Str) : SignerProg Bool := do
  let b ← rateLimitByClient.get client
  if ← isRateLimited b clientRateLimits then return false
  let attempt ← recordAttempt b clientRateLimits
  rateLimitByClient.set client attempt
  return true

/-- The sessions among `clients` whose password hash is the presented one. -/
def passwordSessions (passwordHash : Str) (clients : List Str) :
    SignerProg (List SignerSession) :=
  Prog.filterMap (fun c => do
    let some session ← sessions.get c | return none
    match session.passwordHash with
    | none => return none
    | some stored => return if constantTimeEq stored passwordHash then some session else none)
    clients

/-- The stored sessions among `clients`. -/
def clientSessions (clients : List Str) : SignerProg (List SignerSession) :=
  Prog.filterMap (fun c => sessions.get c) clients

/-- The middle of `getAuthenticatedSessions`: the sessions the credentials open. -/
def evaluateAuth (auth : AuthPayload) (index : SessionIndex) :
    SignerProg (List SignerSession) := do
  if auth.isPassword then passwordSessions auth.passwordHash index.clients
  else if auth.isOTP then
    match ← challenges.get auth.emailHash with
    | none => return []
    | some challenge =>
      let _ ← challenges.delete auth.emailHash
      if constantTimeEq challenge.otp auth.otp then clientSessions index.clients else return []
  else return []

def getAuthenticatedSessions (auth : AuthPayload) : SignerProg (List SignerSession) := do
  if !isHex64 auth.emailHash then return []
  let b ← rateLimitByEmailHash.get auth.emailHash
  if ← isRateLimited b emailRateLimits then return []
  match ← sessionsByEmailHash.get auth.emailHash with
  | none =>
    let attempt ← recordAttempt b emailRateLimits
    rateLimitByEmailHash.set auth.emailHash attempt
    return []
  | some index =>
    let items ← evaluateAuth auth index
    if items.isEmpty then
      let attempt ← recordAttempt b emailRateLimits
      rateLimitByEmailHash.set auth.emailHash attempt
      return items
    else return items

/-! ## Cleanup -/

/-- Delete the entries of a collection that a fixed test calls expired. -/
def sweep (c : Coll) (expired : c.Val → Bool) : SignerProg Unit := do
  let all ← c.mapEntries
  Prog.forEach (fun entry : Str × c.Val => do
    if expired entry.2 then
      let _ ← c.delete entry.1) all

/-- Delete the buckets whose last attempt is out of the window, reading the clock
for each of them. -/
def sweepBuckets (c : Coll) (lastAttempt : c.Val → Nat) (config : RateLimitConfig) :
    SignerProg Unit := do
  let all ← c.mapEntries
  Prog.forEach (fun entry : Str × c.Val => do
    let time ← now
    if lastAttempt entry.2 < wrappingSub time config.windowSeconds then
      let _ ← c.delete entry.1) all

/-- Delete the sessions that were last used before the cutoff, each with its index
entry. -/
def sweepSessions (cutoffMonth : Nat) : SignerProg Unit := do
  let all ← sessions.mapEntries
  Prog.forEach (fun entry : Str × SignerSession => do
    if entry.2.lastActivity < cutoffMonth then deleteSession entry.1) all

def cleanup : SignerProg Unit := do
  let time15m ← now
  let cutoff15m := wrappingSub time15m (15 * minuteSecs)
  let timeMonth ← now
  let cutoffMonth := wrappingSub timeMonth monthSecs
  sweep recoveries fun r => decide (r.createdAt < cutoff15m)
  sweep logins fun l => decide (l.createdAt < cutoff15m)
  sweep challenges fun c => decide (c.createdAt < cutoff15m)
  sweepBuckets rateLimitByEmailHash (fun b => b.lastAttempt) emailRateLimits
  sweepBuckets rateLimitByClient (fun b => b.lastAttempt) clientRateLimits
  sweepSessions cutoffMonth
  let commitTime ← now
  reapCommits (wrappingSub commitTime commitTtlSecs)

/-! ## Handlers -/

section Handlers

variable [FrostTaproot] [Sha2] [Argon2] (options : SignerOptions)

def handleRegister (auth : NostrAuth) (data : RegisterRequest) : SignerProg Response := do
  let client := auth.pubkey
  if ← checkKeyReuse client then return refuse "Do not re-use session keys."
  -- The client key must be distinct from the user's pubkey.
  if userKeyOf data.group = some client then
    return refuse "Client key must be distinct from the user key."
  if getPow auth.eventId < options.registerPow then
    return refuse "Registration requires 16 bits of proof of work (NIP-13)."
  let threshold := data.group.threshold.toNat
  let total := data.group.commits.length
  if threshold = 0 ∨ threshold > total then return refuse "Invalid group threshold."
  if !isGroupMember data.group data.share then
    return refuse "Share does not belong to the provided group."
  let seen : List UInt32 := data.group.commits.map (·.idx)
  if ¬ seen.Nodup then return refuse "Group contains duplicate member indices."
  if data.share.idx ∉ seen then return refuse "Share index not found in group commits."
  if (← sessions.get client).isSome then return refuse "Client is already registered."
  let createdAt ← now
  let lastActivity ← now
  addSession client
    { client, share := data.share, group := data.group, recovery := data.recovery, createdAt,
      deactivatedAt := none, lastActivity, email := none, emailHash := none,
      passwordHash := none }
  return accept "Your key has been registered" .none

def handleRecoverySetup (auth : NostrAuth) (data : RecoverySetupRequest) :
    SignerProg Response := do
  let client := auth.pubkey
  let some session ← sessions.get client | return refuse "No session found."
  if !session.recovery then return refuse "Recovery is disabled on this session."
  let time ← now
  if session.createdAt < wrappingSub time (15 * minuteSecs) then
    return refuse "Recovery method must be set within 15 minutes of session."
  if session.email.isSome then return refuse "Recovery has already been initialized."
  if !isHex64 data.passwordHash then
    return refuse
      "Recovery method password hash must be an argon2id hash of user email and password."
  let emailHash := hashEmail data.email options.url options.argonM
  let lastActivity ← now
  addSession client
    { session with
      email := some data.email, emailHash := some emailHash,
      passwordHash := some data.passwordHash, lastActivity }
  return accept "Recovery method successfully initialized." .none

/-- The email address that a challenge for an email hash is sent to. -/
def challengeRecipient (emailHash : Str) : SignerProg (Option Str) := do
  let some index ← sessionsByEmailHash.get emailHash | return none
  match index.clients.head? with
  | none => return none
  | some client =>
    let some session ← sessions.get client | return none
    return session.email

def handleChallenge (data : ChallengeRequest) : SignerProg Response := do
  if !prefixMatches data.otpPrefix || !isHex64 data.emailHash then return checkInbox
  let b ← rateLimitByEmailHash.get data.emailHash
  if ← isRateLimited b emailRateLimits then return checkInbox
  -- Always record an attempt to prevent email hash enumeration via rate limit side-channel.
  let attempt ← recordAttempt b emailRateLimits
  rateLimitByEmailHash.set data.emailHash attempt
  let some email ← challengeRecipient data.emailHash | return checkInbox
  let n ← randomInt 100000 1000000
  let otp := otpOf data.otpPrefix n
  let createdAt ← now
  challenges.set data.emailHash { createdAt, otp }
  if !options.testMode && options.mailer then
    -- a mail that cannot be sent is only logged
    sendMail email otp
    return checkInbox
  else return checkInbox

/-- The common body of `handleRecoveryStart` and `handleLoginStart`: they differ in the
record written and in the messages. -/
def startWith (record : Str → Nat → List Str → SignerProg Unit) (success : String)
    (auth : NostrAuth) (data : StartRequest AuthPayload) : SignerProg Response := do
  let client := auth.pubkey
  if ← checkKeyReuse client then return refuse "Do not re-use session keys."
  let found ← getAuthenticatedSessions data.auth
  if found.isEmpty then return refuse "No sessions found."
  let createdAt ← now
  record client createdAt (found.map (·.client))
  return accept success (.items (found.map makeSessionItem))

def handleRecoveryStart (auth : NostrAuth) (data : StartRequest AuthPayload) :
    SignerProg Response :=
  startWith (fun client createdAt clients => recoveries.set client { createdAt, clients })
    "Successfully retrieved recovery options." auth data

def handleRecoverySelect (auth : NostrAuth) (data : SelectRequest) : SignerProg Response := do
  let client := auth.pubkey
  let some recovery ← recoveries.get client | return refuse "No active recovery found."
  let _ ← recoveries.delete client
  if data.client ∉ recovery.clients then
    return refuse "Invalid session selected for recovery."
  let some session ← sessions.get data.client | return refuse "Recovery session not found."
  return accept "Recovery successfully completed." (.recovered session.share session.group)

def handleLoginStart (auth : NostrAuth) (data : StartRequest AuthPayload) :
    SignerProg Response :=
  startWith (fun client createdAt clients => logins.set client { createdAt, clients })
    "Successfully retrieved login options." auth data

def handleLoginSelect (auth : NostrAuth) (data : SelectRequest) : SignerProg Response := do
  let client := auth.pubkey
  let some login ← logins.get client | return refuse "No active login found."
  let _ ← logins.delete client
  if data.client ∉ login.clients then return refuse "Invalid session selected for login."
  let some session ← sessions.get data.client | return refuse "Login session not found."
  let createdAt ← now
  let lastActivity ← now
  addSession client
    { client, share := session.share, group := session.group, email := session.email,
      emailHash := session.emailHash, passwordHash := session.passwordHash, recovery := true,
      createdAt, deactivatedAt := none, lastActivity }
  return accept "Login successfully completed." (.group session.group)

/-- `commit.CreateCommitPkg` with the seeds it draws. -/
def createCommitPkg (share : SecretShare) (binderSeed hiddenSeed : Bytes 32) :
    CommitmentPackage :=
  let binderSn := FrostTaproot.generateNonce share.seckey binderSeed
  let hiddenSn := FrostTaproot.generateNonce share.seckey hiddenSeed
  { idx := share.idx, binderSn, hiddenSn, binderPn := FrostTaproot.getPubkey binderSn,
    hiddenPn := FrostTaproot.getPubkey hiddenSn }

/-- The public key of a member as the group names it. -/
def memberPubkey (group : Group) (idx : UInt32) : Str :=
  ((group.commits.find? fun c => c.idx == idx).map (·.pubkey)).getD []

def handleSignCommit (auth : NostrAuth) (data : SignCommitRequest) : SignerProg Response := do
  let client := auth.pubkey
  let some session ← sessions.get client | return refuse "No session found for client"
  if session.deactivatedAt.isSome then return refuse "Session is deactivated"
  if !(← checkAndRecordRateLimit client) then
    return refuse "Rate limit exceeded. Please try again later."
  if data.members.length = 0 ∨ data.members.length > maxMembers then
    return refuse "Invalid members list"
  if session.share.idx ∉ data.members then
    return refuse "Signer index not present in members list"
  match decodeHex32 session.share.seckey with
  | none => return refuse "Failed to create commitment"
  | some seckey =>
    let binderSeed ← randomBytes32
    let hiddenSeed ← randomBytes32
    let pkg := createCommitPkg { idx := session.share.idx, seckey } binderSeed hiddenSeed
    let createdAt ← now
    let commitId ← randomCommitId
    pushCommit client { commitId, members := data.members, secret := pkg.secretNonce, createdAt }
    let lastActivity ← now
    sessions.set client { session with lastActivity }
    return accept "Commitment created" (.commit
      { commitId, idx := session.share.idx,
        pubkey := memberPubkey session.group session.share.idx,
        hiddenPn := hexEncode pkg.hiddenPn.data, binderPn := hexEncode pkg.binderPn.data })

/-- The supplied public nonces are one for each of the chosen members, all of the group,
and the one of this signer is the public half of the stored secret nonce. -/
def validatePnonces (group : Group) (members : List UInt32) (pnonces : List PublicNonceItem)
    (secret : SecretNonce) : Bool :=
  let groupIdx := group.commits.map (·.idx)
  let expectHidden := FrostTaproot.getPubkey secret.hiddenSn
  let expectBinder := FrostTaproot.getPubkey secret.binderSn
  pnonces.length == members.length && decide (pnonces.length ≤ maxMembers) &&
    members.all fun m =>
      match pnonces.filter fun pn => pn.idx == m with
      | [found] =>
        decide (m ∈ groupIdx) && (m != secret.idx ||
          decodeHex33 found.hiddenPn == some expectHidden &&
            decodeHex33 found.binderPn == some expectBinder)
      | _ => false

def handleSignComplete (auth : NostrAuth) (data : SignCompleteRequest) : SignerProg Response := do
  let client := auth.pubkey
  let some session ← sessions.get client | return refuse "No session found for client"
  if session.deactivatedAt.isSome then return refuse "Session is deactivated"
  if !(← checkAndRecordRateLimit client) then
    return refuse "Rate limit exceeded. Please try again later."
  if data.request.hash.length = 0 then return refuse "Failed to sign event"
  -- The nonce is consumed here and never restored, even if signing below fails.
  let some entry ← takePendingInOrder client data.commitId
    | return refuse "Commitment not found or already used"
  if !verifySessionPkg session.group data.request then return refuse "Failed to sign event"
  if session.share.idx ∉ data.request.members then
    return refuse "Signer index not present in members list"
  if entry.members ≠ data.request.members then return refuse "Failed to sign event"
  if !validatePnonces session.group data.request.members data.pnonces entry.secret then
    return refuse "Failed to sign event"
  let outcome ← sign
    { group := session.group, request := data.request, share := session.share,
      secret := entry.secret, pnonces := data.pnonces }
  match ← ofResult outcome with
  | .ok psig =>
    let lastActivity ← now
    sessions.set client { session with lastActivity }
    return accept "Successfully signed event" (.psig psig)
  | .error _ => return refuse "Failed to sign event"

def handleEcdh (auth : NostrAuth) (data : EcdhRequest) : SignerProg Response := do
  let client := auth.pubkey
  let some session ← sessions.get client | return refuse "No session found for client"
  if session.deactivatedAt.isSome then return refuse "Session is deactivated"
  if !(← checkAndRecordRateLimit client) then
    return refuse "Rate limit exceeded. Please try again later."
  if data.ecdhPk == generatorX then return refuse "Invalid ECDH public key"
  if session.share.idx ∉ data.members then
    return refuse "Signer index not present in members list"
  match ← ofResult (createEcdhPkg data session.share) with
  | .ok result =>
    let lastActivity ← now
    sessions.set client { session with lastActivity }
    return accept "Successfully derived shared secret" (.ecdh result)
  | .error _ => return refuse "Key derivation failed"

def handleSessionList (auth : NostrAuth) : SignerProg Response := do
  let all ← sessions.mapEntries
  let items := all.filterMap fun entry =>
    if userKeyOf entry.2.group = some auth.pubkey then some (makeSessionItem entry.2) else none
  return accept "Successfully retrieved session list." (.items items)

def handleSessionDeactivate (auth : NostrAuth) (data : SelectRequest) : SignerProg Response := do
  match ← sessions.get data.client with
  | some session =>
    if userKeyOf session.group = some auth.pubkey then
      deactivateSession data.client
      return accept "Successfully deactivated selected session." .none
    else return refuse "Failed to deactivate selected session."
  | none => return refuse "Failed to deactivate selected session."

def handleSessionDelete (auth : NostrAuth) (data : SelectRequest) : SignerProg Response := do
  match ← sessions.get data.client with
  | some session =>
    if userKeyOf session.group = some auth.pubkey then
      deleteSession data.client
      return accept "Successfully deleted selected session." .none
    else return refuse "Failed to delete selected session."
  | none => return refuse "Failed to delete selected session."

/-! ## Routing -/

def dispatch (auth : NostrAuth) : Body AuthPayload → SignerProg Response
  | .challenge data => handleChallenge options data
  | .ecdh data => handleEcdh auth data
  | .loginSelect data => handleLoginSelect auth data
  | .loginStart data => handleLoginStart auth data
  | .recoverySelect data => handleRecoverySelect auth data
  | .recoverySetup data => handleRecoverySetup options auth data
  | .recoveryStart data => handleRecoveryStart auth data
  | .register data => handleRegister options auth data
  | .sessionDeactivate data => handleSessionDeactivate auth data
  | .sessionDelete data => handleSessionDelete auth data
  | .sessionList => handleSessionList auth
  | .signCommit data => handleSignCommit auth data
  | .signComplete data => handleSignComplete auth data

/-- What `Handle` does once a request is authenticated and the cleanup is done. -/
def route (auth : NostrAuth) : Route AuthPayload → SignerProg Response
  | .unknown => return refuse "Not found"
  | .malformed => return refuse "Failed to validate request data."
  | .body data => dispatch options auth data

/-- One job: a call of `Handle`, or a call of `cleanup` by itself. -/
def handle : Job AuthPayload → SignerProg Response
  | .request none _ => pure (refuse "Failed to validate authentication.")
  | .request (some auth) target => do
    cleanup
    route options auth target
  | .cleanup => do
    cleanup
    return accept "" .none

end Handlers

/-- The world of the Go signer. -/
def goWorld [FrostTaproot] [Sha2] (R : Nat → Nat → Prop) : World Op Ans State :=
  world createPsigPkgWithNonce R

end Pomade.Go
