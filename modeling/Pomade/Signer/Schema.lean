import Pomade.Lib.Hex

/-! # Requests, responses and stored records

`schema.rs`, the domain types of `signer.rs`, and `NostrAuth`.  A `Hex32` or
`Hex33` of the source is a wrapper around a string whose digits are checked when a
request is decoded and nowhere else, so the fields here are texts and the decoder's
check is `SchemaValid`.  The Go signer declares the same records over plain strings
and decodes them without that check.
-/

namespace Pomade.Signer

open Pomade.Lib

/-! ## Shared sub-types -/

structure Commit where
  idx : UInt32
  pubkey : Str
  hiddenPn : Str
  binderPn : Str
deriving DecidableEq

structure Group where
  commits : List Commit
  groupPk : Str
  threshold : UInt32
deriving DecidableEq

structure Share where
  idx : UInt32
  seckey : Str
deriving DecidableEq

/-- The authentication of a login or recovery request. -/
inductive Auth where
  | password (emailHash passwordHash : Str)
  | otp (emailHash otp : Str)
deriving DecidableEq

def Auth.emailHash : Auth → Str
  | .password emailHash _ => emailHash
  | .otp emailHash _ => emailHash

structure PublicNonceItem where
  idx : UInt32
  hiddenPn : Str
  binderPn : Str
deriving DecidableEq

/-- The `request` object of a sign/complete call. -/
structure SignCompleteRequestInner where
  content : Option Str
  hash : List Str
  members : List UInt32
  stamp : UInt64
  kind : Str
  gid : Str
  sid : Str
deriving DecidableEq

/-! ## Requests -/

structure RegisterRequest where
  share : Share
  group : Group
  recovery : Bool
deriving DecidableEq

structure SignCommitRequest where
  members : List UInt32
deriving DecidableEq

structure SignCompleteRequest where
  commitId : Str
  request : SignCompleteRequestInner
  pnonces : List PublicNonceItem
deriving DecidableEq

structure EcdhRequest where
  idx : UInt32
  members : List UInt32
  ecdhPk : Str
deriving DecidableEq

structure RecoverySetupRequest where
  email : Str
  passwordHash : Str
deriving DecidableEq

structure ChallengeRequest where
  otpPrefix : Str
  emailHash : Str
deriving DecidableEq

/-- The body of `login/start` and of `recovery/start`.  The two signers decode the
authentication into different types. -/
structure StartRequest (AuthType : Type) where
  auth : AuthType
deriving DecidableEq

/-- The body of the requests that name one session: `login/select`,
`recovery/select`, `session/deactivate` and `session/delete`. -/
structure SelectRequest where
  client : Str
deriving DecidableEq

/-- A decoded request body, tagged with its route. -/
inductive Body (AuthType : Type) where
  | challenge (data : ChallengeRequest)
  | ecdh (data : EcdhRequest)
  | loginSelect (data : SelectRequest)
  | loginStart (data : StartRequest AuthType)
  | recoverySelect (data : SelectRequest)
  | recoverySetup (data : RecoverySetupRequest)
  | recoveryStart (data : StartRequest AuthType)
  | register (data : RegisterRequest)
  | sessionDeactivate (data : SelectRequest)
  | sessionDelete (data : SelectRequest)
  | sessionList
  | signCommit (data : SignCommitRequest)
  | signComplete (data : SignCompleteRequest)
deriving DecidableEq

/-! ## Decoding limits -/

def maxHashesPerRequest : Nat := 10
def maxMembers : Nat := 5
def maxCommits : Nat := 5

def isHex (s : Str) : Bool := !s.isEmpty && s.length % 2 == 0 && s.all isHexDigit

/-- What `deserialize_hex32` accepts. -/
def isHex32 (s : Str) : Bool := s.length == 64 && isHex s

/-- What `deserialize_hex33` accepts. -/
def isHex33 (s : Str) : Bool := s.length == 66 && isHex s

def Group.schemaValid (group : Group) : Bool :=
  group.commits.length ≤ maxCommits &&
    group.commits.all (fun c => isHex33 c.pubkey && isHex33 c.hiddenPn && isHex33 c.binderPn) &&
    isHex33 group.groupPk

/-- The request bodies that decode. -/
def Body.schemaValid {AuthType : Type} : Body AuthType → Bool
  | .challenge _ => true
  | .ecdh data => data.members.length ≤ maxMembers && isHex32 data.ecdhPk
  | .loginSelect data => isHex32 data.client
  | .loginStart _ => true
  | .recoverySelect data => isHex32 data.client
  | .recoverySetup _ => true
  | .recoveryStart _ => true
  | .register data => isHex32 data.share.seckey && data.group.schemaValid
  | .sessionDeactivate data => isHex32 data.client
  | .sessionDelete data => isHex32 data.client
  | .sessionList => true
  | .signCommit data => data.members.length ≤ maxMembers
  | .signComplete data =>
    isHex32 data.commitId && data.pnonces.length ≤ maxMembers &&
      data.pnonces.all (fun pn => isHex33 pn.hiddenPn && isHex33 pn.binderPn) &&
      !data.request.hash.isEmpty && data.request.hash.length ≤ maxHashesPerRequest &&
      data.request.hash.all isHex32 && data.request.members.length ≤ maxMembers &&
      isHex32 data.request.gid && isHex32 data.request.sid

/-! ## Responses -/

structure SignCommitResult where
  commitId : Str
  idx : UInt32
  pubkey : Str
  hiddenPn : Str
  binderPn : Str
deriving DecidableEq

structure SignCompleteResult where
  idx : UInt32
  psig : Str × Str
  pubkey : Str
  sid : Str
deriving DecidableEq

structure EcdhResult where
  idx : UInt32
  keyshare : Str
  members : List UInt32
  ecdhPk : Str
deriving DecidableEq

structure SessionItem where
  pubkey : Str
  client : Str
  createdAt : Nat
  deactivatedAt : Option Nat
  lastActivity : Nat
  threshold : UInt32
  total : UInt32
  idx : UInt32
  email : Option Str
deriving DecidableEq

/-- What a response carries besides `ok` and `message`. -/
inductive Payload where
  | none
  | commit (result : SignCommitResult)
  | psig (result : SignCompleteResult)
  | ecdh (result : EcdhResult)
  | items (items : List SessionItem)
  | group (group : Group)
  | recovered (share : Share) (group : Group)
deriving DecidableEq

structure Response where
  ok : Bool
  message : String
  payload : Payload
deriving DecidableEq

/-- A response without success. -/
def refuse (message : String) : Response := { ok := false, message, payload := .none }

def accept (message : String) (payload : Payload) : Response := { ok := true, message, payload }

@[simp] theorem refuse_ok (message : String) : (refuse message).ok = false := rfl

@[simp] theorem accept_ok (message : String) (payload : Payload) :
    (accept message payload).ok = true := rfl

/-! ## Stored records -/

structure SignerSession where
  client : Str
  share : Share
  group : Group
  recovery : Bool
  createdAt : Nat
  deactivatedAt : Option Nat
  lastActivity : Nat
  email : Option Str
  emailHash : Option Str
  passwordHash : Option Str
deriving DecidableEq

structure SessionIndex where
  clients : List Str
deriving DecidableEq

structure SignerRecovery where
  createdAt : Nat
  clients : List Str
deriving DecidableEq

structure SignerLogin where
  createdAt : Nat
  clients : List Str
deriving DecidableEq

structure SignerChallenge where
  createdAt : Nat
  otp : Str
deriving DecidableEq

/-- An authenticated request: the x-only key that signed it and its event id. -/
structure NostrAuth where
  key : Bytes 32
  eventId : Bytes 32
deriving DecidableEq

/-- The key as the handlers see it, `pubkey.to_hex()`. -/
def NostrAuth.pubkey (auth : NostrAuth) : Str := hexEncode auth.key.data

def SessionItem.ofSession (session : SignerSession) : SessionItem where
  pubkey := session.group.groupPk.drop 2
  client := session.client
  createdAt := session.createdAt
  deactivatedAt := session.deactivatedAt
  lastActivity := session.lastActivity
  threshold := session.group.threshold
  total := UInt32.ofNat session.group.commits.length
  idx := session.share.idx
  email := session.email

end Pomade.Signer
