import Pomade.Core.HashCache
import Pomade.Core.Sqlite
import Pomade.Lib.Table
import Pomade.Lib.Utf8

/-! # Handlers of the TypeScript signer

`_handleRegister`, `_handleRecoverySetup`, `_handleLoginSelect` and `_handleSessionDelete` of
`core/src/signer.ts`, with the collections they read and write.  Each operation of a collection
is awaited, so that the calls of other handlers may come between any two of them.
-/

namespace Pomade.Core

open Pomade.Lib Sqlite

/-! ## Records -/

/-- A number of a request.  It is finite and is only compared. -/
abbrev Number : Type := Rat

structure Commit where
  idx : Number
  pubkey : Str
  hiddenPn : Str
  binderPn : Str
deriving DecidableEq

structure GroupPackage where
  commits : List Commit
  groupPk : Str
  threshold : Number
deriving DecidableEq

structure StoredShare where
  idx : Number
  seckey : Str
deriving DecidableEq

structure SignerSession where
  client : Str
  share : StoredShare
  group : GroupPackage
  recovery : Bool
  createdAt : Nat
  deactivatedAt : Option Nat
  lastActivity : Nat
  email : Option Str
  emailHash : Option Str
  passwordHash : Option Str
deriving DecidableEq

structure SignerSessionIndex where
  clients : List Str
deriving DecidableEq

structure SignerRecovery where
  createdAt : Nat
  clients : List Str
deriving DecidableEq

structure SignerLogin where
  createdAt : Nat
  clients : List Str
deriving DecidableEq

/-- What the handlers read of the event that authenticates a request. -/
structure SignedEvent where
  id : Str
  pubkey : Str
deriving DecidableEq

structure RegisterRequest where
  share : StoredShare
  group : GroupPackage
  recovery : Bool
deriving DecidableEq

structure RecoverySetupRequest where
  email : Str
  passwordHash : Str
deriving DecidableEq

/-- The body of `login/select` and of `session/delete`. -/
structure SelectRequest where
  client : Str
deriving DecidableEq

structure Response where
  ok : Bool
  message : String
  group : Option GroupPackage
deriving DecidableEq

def refuse (message : String) : Response := { ok := false, message, group := none }

def accept (message : String) : Response := { ok := true, message, group := none }

/-- Why a handler throws. -/
inductive Fault where
  | storage
  | group
  | url
deriving DecidableEq

/-! ## Packages -/

/-- What the handlers use of other packages.  `isGroupMember` throws where a key is no point,
`origin` is `new URL(url).origin`, and `argonImpl` and `argonOptions` are those of `context`. -/
class Packages where
  getPow : SignedEvent → Nat
  between : Number × Number → Number → Bool
  uniq : List Number → List Number
  append : Str → List Str → List Str
  remove : Str → List Str → List Str
  isGroupMember : GroupPackage → StoredShare → Except Fault Bool
  origin : Str → Except Fault Str
  argonImpl : ArgonImpl
  argonOptions : ArgonOptions

export Packages (getPow between uniq append remove isGroupMember origin argonImpl argonOptions)

/-- What `hashEmail` makes if nothing is cached. -/
def hashEmail [Packages] (email signerUrl : Str) : Str :=
  hexEncode (argonImpl (textBytes email) (textBytes signerUrl) argonOptions)

/-- `append` adds an element to a list, `remove` takes every occurrence out. -/
class LawfulPackages [Packages] : Prop where
  mem_append (x y : Str) (xs : List Str) : y ∈ append x xs ↔ y ∈ xs ∨ y = x
  mem_remove (x y : Str) (xs : List Str) : y ∈ remove x xs ↔ y ∈ xs ∧ y ≠ x

/-! ## Collections -/

inductive Coll where
  | logins
  | sessions
  | recoveries
  | sessionsByEmailHash
deriving DecidableEq

abbrev Coll.Val : Coll → Type
  | .logins => SignerLogin
  | .sessions => SignerSession
  | .recoveries => SignerRecovery
  | .sessionsByEmailHash => SignerSessionIndex

/-- An operation of a collection, or a reading of the clock. -/
inductive Access where
  | get (c : Coll) (key : Str)
  | set (c : Coll) (key : Str) (item : c.Val)
  | delete (c : Coll) (key : Str)
  | now

abbrev Answer : Access → Type
  | .get c _ => Option c.Val
  | .set _ _ _ => Unit
  | .delete _ _ => Bool
  | .now => Nat

abbrev Tables : Type := (c : Coll) → Table c.Val

def collections : Storage Access Answer Nat Tables where
  answer
    | .get c key, _, tables => (tables c).get key
    | .set _ _ _, _, _ => ()
    | .delete c key, _, tables => ((tables c).get key).isSome
    | .now, time, _ => time
  apply
    | .get _ _, tables => tables
    | .set c key item, tables => Function.update tables c ((tables c).set key item)
    | .delete c key, tables => Function.update tables c ((tables c).delete key)
    | .now, tables => tables

/-- A handler that is awaited: it returns, or it throws. -/
abbrev Handling (R : Type) : Type := ExceptT Fault (ConnProg Access Fault Answer) R

def get (c : Coll) (key : Str) : Handling (Option c.Val) := ExceptT.mk (access (Access.get c key))

def set (c : Coll) (key : Str) (item : c.Val) : Handling Unit :=
  ExceptT.mk (access (Access.set c key item))

def delete (c : Coll) (key : Str) : Handling Bool := ExceptT.mk (access (Access.delete c key))

def now : Handling Nat := ExceptT.mk (access Access.now)

section Only

variable {α β : Type} {P : Op Access → Prop}

theorem only_bind {first : Handling α} {rest : α → Handling β} (only : first.run.Only P)
    (only' : ∀ value, (rest value).run.Only P) : (first >>= rest).run.Only P := by
  refine Prog.Only.bind only fun result => ?_
  cases result with
  | ok value => exact only' value
  | error fault => trivial

theorem only_access {a : Access} (holds : P (.access a)) :
    (ExceptT.mk (access a) : Handling (Answer a)).run.Only P :=
  ⟨holds, fun _ => trivial⟩

theorem only_pure (value : α) : (pure value : Handling α).run.Only P := trivial

theorem only_lift (result : Except Fault α) : (liftM result : Handling α).run.Only P := by
  cases result <;> trivial

/-- After what may throw, its value is known. -/
theorem only_lift_bind {result : Except Fault α} {rest : α → Handling β}
    (only : ∀ value, result = .ok value → (rest value).run.Only P) :
    (liftM result >>= rest).run.Only P := by
  cases result with
  | ok value => exact only value rfl
  | error fault => trivial

theorem only_get (c : Coll) (key : Str) : (get c key).run.Only Op.IsAccess := only_access trivial

theorem only_set (c : Coll) (key : Str) (item : c.Val) : (set c key item).run.Only Op.IsAccess :=
  only_access trivial

theorem only_delete (c : Coll) (key : Str) : (delete c key).run.Only Op.IsAccess :=
  only_access trivial

theorem only_now : now.run.Only Op.IsAccess := only_access trivial

end Only

/-! ## Handlers -/

section Handlers

variable [Packages]

structure SignerOptions where
  url : Str
  registerPow : Nat

/-- `if (text)`: a text that is there and is not empty. -/
def truthy (text : Option Str) : Option Str := text.filter fun s => !s.isEmpty

def checkKeyReuse (client : Str) : Handling Bool := do
  match ← get .sessions client with
  | some _ => return true
  | none =>
    match ← get .recoveries client with
    | some _ => return true
    | none =>
      match ← get .logins client with
      | some _ => return true
      | none => return false

def addSession (client : Str) (session : SignerSession) : Handling Unit := do
  set .sessions client session
  match truthy session.emailHash with
  | some emailHash =>
    let index ← get .sessionsByEmailHash emailHash
    set .sessionsByEmailHash emailHash
      { clients := append client (index.getD { clients := [] }).clients }
  | none => return ()

def deleteSession (client : Str) : Handling Unit := do
  match ← get .sessions client with
  | some session =>
    match truthy session.emailHash with
    | some emailHash =>
      match ← get .sessionsByEmailHash emailHash with
      | some index =>
        let clients := remove client index.clients
        if clients.length = 0 then
          let _ ← delete .sessionsByEmailHash emailHash
        else
          set .sessionsByEmailHash emailHash { clients }
      | none => pure ()
    | none => pure ()
    let _ ← delete .sessions client
  | none => return ()

def handleRegister (options : SignerOptions) (auth : SignedEvent) (data : RegisterRequest) :
    Handling Response := do
  if ← checkKeyReuse auth.pubkey then
    return refuse "Do not re-use session keys."
  else if getPow auth < options.registerPow then
    return refuse "Registration requires 16 bits of proof of work (NIP-13)."
  else if !between (0, data.group.commits.length) data.group.threshold then
    return refuse "Invalid group threshold."
  else if !(← isGroupMember data.group data.share) then
    return refuse "Share does not belong to the provided group."
  else if (uniq (data.group.commits.map Commit.idx)).length ≠ data.group.commits.length then
    return refuse "Group contains duplicate member indices."
  else if !data.group.commits.any fun c => c.idx = data.share.idx then
    return refuse "Share index not found in group commits."
  else
    match ← get .sessions auth.pubkey with
    | some _ => return refuse "Client is already registered."
    | none =>
      let createdAt ← now
      let lastActivity ← now
      addSession auth.pubkey
        { client := auth.pubkey
          share := data.share
          group := data.group
          recovery := data.recovery
          createdAt
          deactivatedAt := none
          lastActivity
          email := none
          emailHash := none
          passwordHash := none }
      return accept "Your key has been registered"

/-- `/^[a-f0-9]{64}$/` -/
def isPasswordHash (s : Str) : Bool :=
  s.length == 64 && s.all fun c => ('a' ≤ c && c ≤ 'f') || ('0' ≤ c && c ≤ '9')

def handleRecoverySetup (options : SignerOptions) (auth : SignedEvent)
    (data : RecoverySetupRequest) : Handling Response := do
  match ← get .sessions auth.pubkey with
  | none => return refuse "No session found."
  | some session =>
    if !session.recovery then
      return refuse "Recovery is disabled on this session."
    else if (truthy session.email).isSome then
      return refuse "Recovery has already been initialized."
    else if session.createdAt + 15 * 60 < (← now) then
      return refuse "Recovery method must be set within 15 minutes of session."
    else if !isPasswordHash data.passwordHash then
      return refuse
        "Recovery method password hash must be an argon2id hash of user email and password."
    else
      let signerUrl ← origin options.url
      let emailHash := hashEmail data.email signerUrl
      let lastActivity ← now
      addSession auth.pubkey { session with
        lastActivity
        email := some data.email
        emailHash := some emailHash
        passwordHash := some data.passwordHash }
      return accept "Recovery method successfully initialized."

def handleLoginSelect (auth : SignedEvent) (data : SelectRequest) : Handling Response := do
  match ← get .logins auth.pubkey with
  | none => return refuse "No active login found."
  | some login =>
    let _ ← delete .logins auth.pubkey
    if data.client ∉ login.clients then
      return refuse "Invalid session selected for login."
    else
      match ← get .sessions data.client with
      | none => return refuse "Login session not found."
      | some session =>
        let createdAt ← now
        let lastActivity ← now
        addSession auth.pubkey
          { client := auth.pubkey
            share := session.share
            group := session.group
            recovery := true
            createdAt
            deactivatedAt := none
            lastActivity
            email := session.email
            emailHash := session.emailHash
            passwordHash := session.passwordHash }
        return { ok := true, message := "Login successfully completed.", group := some session.group }

def handleSessionDelete (auth : SignedEvent) (data : SelectRequest) : Handling Response := do
  match ← get .sessions data.client with
  | some session =>
    if session.group.groupPk.drop 2 = auth.pubkey then
      deleteSession data.client
      return accept "Successfully deleted selected session."
    else
      return refuse "Failed to delete selected session."
  | none => return refuse "Failed to delete selected session."

/-! ## Requests -/

theorem only_addSession (client : Str) (session : SignerSession) :
    (addSession client session).run.Only Op.IsAccess := by
  refine only_bind (only_set _ _ _) fun _ => ?_
  cases truthy session.emailHash with
  | some emailHash => exact only_bind (only_get _ _) fun index => only_set _ _ _
  | none => exact only_pure _

theorem only_deleteSession (client : Str) : (deleteSession client).run.Only Op.IsAccess := by
  refine only_bind (only_get _ _) fun found => ?_
  cases found with
  | none => exact only_pure _
  | some session =>
    have last : (do let _ ← delete .sessions client : Handling Unit).run.Only Op.IsAccess :=
      only_bind (only_delete _ _) fun _ => only_pure _
    cases hash : truthy session.emailHash with
    | none =>
      simp only [hash]
      exact last
    | some emailHash =>
      simp only [hash]
      refine only_bind (only_get _ _) fun index => ?_
      cases index with
      | none => exact last
      | some index =>
        dsimp only
        split
        · exact only_bind (only_delete _ _) fun _ => last
        · exact only_bind (only_set _ _ _) fun _ => last

/-- A property of programs that holds of the handlers, as it does of what they are made of. -/
structure Pervades (P : ∀ {α : Type}, Handling α → Prop) : Prop where
  pure {α : Type} (value : α) : P (pure value)
  bind {α β : Type} {first : Handling α} {rest : α → Handling β} (holds : P first)
    (holds' : ∀ value, P (rest value)) : P (first >>= rest)
  lift {α : Type} (result : Except Fault α) : P (liftM result)
  get (c : Coll) (key : Str) (other : c ≠ .sessionsByEmailHash) : P (get c key)
  now : P now
  deleteLogin (key : Str) : P (delete .logins key)
  addSession (client : Str) (session : SignerSession) : P (addSession client session)
  deleteSession (client : Str) : P (deleteSession client)

namespace Pervades

variable {P : ∀ {α : Type}, Handling α → Prop}

theorem checkKeyReuse (pervades : Pervades P) (client : Str) : P (checkKeyReuse client) := by
  refine pervades.bind (pervades.get _ _ nofun) fun session => ?_
  cases session with
  | some session => exact pervades.pure _
  | none =>
    refine pervades.bind (pervades.get _ _ nofun) fun recovery => ?_
    cases recovery with
    | some recovery => exact pervades.pure _
    | none =>
      refine pervades.bind (pervades.get _ _ nofun) fun login => ?_
      cases login <;> exact pervades.pure _

theorem handleRegister (pervades : Pervades P) (options : SignerOptions) (auth : SignedEvent)
    (data : RegisterRequest) : P (handleRegister options auth data) := by
  refine pervades.bind (pervades.checkKeyReuse _) fun reused => ?_
  split
  · exact pervades.pure _
  split
  · exact pervades.pure _
  split
  · exact pervades.pure _
  refine pervades.bind (pervades.lift _) fun member => ?_
  split
  · exact pervades.pure _
  split
  · exact pervades.pure _
  split
  · exact pervades.pure _
  refine pervades.bind (pervades.get _ _ nofun) fun session => ?_
  cases session with
  | some session => exact pervades.pure _
  | none =>
    refine pervades.bind pervades.now fun _ => pervades.bind pervades.now fun _ => ?_
    exact pervades.bind (pervades.addSession _ _) fun _ => pervades.pure _

theorem handleRecoverySetup (pervades : Pervades P) (options : SignerOptions) (auth : SignedEvent)
    (data : RecoverySetupRequest) : P (handleRecoverySetup options auth data) := by
  refine pervades.bind (pervades.get _ _ nofun) fun session => ?_
  cases session with
  | none => exact pervades.pure _
  | some session =>
    dsimp only
    split
    · exact pervades.pure _
    split
    · exact pervades.pure _
    refine pervades.bind pervades.now fun time => ?_
    split
    · exact pervades.pure _
    split
    · exact pervades.pure _
    refine pervades.bind (pervades.lift _) fun _ => pervades.bind pervades.now fun _ => ?_
    exact pervades.bind (pervades.addSession _ _) fun _ => pervades.pure _

theorem handleLoginSelect (pervades : Pervades P) (auth : SignedEvent) (data : SelectRequest) :
    P (handleLoginSelect auth data) := by
  refine pervades.bind (pervades.get _ _ nofun) fun login => ?_
  cases login with
  | none => exact pervades.pure _
  | some login =>
    refine pervades.bind (pervades.deleteLogin _) fun _ => ?_
    split
    · exact pervades.pure _
    refine pervades.bind (pervades.get _ _ nofun) fun session => ?_
    cases session with
    | none => exact pervades.pure _
    | some session =>
      refine pervades.bind pervades.now fun _ => pervades.bind pervades.now fun _ => ?_
      exact pervades.bind (pervades.addSession _ _) fun _ => pervades.pure _

theorem handleSessionDelete (pervades : Pervades P) (auth : SignedEvent) (data : SelectRequest) :
    P (handleSessionDelete auth data) := by
  refine pervades.bind (pervades.get _ _ nofun) fun session => ?_
  cases session with
  | none => exact pervades.pure _
  | some session =>
    dsimp only
    split
    · exact pervades.bind (pervades.deleteSession _) fun _ => pervades.pure _
    · exact pervades.pure _

end Pervades

theorem only_handlers : Pervades fun program => program.run.Only Op.IsAccess where
  pure := only_pure
  bind := only_bind
  lift := only_lift
  get c key _ := only_get c key
  now := only_now
  deleteLogin key := only_delete .logins key
  addSession := only_addSession
  deleteSession := only_deleteSession

inductive Request where
  | register (data : RegisterRequest)
  | recoverySetup (data : RecoverySetupRequest)
  | loginSelect (data : SelectRequest)
  | sessionDelete (data : SelectRequest)

/-- What runs for a request: `login/select` is the only handler of the four outside `tx`. -/
def Request.handler (options : SignerOptions) (auth : SignedEvent) :
    Request → Handler Access Fault Response Answer
  | .register data => .tx ⟨_, only_handlers.handleRegister options auth data⟩
  | .recoverySetup data => .tx ⟨_, only_handlers.handleRecoverySetup options auth data⟩
  | .loginSelect data => .plain ⟨_, only_handlers.handleLoginSelect auth data⟩
  | .sessionDelete data => .tx ⟨_, only_handlers.handleSessionDelete auth data⟩

end Handlers

end Pomade.Core
