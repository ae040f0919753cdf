import Pomade.Core.Signer

/-! # Email hashes of the client and of the signer

The client hashes an email with the url of the signer as it has it (`client.ts`).  The signer
hashes with the origin of its own url when it stores a recovery method (`signer.ts`).  The `u` tag
of a request, which the signer compares with its url, is the text of the client.  Both have the
implementation and the options of `context`, and nothing cached.
-/

namespace Pomade.Core

open Pomade.Lib Sqlite

section EmailHash

variable [Packages]

/-! ## The client -/

def hashPassword (email password signerUrl : Str) : Str :=
  hexEncode (argonImpl (textBytes (email ++ password)) (textBytes signerUrl) argonOptions)

/-- The `auth` field of `login/start` and `recovery/start`. -/
inductive StartAuth where
  | password (emailHash passwordHash : Str)
  | otp (emailHash otp : Str)

/-- The requests of a client that has no session yet. -/
inductive OpenRequest where
  | challenge (otpPrefix emailHash : Str)
  | loginStart (auth : StartAuth)
  | recoveryStart (auth : StartAuth)

def StartAuth.emailHash : StartAuth → Str
  | .password emailHash _ => emailHash
  | .otp emailHash _ => emailHash

def OpenRequest.emailHash : OpenRequest → Str
  | .challenge _ emailHash => emailHash
  | .loginStart auth => auth.emailHash
  | .recoveryStart auth => auth.emailHash

/-- What a user asks the client for. -/
inductive Query where
  | requestChallenge (otpPrefix : Str)
  | loginWithPassword (password : Str)
  | loginWithChallenge (otp : Str)
  | recoverWithPassword (password : Str)
  | recoverWithChallenge (otp : Str)

/-- The body that is posted to the signer at `url`. -/
def Query.body (email url : Str) : Query → OpenRequest
  | .requestChallenge otpPrefix => .challenge otpPrefix (hashEmail email url)
  | .loginWithPassword password =>
    .loginStart (.password (hashEmail email url) (hashPassword email password url))
  | .loginWithChallenge otp => .loginStart (.otp (hashEmail email url) otp)
  | .recoverWithPassword password =>
    .recoveryStart (.password (hashEmail email url) (hashPassword email password url))
  | .recoverWithChallenge otp => .recoveryStart (.otp (hashEmail email url) otp)

theorem Query.emailHash_body (email url : Str) (query : Query) :
    (query.body email url).emailHash = hashEmail email url := by
  cases query <;> rfl

/-- `requestUrl` of `RPC.prep`, which the `u` tag of the request holds. -/
def requestUrl (signerUrl path : Str) : Str := signerUrl ++ path

/-! ## The signer -/

omit [Packages] in
/-- What `_parseAuth` asks of the `u` tag. -/
def SignerOptions.IsFor (options : SignerOptions) (path uTag : Str) : Prop :=
  uTag = options.url ++ path

def setupPath : Str := "/recovery/setup".toList

/-- The signer takes the request of a client that has it under `url`. -/
def SignerOptions.Serves (options : SignerOptions) (url : Str) : Prop :=
  options.IsFor setupPath (requestUrl url setupPath)

omit [Packages] in
theorem SignerOptions.serves_iff {options : SignerOptions} {url : Str} :
    options.Serves url ↔ url = options.url := by
  simp [Serves, IsFor, requestUrl]

/-- Where an email hash is stored: in a session, and as the key of the index. -/
def Stores (emailHash : Str) : Op Access → Prop
  | .access (.set .sessions _ item) => item.emailHash = some emailHash
  | .access (.set .sessionsByEmailHash key _) => key = emailHash
  | _ => True

/-- A recovery setup for `email` stores the hash that every later request of the client has. -/
def EmailHashesAgree (email url : Str) : Prop :=
  ∀ (options : SignerOptions) (auth : SignedEvent) (data : RecoverySetupRequest) (query : Query),
    options.Serves url → data.email = email →
      (handleRecoverySetup options auth data).run.Only (Stores (query.body email url).emailHash)

/-- Different salts give different hashes, as of a hash function without collisions. -/
def SaltsSeparate : Prop :=
  ∀ value salt salt' : List UInt8,
    argonImpl value salt argonOptions = argonImpl value salt' argonOptions → salt = salt'

/-! ## The cache -/

/-- The hash is what the first call for the email and the url returns. -/
theorem hashEmail_of_fresh {email url : JsString} {argonOptions : ArgonOptions}
    (options : argonOptions = Packages.argonOptions) :
    ({ HashState.start with argonOptions }.run argonImpl
        [.hashEmail email url, .resolve 0]).emailHashCache.returned =
      [({ email, signerUrl := url, argonOptions },
        hashEmail (scalarValues email) (scalarValues url))] := by
  subst options
  rfl

theorem hashEmail_salt (separate : SaltsSeparate) {email salt salt' : Str}
    (same : hashEmail email salt = hashEmail email salt') : salt = salt' :=
  textBytes_injective (separate _ _ _ (hexEncode_injective same))

/-! ## What is stored -/

theorem stores_addSession {emailHash client : Str} {session : SignerSession}
    (hashed : session.emailHash = some emailHash) :
    (addSession client session).run.Only (Stores emailHash) := by
  have first : Stores emailHash (.access (.set .sessions client session)) := hashed
  refine only_bind (only_access first) fun _ => ?_
  cases truth : truthy session.emailHash with
  | none => exact only_pure _
  | some key =>
    -- The index is written under the hash of the session.
    have same : key = emailHash := by
      rw [hashed, truthy, Option.filter_eq_some_iff] at truth
      simpa using truth.1.symm
    have read : Stores emailHash (.access (.get .sessionsByEmailHash key)) := trivial
    have last (item : SignerSessionIndex) :
        Stores emailHash (.access (.set .sessionsByEmailHash key item)) := same
    exact only_bind (only_access read) fun _ => only_access (last _)

/-- A recovery setup stores the hash with the origin as the salt. -/
theorem stores_handleRecoverySetup (options : SignerOptions) (auth : SignedEvent)
    (data : RecoverySetupRequest) {emailHash : Str}
    (hashed : ∀ salt, origin options.url = .ok salt → hashEmail data.email salt = emailHash) :
    (handleRecoverySetup options auth data).run.Only (Stores emailHash) := by
  have first : Stores emailHash (.access (.get .sessions auth.pubkey)) := trivial
  have clock : Stores emailHash (.access .now) := trivial
  refine only_bind (only_access first) fun session => ?_
  cases session with
  | none => exact only_pure _
  | some session =>
    dsimp only
    split
    · exact only_pure _
    split
    · exact only_pure _
    refine only_bind (only_access clock) fun time => ?_
    split
    · exact only_pure _
    split
    · exact only_pure _
    refine only_lift_bind fun salt parsed => ?_
    refine only_bind (only_access clock) fun lastActivity => ?_
    exact only_bind (stores_addSession (congrArg some (hashed salt parsed))) fun _ => only_pure _

/-! ## Agreement -/

/-- A session that a recovery method may be stored for. -/
def freshSession : SignerSession where
  client := []
  share := { idx := 1, seckey := [] }
  group := { commits := [], groupPk := [], threshold := 1 }
  recovery := true
  createdAt := 0
  deactivatedAt := none
  lastActivity := 0
  email := none
  emailHash := none
  passwordHash := none

def setupRequest (email : Str) : RecoverySetupRequest :=
  { email, passwordHash := List.replicate 64 'a' }

/-- The program of a setup for a fresh session at time 0: it stores the hash it makes. -/
theorem hashed_of_stores {options : SignerOptions} {auth : SignedEvent} {email emailHash : Str}
    (only : (handleRecoverySetup options auth (setupRequest email)).run.Only (Stores emailHash))
    {salt : Str} (parsed : origin options.url = .ok salt) : hashEmail email salt = emailHash := by
  have found := (only.2 (.ok (some freshSession))).2 (.ok 0)
  have hex : isPasswordHash (setupRequest email).passwordHash = true := by
    simp [isPasswordHash, setupRequest]
  simp [freshSession, hex, parsed, ExceptT.bindCont] at found
  -- What comes next is the clock, and then the session is stored.
  have stored := (found.2 (.ok 0)).1
  exact Option.some.inj stored

theorem email_hashes_agree_iff (separate : SaltsSeparate) (email url : Str) :
    EmailHashesAgree email url ↔ ∀ salt, origin url = .ok salt → salt = url := by
  constructor
  · intro agree salt parsed
    have only := agree { url, registerPow := 0 } { id := [], pubkey := [] } (setupRequest email)
      (.requestChallenge []) (SignerOptions.serves_iff.2 rfl) rfl
    exact hashEmail_salt separate (hashed_of_stores only parsed)
  · intro same options auth data query serves mine
    refine stores_handleRecoverySetup options auth data fun salt parsed => ?_
    rw [← SignerOptions.serves_iff.1 serves] at parsed
    rw [query.emailHash_body, mine, same salt parsed]

end EmailHash

/-- Packages for an example: the origin of a url that names the default port is cut before it. -/
abbrev portPackages : Packages where
  getPow _ := 0
  between range n := range.1 < n && n < range.2
  uniq := List.dedup
  append x xs := if x ∈ xs then xs else xs ++ [x]
  remove x xs := xs.filter fun y => y ≠ x
  isGroupMember _ _ := .ok true
  origin url :=
    .ok (if ":443".toList.isSuffixOf url then url.take (url.length - 4) else url)
  argonImpl value salt _ := value ++ salt
  argonOptions := { t := 3, m := 64 * 1024, p := 2 }

theorem portPackages_separate : @SaltsSeparate portPackages :=
  fun _ _ _ same => List.append_cancel_left same

theorem email_hashes_agree_iff_plain :
    (@EmailHashesAgree portPackages "a@b.c".toList "https://signer.example".toList ↔
      ∀ salt, portPackages.origin "https://signer.example".toList = .ok salt →
        salt = "https://signer.example".toList) :=
  @email_hashes_agree_iff portPackages portPackages_separate _ _

/-- With the default port in the url the signer stores another hash than it is asked for. -/
theorem email_hashes_disagree :
    ¬ @EmailHashesAgree portPackages "a@b.c".toList "https://signer.example:443".toList := by
  intro agree
  let _ := portPackages
  have only := agree { url := "https://signer.example:443".toList, registerPow := 0 }
    { id := [], pubkey := [] } (setupRequest "a@b.c".toList) (.requestChallenge [])
    (SignerOptions.serves_iff.2 rfl) rfl
  have parsed : portPackages.origin "https://signer.example:443".toList =
      .ok "https://signer.example".toList := by decide
  have same := hashed_of_stores only parsed
  revert same
  decide

end Pomade.Core
