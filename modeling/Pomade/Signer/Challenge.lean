import Pomade.Signer.Index
import Pomade.Signer.Limiter

/-! # One-time passwords

What a challenge request stores and sends.  The prefix of a one-time password is the
request's own text, and the account is found through the first client of the index entry.
-/

namespace Pomade.Signer

open Pomade.Lib Pomade.Frost Coll

/-! ## The handler -/

/-- The address a challenge for an email hash is sent to. -/
def State.recipient (s : State) (emailHash : Str) : Option Str :=
  (s.sessionsByEmailHash.get emailHash).bind fun index => index.clients.head?.bind fun client =>
    (s.sessions.get client).bind fun session => session.email

/-- The test of `is_rate_limited` on the bucket of an email hash, at a time. -/
def State.emailLimits (s : State) (emailHash : Str) (time : Nat) : Bool :=
  (s.rateLimitByEmailHash.get emailHash).any fun bucket => bucket.isLimited emailRateLimits time

/-- `random_int(100000, 1000000)` from the word that is drawn. -/
def codeOf (word : UInt32) : UInt32 := 100000 + word % (1000000 - 100000)

def challengeOtp (data : ChallengeRequest) (word : UInt32) : Str :=
  data.otpPrefix ++ (toString (codeOf word).toNat).toList

/-- The call reads the store or the clock. -/
def Op.Reads : Op → Prop
  | .get _ _ | .now => True
  | _ => False

/-- The first reading of the clock among calls that are listed newest first. -/
def firstReading (calls : List SignerCall) : Option Nat := (calls.reverse.filterMap clockReading)[0]?

/-- What a challenge request does. -/
inductive Challenged (data : ChallengeRequest) (s s' : State) (calls : List SignerCall) : Prop where
  | limited {time : Nat} (read : firstReading calls = some time)
      (limited : s.emailLimits data.emailHash time = true)
      (kept : s'.challenges = s.challenges) (silent : ∀ call ∈ calls, call.op.Reads)
  | unknown (absent : s.recipient data.emailHash = none) (kept : s'.challenges = s.challenges)
      (silent : ∀ call ∈ calls, call.op.Reads)
  | issued {email : Str} {word : UInt32} {time : Nat}
      (found : s.recipient data.emailHash = some email)
      (free : ∀ t ∈ firstReading calls, s.emailLimits data.emailHash t = false)
      (drawn : ⟨.randomU32, word⟩ ∈ calls) (read : ⟨.now, time⟩ ∈ calls)
      (stored : s'.challenges = s.challenges.set data.emailHash
        { otp := challengeOtp data word, createdAt := time })
      (mailed : ∀ recipient otp, ⟨.sendMail recipient otp, ()⟩ ∈ calls →
        recipient = email ∧ otp = challengeOtp data word)

section Handler

variable {signing : SigningFn} {R : Nat → Nat → Prop} [IsPreorder Nat R] {options : SignerOptions}
variable {s : State} {calls : List SignerCall}

omit [IsPreorder Nat R] in
/-- The recipient is only looked up. -/
theorem challengeRecipient_found {emailHash : Str} (silent : ∀ call ∈ calls, call.op.Reads) :
    Prog.wp (traced signing R) (challengeRecipient emailHash)
      (fun r p => ∃ recipient, r = some recipient ∧ recipient = s.recipient emailHash ∧ p.1 = s ∧
        calls <:+ p.2 ∧ ∀ call ∈ p.2, call.op.Reads) (s, calls) := by
  have reads : ∀ {o : Op} {answer : Ans o} {before : List SignerCall}, o.Reads →
      (∀ call ∈ before, call.op.Reads) → ∀ call ∈ (⟨o, answer⟩ :: before : List SignerCall), call.op.Reads :=
    fun this earlier => List.forall_mem_cons.mpr ⟨this, earlier⟩
  unfold challengeRecipient State.recipient
  rw [wp_get]
  simp only [State.table]
  cases s.sessionsByEmailHash.get emailHash with
  | none => exact ⟨none, rfl, rfl, rfl, List.suffix_cons _ _, reads trivial silent⟩
  | some index =>
    simp only [Option.bind_some]
    cases index.clients.head? with
    | none => exact ⟨none, rfl, rfl, rfl, List.suffix_cons _ _, reads trivial silent⟩
    | some client =>
      simp only [Option.bind_some]
      rw [wp_get]
      simp only [State.table]
      have twice : ∀ {a b : SignerCall}, calls <:+ a :: b :: calls :=
        (List.suffix_cons _ _).trans (List.suffix_cons _ _)
      cases s.sessions.get client with
      | none => exact ⟨none, rfl, rfl, rfl, twice, reads trivial (reads trivial silent)⟩
      | some session =>
        exact ⟨session.email, rfl, rfl, rfl, twice, reads trivial (reads trivial silent)⟩

/-- The first reading stays the first one. -/
theorem firstReading_of_suffix {c : Coll} {key : Str} {answer : Option c.Val} {time : Nat}
    {later : List SignerCall} (suffix : [⟨.now, time⟩, ⟨.get c key, answer⟩] <:+ later) :
    firstReading later = some time := by
  obtain ⟨newer, rfl⟩ := suffix
  rw [firstReading, List.reverse_append]
  rfl

/-- The calls of the rate-limit check, which reads the clock only for a bucket. -/
def checkCalls (s : State) (emailHash : Str) (time : Nat) : List SignerCall :=
  let read : List SignerCall :=
    [⟨.get rateLimitByEmailHash emailHash, s.rateLimitByEmailHash.get emailHash⟩]
  (s.rateLimitByEmailHash.get emailHash).elim read fun _ => ⟨.now, time⟩ :: read

theorem checkCalls_reads (s : State) (emailHash : Str) (time : Nat) :
    ∀ call ∈ checkCalls s emailHash time, call.op.Reads := by
  unfold checkCalls
  cases s.rateLimitByEmailHash.get emailHash <;> simp [Op.Reads]

/-- The check has tested the bucket at the first reading, if there is a bucket. -/
theorem checkCalls_first {emailHash : Str} {checked : Nat} {later : List SignerCall}
    (suffix : checkCalls s emailHash checked <:+ later) :
    (s.rateLimitByEmailHash.get emailHash = none ∨ firstReading later = some checked) := by
  unfold checkCalls at suffix
  cases stored : s.rateLimitByEmailHash.get emailHash with
  | none => exact .inl rfl
  | some bucket =>
    rw [stored] at suffix
    exact .inr (firstReading_of_suffix suffix)

theorem handleChallenge_challenged {data : ChallengeRequest} :
    Prog.wp (traced signing R) (handleChallenge options data)
      (fun r p => Challenged data s p.1 p.2 ∧
        (options.testMode = true ∨ options.mailer = true → r = some checkInbox)) (s, []) := by
  unfold handleChallenge
  rw [wp_get]
  simp only [State.table]
  refine Prog.wp_then isRateLimited_read ?_
  rintro limited ⟨s₁, calls₁⟩ ⟨checked, _, same, tested⟩
  have calls : calls₁ = checkCalls s data.emailHash checked := congrArg Prod.snd same
  have state : s₁ = { s with clock := checked } := congrArg Prod.fst same
  subst calls state
  have tested : limited = s.emailLimits data.emailHash checked := tested
  cases limited with
  | true =>
    have first : firstReading (checkCalls s data.emailHash checked) = some checked := by
      obtain absent | first :=
        checkCalls_first (List.suffix_refl (checkCalls s data.emailHash checked))
      · simp [State.emailLimits, absent] at tested
      · exact first
    exact ⟨.limited first tested.symm rfl (checkCalls_reads s _ _), fun _ => rfl⟩
  | false =>
    simp only [Bool.false_eq_true, if_false]
    refine Prog.wp_then (challengeRecipient_found (checkCalls_reads s _ _)) ?_
    rintro recipient ⟨_, calls₂⟩ ⟨found, rfl, suffix, reads⟩
    have found : recipient = s.recipient data.emailHash := found
    cases recipient with
    | none => exact ⟨.unknown found.symm rfl reads, fun _ => rfl⟩
    | some email =>
      dsimp only
      rw [wp_recordAttempt]
      intro time _
      rw [wp_set, wp_randomInt]
      intro word
      rw [wp_now]
      intro createdAt _
      rw [wp_set]
      -- The calls after the lookup: the attempt, the draw and the write, and perhaps a mail.
      let base : RateLimitBucket → List SignerCall := fun attempt =>
        ⟨.set challenges data.emailHash { otp := challengeOtp data word, createdAt }, ()⟩ ::
          ⟨.now, createdAt⟩ :: ⟨.randomU32, word⟩ ::
          ⟨.set rateLimitByEmailHash data.emailHash attempt, ()⟩ :: ⟨.now, time⟩ :: calls₂
      have unsent : ∀ recipient otp, ⟨.sendMail recipient otp, ()⟩ ∉ calls₂ :=
        fun recipient otp member => reads _ member
      have issued : ∀ (s' : State) (attempt : RateLimitBucket) (sent : List SignerCall),
          (∀ recipient otp, ⟨.sendMail recipient otp, ()⟩ ∈ sent →
            recipient = email ∧ otp = challengeOtp data word) →
          s'.challenges = s.challenges.set data.emailHash
            { otp := challengeOtp data word, createdAt } →
          Challenged data s s' (sent ++ base attempt) := by
        intro s' attempt sent mailed stored
        refine .issued found.symm ?_ (by simp [base]) (by simp [base]) stored ?_
        · intro t reading
          have later : calls₂ <:+ sent ++ base attempt :=
            (List.suffix_append [_, _, _, _, _] calls₂).trans (List.suffix_append sent _)
          obtain absent | first := checkCalls_first (suffix.trans later)
          · simp [State.emailLimits, absent]
          · rw [first] at reading
            cases reading
            exact tested.symm
        · intro recipient otp member
          obtain now_ | before := List.mem_append.mp member
          · exact mailed recipient otp now_
          · simp [base, unsent] at before
      split
      · exact ⟨issued _ _ [] nofun rfl, fun _ => rfl⟩
      next notTest =>
        split
        · rw [wp_sendMail]
          refine ⟨issued _ _ [⟨.sendMail email (challengeOtp data word), ()⟩] ?_ rfl, fun _ => rfl⟩
          intro recipient otp member
          cases List.mem_singleton.mp member
          exact ⟨rfl, rfl⟩
        next noMailer =>
          refine ⟨issued _ _ [] nofun rfl, fun configured => ?_⟩
          exact absurd configured (by simp [notTest, noMailer])

end Handler

/-! ## The other handlers -/

/-- The call stores a one-time password. -/
def Op.StoresOtp : Op → Prop
  | .set .challenges _ _ => True
  | _ => False

/-- Every stored one-time password was stored before. -/
def OtpsKept (s s' : State) : Prop :=
  ∀ key c, s'.challenges.get key = some c → s.challenges.get key = some c

theorem Op.Within.storesNoOtp {writes : List Coll} (outside : challenges ∉ writes) {o : Op}
    (within : o.Within writes) : ¬o.StoresOtp := by
  intro stores
  cases o with
  | set c key value =>
    cases c with
    | challenges => exact outside within
    | _ => exact stores
  | _ => exact stores

section Others

variable {signing : SigningFn} {R : Nat → Nat → Prop} {s : State} {calls : List SignerCall}
variable {α : Type}

/-- Only `set` can add a one-time password. -/
theorem OtpsKept.of_step {o : Op} {s s' : State} {answer : Ans o} (quiet : ¬o.StoresOtp)
    (step : (world signing R).step o s answer s') : OtpsKept s s' := by
  have of_same : s'.challenges = s.challenges → OtpsKept s s' := by
    intro same key c stored
    rwa [same] at stored
  obtain ⟨e, _, outcome⟩ := step
  cases o with
  | set c key value =>
    cases outcome
    cases c
    case challenges => exact absurd trivial quiet
    all_goals exact of_same rfl
  | delete c key =>
    cases outcome
    cases c
    case challenges =>
      intro key' value stored
      have stored : (s.challenges.delete key).get key' = some value := stored
      by_cases same : key' = key
      · rw [same, Table.get_delete_self] at stored
        cases stored
      · rwa [Table.get_delete_ne same] at stored
    all_goals exact of_same rfl
  | takeCommit client commitId =>
    obtain ⟨commits, taken⟩ := takeCommit_state s swapRemove client commitId
    have same : s' = { s with commitsByClient := commits } :=
      (congrArg Prod.snd outcome).symm.trans taken
    subst same
    exact of_same rfl
  | takeCommitInOrder client commitId =>
    obtain ⟨commits, taken⟩ := takeCommit_state s List.eraseIdx client commitId
    have same : s' = { s with commitsByClient := commits } :=
      (congrArg Prod.snd outcome).symm.trans taken
    subst same
    exact of_same rfl
  | _ =>
    cases outcome
    exact of_same rfl

theorem otpsKept_of_only {program : SignerProg α} (only : program.Only fun o => ¬o.StoresOtp) :
    Prog.wp (traced signing R) program (fun _ p => OtpsKept s p.1) (s, calls) := by
  refine Prog.wp_of_only (W := traced signing R) (R := fun p p' => OtpsKept p.1 p'.1)
    (fun _ _ _ => id) ?_ ?_ (fun _ _ => trivial) only (s, calls)
  · intro p p' p'' first second key c stored
    exact first key c (second key c stored)
  · rintro o p answer p' quiet ⟨step, _⟩
    exact .of_step quiet step

variable {Pt : Type} [AddCommGroup Pt] [Module Scalar Pt] [Curve Pt] [Sha2] [Argon2]
variable {options : SignerOptions}

/-- A challenge request is the only job that stores a one-time password. -/
theorem dispatch_storesNoOtp (auth : NostrAuth) (body : Body Auth)
    (other : ∀ data, body ≠ .challenge data) :
    (dispatch Pt options auth body).Only fun o => ¬o.StoresOtp := by
  have within : ∀ {writes : List Coll} {program : SignerProg Response},
      program.Only (Op.Within writes) → challenges ∉ writes →
      program.Only fun o => ¬o.StoresOtp :=
    fun only outside => only.mono fun _ => Op.Within.storesNoOtp outside
  have started : ∀ {record : Str → Nat → List Str → SignerProg Unit} {success : String}
      (data : StartRequest Auth),
      (∀ client createdAt clients, (record client createdAt clients).Only fun o => ¬o.StoresOtp) →
      (startWith record success auth data).Only fun o => ¬o.StoresOtp :=
    fun data recorded => only_startWith id (fun _ _ => id) (fun _ => id) (fun _ _ => id) recorded
      auth data
  cases body with
  | challenge data => exact absurd rfl (other data)
  | ecdh data => exact within (within_handleEcdh auth data) (by decide)
  | loginSelect data => exact within (within_handleLoginSelect auth data) (by decide)
  | loginStart data =>
    unfold dispatch handleLoginStart
    apply started
    intro client createdAt clients
    exact ⟨id, fun _ => trivial⟩
  | recoverySelect data => exact within (within_handleRecoverySelect auth data) (by decide)
  | recoverySetup data => exact within (within_handleRecoverySetup auth data) (by decide)
  | recoveryStart data =>
    unfold dispatch handleRecoveryStart
    apply started
    intro client createdAt clients
    exact ⟨id, fun _ => trivial⟩
  | register data => exact within (within_handleRegister auth data) (by decide)
  | sessionDeactivate data => exact within (within_handleSessionDeactivate auth data) (by decide)
  | sessionDelete data => exact within (within_handleSessionDelete auth data) (by decide)
  | sessionList => exact within (within_handleSessionList auth) nofun
  | signCommit data => exact within (within_handleSignCommit auth data) (by decide)
  | signComplete data => exact within (within_handleSignComplete auth data) (by decide)

end Others

/-! ## Challenge requests of a run -/

section Events

variable {Pt : Type} [AddCommGroup Pt] [Module Scalar Pt] [Curve Pt] [Sha2] [Argon2]
variable {options : SignerOptions} {R : Nat → Nat → Prop} [IsPreorder Nat R]

/-- The event handles a challenge request whose body is valid. -/
def Requests (e : RustEvent) (data : ChallengeRequest) : Prop :=
  ∃ auth, e.job = .request (some auth) (.body (.challenge data)) ∧
    (Body.challenge data : Body Auth).schemaValid = true

/-- The email hash is not limited at the first reading of the clock. -/
def Unrestricted (e : RustEvent) (emailHash : Str) : Prop :=
  ∀ time ∈ firstReading e.calls, e.before.emailLimits emailHash time = false

theorem Requests.challenged {e : RustEvent} {data : ChallengeRequest} (requests : Requests e data)
    (happens : e.Happens (rustWorld Pt R) (handle Pt options)) :
    Challenged data e.before e.after e.calls ∧
      (options.testMode = true ∨ options.mailer = true → e.result = some checkInbox) := by
  obtain ⟨auth, job, valid⟩ := requests
  refine happens.of_wp (Q := fun r p => Challenged data e.before p.1 p.2 ∧
    (options.testMode = true ∨ options.mailer = true → r = some checkInbox)) ?_
  rw [job]
  unfold handle
  dsimp only
  rw [if_pos valid]
  exact handleChallenge_challenged

omit [IsPreorder Nat R] in
/-- Every other event keeps the one-time passwords or drops some. -/
theorem otpsKept {e : RustEvent} (happens : e.Happens (rustWorld Pt R) (handle Pt options))
    (other : ∀ data, ¬Requests e data) : OtpsKept e.before e.after := by
  apply happens.of_wp (Q := fun _ p => OtpsKept e.before p.1)
  cases job : e.job with
  | cleanup =>
    apply otpsKept_of_only
    have only := only_cleanup (P := fun o => ¬o.StoresOtp) (fun _ => id) id (fun _ _ _ => id)
      fun _ => id
    exact only.bind fun _ => trivial
  | request auth route =>
    cases auth with
    | none => exact fun _ _ => id
    | some auth =>
      cases route with
      | unknown => exact fun _ _ => id
      | malformed => exact fun _ _ => id
      | body body =>
        unfold handle
        dsimp only
        split
        next valid =>
          apply otpsKept_of_only
          apply dispatch_storesNoOtp
          rintro data rfl
          exact other data ⟨auth, job, valid⟩
        next => exact fun _ _ => id

end Events

/-! ## The shape of a one-time password -/

def TwoDigits (text : Str) : Prop := text.length = 2 ∧ ∀ c ∈ text, c.isDigit = true

def SixDigits (text : Str) : Prop := text.length = 6 ∧ ∀ c ∈ text, c.isDigit = true

theorem codeOf_bounds (word : UInt32) :
    100000 ≤ (codeOf word).toNat ∧ (codeOf word).toNat < 1000000 := by
  have size : (1000000 - 100000 : UInt32).toNat = 900000 := by decide
  have base : (100000 : UInt32).toNat = 100000 := by decide
  have small : word.toNat % 900000 < 900000 := Nat.mod_lt _ (by decide)
  have value : (codeOf word).toNat = 100000 + word.toNat % 900000 := by
    rw [codeOf, UInt32.toNat_add, UInt32.toNat_mod, size, base, Nat.mod_eq_of_lt (by omega)]
  rw [value]
  omega

/-- The random part of a one-time password. -/
theorem sixDigits_codeOf (word : UInt32) : SixDigits (toString (codeOf word).toNat).toList := by
  obtain ⟨least, most⟩ := codeOf_bounds word
  have digits : (toString (codeOf word).toNat).toList = Nat.toDigits 10 (codeOf word).toNat := by
    simp
  rw [digits]
  refine ⟨Nat.le_antisymm ?_ ?_, ?_⟩
  · exact (Nat.length_toDigits_le_iff (by decide) (by decide)).mpr most
  · by_contra short
    have below := (Nat.length_toDigits_le_iff (n := (codeOf word).toNat) (k := 5) (b := 10)
      (by decide) (by decide)).mp (by omega)
    omega
  · intro c member
    exact Nat.isDigit_of_mem_toDigits (by decide) (by decide) member

/-! ## Runs -/

section Runs

variable {Pt : Type} [AddCommGroup Pt] [Module Scalar Pt] [Curve Pt] [Sha2] [Argon2]
variable {options : SignerOptions} {R : Nat → Nat → Prop} [IsPreorder Nat R]
variable {events : List RustEvent} {s : State}

/-- The one-time password is the two-digit prefix that some request of the run has asked for
and six decimal digits. -/
def Shaped (events : List RustEvent) (emailHash otp : Str) : Prop :=
  ∃ e ∈ events, ∃ data code, Requests e data ∧ data.emailHash = emailHash ∧
    otp = data.otpPrefix ++ code ∧ TwoDigits data.otpPrefix ∧ SixDigits code

/-- A challenge request that the limiter lets through and whose account is found. -/
structure Serves (e : RustEvent) (data : ChallengeRequest) : Prop where
  requests : Requests e data
  unrestricted : Unrestricted e data.emailHash
  recipient : e.before.recipient data.emailHash ≠ none

/-- A request that is served stores its code, and mails no other. -/
theorem Serves.stores {e : RustEvent} {data : ChallengeRequest} (serves : Serves e data)
    (happens : e.Happens (rustWorld Pt R) (handle Pt options)) :
    ∃ word time, ⟨.randomU32, word⟩ ∈ e.calls ∧ ⟨.now, time⟩ ∈ e.calls ∧
      e.after.challenges = e.before.challenges.set data.emailHash
        { otp := challengeOtp data word, createdAt := time } := by
  obtain ⟨challenged, _⟩ := serves.requests.challenged happens
  cases challenged with
  | limited read limited _ _ =>
    have free := serves.unrestricted _ read
    exact absurd (limited.symm.trans free) (by simp)
  | unknown absent _ _ => exact absurd absent serves.recipient
  | issued _ _ drawn read stored _ => exact ⟨_, _, drawn, read, stored⟩

/-- A request that is not served stores nothing. -/
theorem unserved_keeps {e : RustEvent} {data : ChallengeRequest} (requests : Requests e data)
    (happens : e.Happens (rustWorld Pt R) (handle Pt options)) (unserved : ¬Serves e data) :
    e.after.challenges = e.before.challenges ∧ ∀ call ∈ e.calls, call.op.Reads := by
  obtain ⟨challenged, _⟩ := requests.challenged happens
  cases challenged with
  | limited _ _ kept silent => exact ⟨kept, silent⟩
  | unknown _ kept silent => exact ⟨kept, silent⟩
  | issued found free _ _ _ _ =>
    refine absurd ⟨requests, free, ?_⟩ unserved
    rw [found]
    exact nofun

/-- Some served request of the run has asked for the one-time password. -/
def IssuedIn (events : List RustEvent) (emailHash otp : Str) : Prop :=
  ∃ e ∈ events, ∃ data word, Serves e data ∧ data.emailHash = emailHash ∧
    otp = challengeOtp data word

omit [Sha2] [Argon2] in
theorem IssuedIn.later {e : RustEvent} {emailHash otp : Str}
    (issued : IssuedIn events emailHash otp) : IssuedIn (e :: events) emailHash otp := by
  obtain ⟨e', member, rest⟩ := issued
  exact ⟨e', List.mem_cons_of_mem _ member, rest⟩

/-- What one event adds to the stored one-time passwords. -/
theorem issuedIn_step {e : RustEvent} (happens : e.Happens (rustWorld Pt R) (handle Pt options))
    (before : ∀ key c, e.before.challenges.get key = some c → IssuedIn events key c.otp) {key : Str}
    {c : SignerChallenge} (stored : e.after.challenges.get key = some c) :
    IssuedIn (e :: events) key c.otp := by
  by_cases requests : ∃ data, Requests e data
  · obtain ⟨data, requests⟩ := requests
    by_cases serves : Serves e data
    · obtain ⟨word, time, _, _, set⟩ := serves.stores happens
      rw [set] at stored
      by_cases same : key = data.emailHash
      · subst same
        rw [Table.get_set_self] at stored
        cases stored
        exact ⟨e, List.mem_cons_self, data, word, serves, rfl, rfl⟩
      · rw [Table.get_set_ne same] at stored
        exact (before key c stored).later
    · rw [(unserved_keeps requests happens serves).1] at stored
      exact (before key c stored).later
  · have kept := otpsKept happens (not_exists.mp requests)
    exact (before key c (kept key c stored)).later

theorem issuedIn (run : RustRuns Pt options R Opened (fun _ => True) events s) :
    ∀ key c, s.challenges.get key = some c → IssuedIn events key c.otp := by
  induction run with
  | start s initial =>
    obtain ⟨clock, rfl⟩ := initial
    exact nofun
  | step e _ happens _ ih => exact fun key c => issuedIn_step happens ih

theorem issuedIn_of_mem (run : RustRuns Pt options R Opened (fun _ => True) events s) :
    ∀ e ∈ events, ∀ key c, e.after.challenges.get key = some c → IssuedIn events key c.otp := by
  induction run with
  | start s initial =>
    intro e member
    cases member
  | step e earlier happens _ ih =>
    intro e' member key c stored
    obtain here | older := List.mem_cons.mp member
    · subst here
      exact issuedIn_step happens (issuedIn earlier) stored
    · exact (ih e' older key c stored).later

/-- The one-time passwords stored in a run all have the promised shape exactly when every
request that was served asked for a two-digit prefix; and a mail carries the stored code. -/
theorem otp_shape_iff (run : RustRuns Pt options R Opened (fun _ => True) events s) :
    ((∀ e ∈ events, ∀ key c, e.after.challenges.get key = some c → Shaped events key c.otp) ↔
      ∀ e ∈ events, ∀ data, Serves e data → TwoDigits data.otpPrefix) ∧
    ∀ e ∈ events, ∀ data, Requests e data → ∀ recipient otp,
      ⟨.sendMail recipient otp, ()⟩ ∈ e.calls →
      ∃ c, e.after.challenges.get data.emailHash = some c ∧ c.otp = otp := by
  refine ⟨⟨?_, ?_⟩, ?_⟩
  · intro shaped e member data serves
    obtain ⟨word, time, _, _, set⟩ := serves.stores (run.of_mem member).2.1
    have stored : e.after.challenges.get data.emailHash =
        some { otp := challengeOtp data word, createdAt := time } := by
      rw [set, Table.get_set_self]
    obtain ⟨_, _, asked, code, _, _, same, twoDigits, sixDigits⟩ := shaped e member _ _ stored
    -- Both codes have six digits, so the prefixes are the same.
    have lengths : (toString (codeOf word).toNat).toList.length = code.length :=
      (sixDigits_codeOf word).1.trans sixDigits.1.symm
    have prefixes : data.otpPrefix = asked.otpPrefix := (List.append_inj' same lengths).1
    rw [prefixes]
    exact twoDigits
  · intro checked e member key c stored
    obtain ⟨e', member', data, word, serves, hash, otp⟩ := issuedIn_of_mem run e member key c stored
    exact ⟨e', member', data, _, serves.requests, hash, otp, checked e' member' data serves,
      sixDigits_codeOf word⟩
  · intro e member data requests recipient otp sent
    obtain ⟨challenged, _⟩ := requests.challenged (run.of_mem member).2.1
    cases challenged with
    | limited _ _ _ silent => exact (silent _ sent).elim
    | unknown _ _ silent => exact (silent _ sent).elim
    | issued _ _ _ _ stored mailed =>
      obtain ⟨_, rfl⟩ := mailed recipient otp sent
      rw [stored]
      exact ⟨_, Table.get_set_self .., rfl⟩

end Runs

/-! ## Who can get a one-time password -/

section Reachable

variable {Pt : Type} [AddCommGroup Pt] [Module Scalar Pt] [Curve Pt] [Sha2] [Argon2]
variable {options : SignerOptions} {events : List RustEvent} {s : State}

/-- The request stores a one-time password drawn and dated while it is handled, and is
answered. -/
def StoresFresh (e : RustEvent) (data : ChallengeRequest) : Prop :=
  e.result = some checkInbox ∧ ∃ word time, ⟨.randomU32, word⟩ ∈ e.calls ∧ ⟨.now, time⟩ ∈ e.calls ∧
    e.after.challenges.get data.emailHash =
      some { otp := challengeOtp data word, createdAt := time }

/-- Some stored session is registered with the email hash. -/
def State.HasAccount (s : State) (emailHash : Str) : Prop :=
  ∃ client session, s.sessions.get client = some session ∧ session.emailHash = some emailHash

omit [Sha2] [Argon2] in
/-- With an exact index the first listed client has a session with an email. -/
theorem IndexExact.recipient (exact : IndexExact s.sessions s.sessionsByEmailHash)
    (sound : s.registry.Sound) {emailHash : Str} (account : s.HasAccount emailHash) :
    s.recipient emailHash ≠ none := by
  obtain ⟨client, session, stored, hash⟩ := account
  have once : listed s.sessionsByEmailHash emailHash client = 1 := by
    rw [exact.exact, if_pos]
    rw [emailHashOf, stored, Option.bind_some, hash]
  cases indexed : s.sessionsByEmailHash.get emailHash with
  | none => simp [listed, indexed] at once
  | some entry =>
    cases clients : entry.clients with
    | nil => exact absurd clients (exact.nonempty emailHash entry indexed)
    | cons first rest =>
      have positive : listed s.sessionsByEmailHash emailHash first ≠ 0 := by
        simp [listed, indexed, clients]
      have owns : emailHashOf s.sessions first = some emailHash := by
        by_contra other
        exact positive (by rw [exact.exact, if_neg other])
      obtain ⟨session', stored', hash'⟩ := Option.bind_eq_some_iff.mp owns
      have email := (sound first session' stored').hashed
      simp only [hash', Option.isSome_some] at email
      have found : s.recipient emailHash = session'.email := by
        simp [State.recipient, indexed, clients, stored']
      rw [found]
      exact Option.isSome_iff_ne_none.mp email.symm

/-- An unrestricted request for an email with a session stores a fresh one-time password
exactly when the first client listed for the hash has a session with an email, which it has
unless some cleanup has swept a session with an email hash. -/
theorem otp_reachable_iff (run : RustRuns Pt options anyClock Opened (fun _ => True) events s)
    {e : RustEvent} (happens : e.Happens (rustWorld Pt anyClock) (handle Pt options))
    (before : e.before = s) {data : ChallengeRequest} (requests : Requests e data)
    (configured : options.testMode = true ∨ options.mailer = true)
    (unrestricted : Unrestricted e data.emailHash) (account : s.HasAccount data.emailHash) :
    (StoresFresh e data ↔ s.recipient data.emailHash ≠ none) ∧
      ((∀ e' ∈ events, ExpiresUnindexed e') → StoresFresh e data) := by
  have answered := (requests.challenged happens).2 configured
  have stores : s.recipient data.emailHash ≠ none → StoresFresh e data := by
    intro found
    have serves : Serves e data := ⟨requests, unrestricted, by rwa [before]⟩
    obtain ⟨word, time, drawn, read, set⟩ := serves.stores happens
    exact ⟨answered, word, time, drawn, read, by rw [set, Table.get_set_self]⟩
  refine ⟨⟨?_, stores⟩, ?_⟩
  · rintro ⟨_, word, _, drawn, _⟩ absent
    have unserved : ¬Serves e data := fun serves => serves.recipient (by rwa [before])
    exact (unserved_keeps requests happens unserved).2 _ drawn
  · intro unswept
    exact stores ((rust_index_exact (run.restrict unswept)).recipient (rust_sound run) account)

end Reachable

section Sample

attribute [local instance] Sample.sha2 Sample.argon2

/-- A challenge request for an account with an email. -/
def challengeRun (otpPrefix : String) : List (Job Auth × Nat) :=
  contactRun ++ [(Sample.challenge otpPrefix.toList, 1002)]

theorem otp_shape_iff_digits :
    Shaped (Sample.play (challengeRun "42")).1 Sample.emailHash "42100000".toList := by
  have run := Sample.play_runs (R := (· ≤ ·)) (challengeRun "42") (by decide +kernel)
  have issued : ∃ e ∈ (Sample.play (challengeRun "42")).1,
      e.after.challenges.get Sample.emailHash =
        some { otp := "42100000".toList, createdAt := 1002 } := by decide +kernel
  obtain ⟨e, member, stored⟩ := issued
  refine (otp_shape_iff run).1.mpr (fun e member data serves => ?_) e member _ _ stored
  obtain ⟨auth, job, _⟩ := serves.requests
  have given := Sample.job_of_play member
  rw [job] at given
  have asked : data.otpPrefix = "42".toList := by
    simp [challengeRun, contactRun, Sample.register, Sample.setup, Sample.challenge, Sample.job]
      at given
    rw [given.2]
    rfl
  rw [asked]
  exact ⟨by decide, by simp⟩

/-- The prefix of a request that is served is stored as it came. -/
theorem otp_shape_free_text :
    ¬ ∀ events s, RustRuns Scalar Sample.options (· ≤ ·) Opened (fun _ => True) events s →
      ∀ key c, s.challenges.get key = some c → Shaped events key c.otp := by
  intro shaped
  have run := Sample.play_runs (R := (· ≤ ·)) (challengeRun "hello") (by decide +kernel)
  have stored : (Sample.play (challengeRun "hello")).2.challenges.get Sample.emailHash =
      some { otp := "hello100000".toList, createdAt := 1002 } := by decide +kernel
  obtain ⟨_, _, data, code, _, _, same, twoDigits, sixDigits⟩ := shaped _ _ run _ _ stored
  have length : "hello100000".toList.length = data.otpPrefix.length + code.length := by
    rw [← List.length_append, ← same]
  rw [twoDigits.1, sixDigits.1] at length
  exact absurd length (by decide)

/-- The request for the sample account. -/
def contactChallenge : ChallengeRequest :=
  { otpPrefix := "42".toList, emailHash := Sample.emailHash }

theorem otp_reachable_iff_contact :
    StoresFresh (Sample.next (Sample.challenge "42".toList) 1002 (Sample.play contactRun).2)
      contactChallenge := by
  have run := Sample.play_runs (R := anyClock) contactRun (by decide +kernel)
  refine (otp_reachable_iff run (Event.happens_ofRun (by decide +kernel)) rfl
    ⟨Sample.clientKey 1, rfl, by decide +kernel⟩ (.inl rfl) ?_ ?_).1.mpr (by decide +kernel)
  · intro time reading
    have absent : (Sample.play contactRun).2.rateLimitByEmailHash.get Sample.emailHash = none := by
      decide +kernel
    change ((Sample.play contactRun).2.rateLimitByEmailHash.get Sample.emailHash).any _ = false
    rw [absent]
    rfl
  · have hash : emailHashOf (Sample.play contactRun).2.sessions (Sample.clientKey 7).pubkey =
        some Sample.emailHash := by decide +kernel
    obtain ⟨session, stored, hash⟩ := Option.bind_eq_some_iff.mp hash
    exact ⟨_, session, stored, hash⟩

/-- Two sessions of one account; the sweep takes the first one and leaves it listed. -/
def sharedRun : List (Job Auth × Nat) :=
  contactRun ++ [(Sample.register (Sample.clientKey 8) [1], 2000000),
    (Sample.setup (Sample.clientKey 8) Sample.passwordHash, 2000001), (.cleanup, 2593002)]

theorem otp_unreachable :
    ¬ ∀ events s, RustRuns Scalar Sample.options anyClock Opened (fun _ => True) events s →
      ∀ e : RustEvent, e.Happens (rustWorld Scalar anyClock) (handle Scalar Sample.options) →
        e.before = s → ∀ data, Requests e data → Unrestricted e data.emailHash →
        s.HasAccount data.emailHash → StoresFresh e data := by
  intro reachable
  have run := Sample.play_runs (R := anyClock) sharedRun (by decide +kernel)
  have fresh := reachable _ _ run
    (Sample.next (Sample.challenge "42".toList) 2593003 (Sample.play sharedRun).2)
    (Event.happens_ofRun (by decide +kernel)) rfl contactChallenge
    ⟨Sample.clientKey 1, rfl, by decide +kernel⟩ ?_ ?_
  · obtain ⟨_, word, time, _, _, stored⟩ := fresh
    have absent : (Sample.next (Sample.challenge "42".toList) 2593003
        (Sample.play sharedRun).2).after.challenges.get Sample.emailHash = none := by decide +kernel
    rw [show contactChallenge.emailHash = Sample.emailHash from rfl, absent] at stored
    cases stored
  · intro time reading
    have absent : (Sample.play sharedRun).2.rateLimitByEmailHash.get Sample.emailHash = none := by
      decide +kernel
    change ((Sample.play sharedRun).2.rateLimitByEmailHash.get Sample.emailHash).any _ = false
    rw [absent]
    rfl
  · have hash : emailHashOf (Sample.play sharedRun).2.sessions (Sample.clientKey 8).pubkey =
        some Sample.emailHash := by decide +kernel
    obtain ⟨session, stored, hash⟩ := Option.bind_eq_some_iff.mp hash
    exact ⟨_, session, stored, hash⟩

end Sample

end Pomade.Signer
