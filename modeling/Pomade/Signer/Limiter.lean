import Pomade.Signer.Footprint
import Pomade.Signer.Runs

/-! # What the handlers do to the rate-limit buckets

A bucket is written by three helpers, each after its own check, and by nothing else but
the cleanup.  Every handler is executed once more, now with an eye to the attempts it
records: a request that passes the limiter, stores a one-time password or fails an
evaluation has recorded exactly one.
-/

namespace Pomade.Signer

open Pomade.Lib Pomade.Frost Coll

/-! ## The two limits -/

inductive Limit where
  | client
  | email
deriving DecidableEq

namespace Limit

def config : Limit → RateLimitConfig
  | .client => clientRateLimits
  | .email => emailRateLimits

def buckets (limit : Limit) (s : State) : Table RateLimitBucket :=
  match limit with
  | .client => s.rateLimitByClient
  | .email => s.rateLimitByEmailHash

/-- The key and the bucket that a call writes. -/
def written : Limit → SignerCall → Option (Str × RateLimitBucket)
  | .client, ⟨.set .rateLimitByClient key bucket, _⟩ => some (key, bucket)
  | .email, ⟨.set .rateLimitByEmailHash key bucket, _⟩ => some (key, bucket)
  | _, _ => none

/-- The times of the attempts that calls record for a key, newest first. -/
def attempts (limit : Limit) (key : Str) (calls : List SignerCall) : List Nat :=
  calls.filterMap fun call =>
    (limit.written call).bind fun entry =>
      if entry.1 = key then some entry.2.lastAttempt else none

end Limit

/-- The calls that change a bucket. -/
def Op.WritesBucket : Op → Prop
  | .set .rateLimitByClient _ _ | .set .rateLimitByEmailHash _ _ => True
  | .delete .rateLimitByClient _ | .delete .rateLimitByEmailHash _ => True
  | _ => False

/-- A footprint without the buckets. -/
theorem Op.Within.unlimited {writes : List Coll} (client : rateLimitByClient ∉ writes)
    (email : rateLimitByEmailHash ∉ writes) {o : Op} (within : o.Within writes) :
    ¬ o.WritesBucket := by
  intro bucket
  unfold Op.WritesBucket at bucket
  split at bucket
  · exact client within
  · exact email within
  · exact client within
  · exact email within
  · exact bucket

/-! ## Stretches that leave the buckets alone -/

/-- No bucket changes and no attempt is recorded. -/
structure Unlimited (p p' : State × List SignerCall) : Prop where
  same : ∀ limit : Limit, limit.buckets p'.1 = limit.buckets p.1
  silent : ∀ (limit : Limit) key, limit.attempts key p'.2 = limit.attempts key p.2
  later : p.1.clock ≤ p'.1.clock

theorem Unlimited.refl (p : State × List SignerCall) : Unlimited p p :=
  ⟨fun _ => rfl, fun _ _ => rfl, le_refl _⟩

theorem Unlimited.trans {p p' p'' : State × List SignerCall} (first : Unlimited p p')
    (second : Unlimited p' p'') : Unlimited p p'' :=
  ⟨fun limit => (second.same limit).trans (first.same limit),
    fun limit key => (second.silent limit key).trans (first.silent limit key),
    first.later.trans second.later⟩

theorem Unlimited.of_step {signing : SigningFn} {o : Op} {s s' : State} {calls : List SignerCall}
    {answer : Ans o} (quiet : ¬ o.WritesBucket)
    (step : (world signing (· ≤ ·)).step o s answer s') :
    Unlimited (s, calls) (s', ⟨o, answer⟩ :: calls) := by
  have of_same : (∀ limit : Limit, limit.buckets s' = limit.buckets s) →
      (∀ limit : Limit, limit.written ⟨o, answer⟩ = none) → s.clock ≤ s'.clock →
      Unlimited (s, calls) (s', ⟨o, answer⟩ :: calls) := by
    intro same unwritten later
    refine ⟨same, fun limit key => ?_, later⟩
    simp [Limit.attempts, unwritten limit]
  obtain ⟨e, permitted, outcome⟩ := step
  -- Only a reading of the clock changes the clock, and a taken commitment is no bucket.
  cases o with
  | set c key value =>
    cases outcome
    cases c
    case rateLimitByEmailHash => exact absurd trivial quiet
    case rateLimitByClient => exact absurd trivial quiet
    all_goals
      exact of_same (fun limit => by cases limit <;> rfl) (fun limit => by cases limit <;> rfl)
        (le_refl _)
  | delete c key =>
    cases outcome
    cases c
    case rateLimitByEmailHash => exact absurd trivial quiet
    case rateLimitByClient => exact absurd trivial quiet
    all_goals
      exact of_same (fun limit => by cases limit <;> rfl) (fun limit => by cases limit <;> rfl)
        (le_refl _)
  | now =>
    cases outcome
    exact of_same (fun limit => by cases limit <;> rfl) (fun limit => by cases limit <;> rfl)
      permitted
  | takeCommit client commitId =>
    obtain ⟨commits, taken⟩ := takeCommit_state s swapRemove client commitId
    have same : s' = { s with commitsByClient := commits } :=
      (congrArg Prod.snd outcome).symm.trans taken
    subst same
    exact of_same (fun limit => by cases limit <;> rfl) (fun limit => by cases limit <;> rfl)
      (le_refl _)
  | takeCommitInOrder client commitId =>
    obtain ⟨commits, taken⟩ := takeCommit_state s List.eraseIdx client commitId
    have same : s' = { s with commitsByClient := commits } :=
      (congrArg Prod.snd outcome).symm.trans taken
    subst same
    exact of_same (fun limit => by cases limit <;> rfl) (fun limit => by cases limit <;> rfl)
      (le_refl _)
  | _ =>
    cases outcome
    exact of_same (fun limit => by cases limit <;> rfl) (fun limit => by cases limit <;> rfl)
      (le_refl _)

section Only

variable {signing : SigningFn} {α : Type} {program : SignerProg α}

/-- A program that writes no bucket. -/
theorem unlimited_of_only (only : program.Only fun o => ¬ o.WritesBucket)
    (p : State × List SignerCall) :
    Prog.wp (traced signing (· ≤ ·)) program (fun _ p' => Unlimited p p') p := by
  refine Prog.wp_of_only (R := Unlimited) Unlimited.refl Unlimited.trans ?_ (fun _ _ => trivial)
    only p
  rintro o ⟨s, calls⟩ answer ⟨s', calls'⟩ quiet ⟨step, traced⟩
  subst traced
  exact .of_step quiet step

end Only

/-! ## One attempt -/

/-- One attempt is recorded for one key, at a time when the limiter let it through. -/
structure Recorded (limit : Limit) (key : Str) (p p' : State × List SignerCall) : Prop where
  attempt : ∃ checked time, p.1.clock ≤ checked ∧ checked ≤ time ∧ time ≤ p'.1.clock ∧
    (∀ bucket, (limit.buckets p.1).get key = some bucket →
      bucket.isLimited limit.config checked = false) ∧
    limit.buckets p'.1 = (limit.buckets p.1).set key
      (recordedAt ((limit.buckets p.1).get key) limit.config time) ∧
    limit.attempts key p'.2 = time :: limit.attempts key p.2
  others : ∀ limit', limit' ≠ limit → limit'.buckets p'.1 = limit'.buckets p.1
  silent : ∀ limit' key', limit' ≠ limit ∨ key' ≠ key →
    Limit.attempts limit' key' p'.2 = Limit.attempts limit' key' p.2

section Recorded

variable {limit : Limit} {key : Str} {p p₁ p' : State × List SignerCall}

theorem Recorded.after (quiet : Unlimited p p₁) (recorded : Recorded limit key p₁ p') :
    Recorded limit key p p' := by
  obtain ⟨checked, time, first, second, third, free, table, attempt⟩ := recorded.attempt
  refine ⟨⟨checked, time, quiet.later.trans first, second, third, ?_, ?_, ?_⟩,
    fun limit' other => (recorded.others limit' other).trans (quiet.same limit'),
    fun limit' key' other => (recorded.silent limit' key' other).trans (quiet.silent limit' key')⟩
  · rw [← quiet.same limit]
    exact free
  · rw [← quiet.same limit]
    exact table
  · rw [← quiet.silent limit key]
    exact attempt

theorem Recorded.before (recorded : Recorded limit key p p₁) (quiet : Unlimited p₁ p') :
    Recorded limit key p p' := by
  obtain ⟨checked, time, first, second, third, free, table, attempt⟩ := recorded.attempt
  exact ⟨⟨checked, time, first, second, third.trans quiet.later, free,
      (quiet.same limit).trans table, (quiet.silent limit key).trans attempt⟩,
    fun limit' other => (quiet.same limit').trans (recorded.others limit' other),
    fun limit' key' other => (quiet.silent limit' key').trans (recorded.silent limit' key' other)⟩

end Recorded

/-! ## The helpers of the limiter -/

section Helpers

variable {signing : SigningFn} {s : State} {calls : List SignerCall}

theorem Unlimited.of_now {time : Nat} (later : s.clock ≤ time) :
    Unlimited (s, calls) ({ s with clock := time }, ⟨.now, time⟩ :: calls) :=
  ⟨fun limit => by cases limit <;> rfl, fun limit _ => by cases limit <;> rfl, later⟩

theorem Unlimited.of_get {c : Coll} {key : Str} {answer : Option c.Val} :
    Unlimited (s, calls) (s, ⟨.get c key, answer⟩ :: calls) :=
  ⟨fun _ => rfl, fun limit _ => by cases limit <;> rfl, le_refl _⟩

/-- The check reads the clock once if there is a bucket. -/
theorem isRateLimited_checked {bucket : Option RateLimitBucket} {config : RateLimitConfig} :
    Prog.wp (traced signing (· ≤ ·)) (isRateLimited bucket config)
      (fun r p => ∃ limited, r = some limited ∧ Unlimited (s, calls) p ∧
        (limited = false → ∃ checked, s.clock ≤ checked ∧ checked ≤ p.1.clock ∧
          ∀ b, bucket = some b → b.isLimited config checked = false)) (s, calls) := by
  cases bucket with
  | none => exact ⟨false, rfl, .refl _, fun _ => ⟨s.clock, le_refl _, le_refl _, nofun⟩⟩
  | some bucket =>
    unfold isRateLimited
    rw [wp_now]
    intro time later
    refine ⟨_, rfl, .of_now later, fun free => ⟨time, later, le_refl _, ?_⟩⟩
    rintro b same
    cases same
    exact free

/-- The check moves the clock and nothing else, and tests the bucket at the time it leaves. -/
theorem isRateLimited_read {R : Nat → Nat → Prop} [IsPreorder Nat R]
    {bucket : Option RateLimitBucket} {config : RateLimitConfig} :
    Prog.wp (traced signing R) (isRateLimited bucket config)
      (fun r p => ∃ limited, r = some limited ∧ ∃ time, R s.clock time ∧
        p = ({ s with clock := time }, bucket.elim calls fun _ => ⟨.now, time⟩ :: calls) ∧
        limited = bucket.any fun b => b.isLimited config time) (s, calls) := by
  cases bucket with
  | none => exact ⟨false, rfl, s.clock, refl_of R _, rfl, rfl⟩
  | some bucket =>
    unfold isRateLimited
    rw [wp_now]
    intro time later
    exact ⟨_, rfl, time, later, rfl, rfl⟩

theorem recordedAt_lastAttempt (bucket : Option RateLimitBucket) (config : RateLimitConfig)
    (time : Nat) : (recordedAt bucket config time).lastAttempt = time := by
  unfold recordedAt
  split
  · split <;> rfl
  · rfl

/-- Writing the recorded bucket, after the check and a quiet stretch. -/
theorem Recorded.of_write {limit : Limit} {key : Str} {p p₁ p' : State × List SignerCall}
    {checked time : Nat} {call : SignerCall} (first : p.1.clock ≤ checked)
    (second : checked ≤ p₁.1.clock)
    (free : ∀ b, (limit.buckets p.1).get key = some b → b.isLimited limit.config checked = false)
    (quiet : Unlimited p p₁) (third : p₁.1.clock ≤ time) (clock : p'.1.clock = time)
    (written : ∀ limit', limit'.written call = if limit' = limit then
      some (key, recordedAt ((limit.buckets p.1).get key) limit.config time) else none)
    (table : ∀ limit', limit'.buckets p'.1 = if limit' = limit then (limit.buckets p₁.1).set key
      (recordedAt ((limit.buckets p.1).get key) limit.config time) else limit'.buckets p₁.1)
    (traced : p'.2 = call :: ⟨.now, time⟩ :: p₁.2) : Recorded limit key p p' := by
  have reading : ∀ limit' : Limit, limit'.written ⟨.now, time⟩ = none := by
    intro limit'
    cases limit' <;> rfl
  refine ⟨⟨checked, time, first, second.trans third, clock.ge, free, ?_, ?_⟩, ?_, ?_⟩
  · rw [table limit, if_pos rfl, quiet.same limit]
  · rw [traced, ← quiet.silent limit key]
    simp [Limit.attempts, written limit, reading limit, recordedAt_lastAttempt]
  · intro limit' other
    rw [table limit', if_neg other, quiet.same limit']
  · intro limit' key' other
    rw [traced, ← quiet.silent limit' key']
    by_cases same : limit' = limit
    · subst same
      have different : key ≠ key' := fun h => other.elim (fun h => h rfl) (fun h' => h' h.symm)
      simp [Limit.attempts, written limit', reading limit', different]
    · simp [Limit.attempts, written limit', reading limit', same]

theorem wp_recordAttempt {α : Type} {R : Nat → Nat → Prop} {bucket : Option RateLimitBucket}
    {config : RateLimitConfig} {f : RateLimitBucket → SignerProg α}
    {Q : Option α → State × List SignerCall → Prop} :
    Prog.wp (traced signing R) (recordAttempt bucket config >>= f) Q (s, calls) ↔
      ∀ time, R s.clock time →
        Prog.wp (traced signing R) (f (recordedAt bucket config time)) Q
          ({ s with clock := time }, ⟨.now, time⟩ :: calls) :=
  wp_now

theorem checkAndRecordRateLimit_recorded {client : Str} :
    Prog.wp (traced signing (· ≤ ·)) (checkAndRecordRateLimit client)
      (fun r p => ∃ admitted, r = some admitted ∧
        (admitted = false → Unlimited (s, calls) p) ∧
        (admitted = true → Recorded .client client (s, calls) p)) (s, calls) := by
  unfold checkAndRecordRateLimit
  rw [wp_get]
  have read : Unlimited (s, calls) (s, ⟨.get rateLimitByClient client,
      (s.table rateLimitByClient).get client⟩ :: calls) := .of_get
  refine Prog.wp_then isRateLimited_checked ?_
  rintro limited ⟨s₁, calls₁⟩ ⟨quiet, passed⟩
  cases limited with
  | true => exact ⟨false, rfl, fun _ => read.trans quiet, nofun⟩
  | false =>
    obtain ⟨checked, first, second, free⟩ := passed rfl
    simp only [Bool.false_eq_true, if_false]
    rw [wp_recordAttempt]
    intro time third
    rw [wp_set]
    refine ⟨true, rfl, nofun, fun _ => ?_⟩
    exact .of_write first second free (read.trans quiet) third rfl (by rintro (_ | _) <;> rfl)
      (by rintro (_ | _) <;> rfl) rfl

end Helpers

/-! ## Sign and ECDH requests -/

/-- The answers of a request that the limiter has not let through. -/
def notAdmitted : List Response :=
  [refuse "No session found for client", refuse "Session is deactivated",
    refuse "Rate limit exceeded. Please try again later.",
    refuse "Failed to validate request data."]

section Signing

variable {Pt : Type} [AddCommGroup Pt] [Module Scalar Pt] [Curve Pt]
variable {signing : SigningFn} {s : State} {calls : List SignerCall}

/-- A request of a client, with its answer: refused and unrecorded, or recorded. -/
def Accounted (client : Str) (p : State × List SignerCall) (r : Option Response)
    (p' : State × List SignerCall) : Prop :=
  (Unlimited p p' ∧ ∃ response ∈ notAdmitted, r = some response) ∨ Recorded .client client p p'

theorem Accounted.after {client : Str} {p p₁ p' : State × List SignerCall} {r : Option Response}
    (quiet : Unlimited p p₁) (accounted : Accounted client p₁ r p') : Accounted client p r p' := by
  obtain ⟨refused, answer⟩ | recorded := accounted
  · exact .inl ⟨quiet.trans refused, answer⟩
  · exact .inr (recorded.after quiet)

/-- The limiter in front of a program that writes no bucket. -/
theorem limited_accounted {client : Str} {rest : SignerProg Response}
    (only : rest.Only fun o => ¬ o.WritesBucket) (p : State × List SignerCall) :
    Prog.wp (traced signing (· ≤ ·)) (checkAndRecordRateLimit client >>= fun admitted =>
        if !admitted then pure (refuse "Rate limit exceeded. Please try again later.") else rest)
      (Accounted client p) p := by
  refine Prog.wp_then checkAndRecordRateLimit_recorded ?_
  rintro admitted p₁ ⟨refused, passed⟩
  cases admitted with
  | false => exact .inl ⟨refused rfl, _, by simp [notAdmitted], rfl⟩
  | true =>
    simp only [Bool.not_true, Bool.false_eq_true, if_false]
    refine Prog.wp_mono ?_ _ _ (unlimited_of_only only p₁)
    intro r p' quiet
    exact .inr ((passed rfl).before quiet)

theorem handleEcdh_accounted {auth : NostrAuth} {data : EcdhRequest} :
    Prog.wp (traced signing (· ≤ ·)) (handleEcdh Pt auth data)
      (Accounted auth.pubkey (s, calls)) (s, calls) := by
  unfold handleEcdh
  dsimp only
  rw [wp_get]
  cases (s.table sessions).get auth.pubkey with
  | none => exact .inl ⟨.of_get, _, by simp [notAdmitted], rfl⟩
  | some session =>
    dsimp only
    split
    · exact .inl ⟨.of_get, _, by simp [notAdmitted], rfl⟩
    refine Prog.wp_mono (fun _ _ => Accounted.after .of_get) _ _ (limited_accounted ?_ _)
    split
    · trivial
    refine (only_ofResult _).bind fun result => ?_
    cases result with
    | error e => trivial
    | ok result => exact ⟨id, fun _ => ⟨id, fun _ => trivial⟩⟩

theorem handleSignComplete_accounted [Sha2] {auth : NostrAuth} {data : SignCompleteRequest} :
    Prog.wp (traced signing (· ≤ ·)) (handleSignComplete Pt auth data)
      (Accounted auth.pubkey (s, calls)) (s, calls) := by
  unfold handleSignComplete
  dsimp only
  rw [wp_get]
  cases (s.table sessions).get auth.pubkey with
  | none => exact .inl ⟨.of_get, _, by simp [notAdmitted], rfl⟩
  | some session =>
    dsimp only
    split
    · exact .inl ⟨.of_get, _, by simp [notAdmitted], rfl⟩
    refine Prog.wp_mono (fun _ _ => Accounted.after .of_get) _ _ (limited_accounted ?_ _)
    rw [takeCommit, Prog.only_op_bind]
    refine ⟨id, fun taken => ?_⟩
    cases taken with
    | none => trivial
    | some entry =>
      dsimp only
      split
      · trivial
      split
      · trivial
      refine (only_ofResult _).bind fun own => ?_
      split
      · split
        · trivial
        refine ⟨id, fun outcome => (only_ofResult _).bind fun result => ?_⟩
        cases result with
        | error e => trivial
        | ok result => exact ⟨id, fun _ => ⟨id, fun _ => trivial⟩⟩
      · trivial

theorem handleSignCommit_accounted [Sha2] {auth : NostrAuth} {data : SignCommitRequest} :
    Prog.wp (traced signing (· ≤ ·)) (handleSignCommit Pt auth data)
      (Accounted auth.pubkey (s, calls)) (s, calls) := by
  unfold handleSignCommit
  dsimp only
  rw [wp_get]
  cases (s.table sessions).get auth.pubkey with
  | none => exact .inl ⟨.of_get, _, by simp [notAdmitted], rfl⟩
  | some session =>
    dsimp only
    split
    · exact .inl ⟨.of_get, _, by simp [notAdmitted], rfl⟩
    refine Prog.wp_mono (fun _ _ => Accounted.after .of_get) _ _ (limited_accounted ?_ _)
    split
    · trivial
    cases decode32 session.share.seckey with
    | none => trivial
    | some seckey =>
      refine ⟨id, fun binderSeed => ⟨id, fun hiddenSeed => (only_ofResult _).bind fun pkg => ?_⟩⟩
      cases pkg with
      | error e => trivial
      | ok pkg =>
        refine ⟨id, fun commitId => ⟨id, fun createdAt => ⟨id, fun _ => ?_⟩⟩⟩
        refine (only_ofResult _).bind fun pubkey => ?_
        cases pubkey <;> trivial

end Signing

/-! ## Challenges and logins -/

/-- The call stores a one-time password for an email hash. -/
def storesOtp (emailHash : Str) : SignerCall → Bool
  | ⟨.set .challenges key _, _⟩ => key == emailHash
  | _ => false

/-- The call reads an index entry, the first thing an evaluation of credentials does. -/
def readsIndex (emailHash : Str) : SignerCall → Bool
  | ⟨.get .sessionsByEmailHash key, _⟩ => key == emailHash
  | _ => false

section Emails

variable {options : SignerOptions} {signing : SigningFn} {s : State} {calls : List SignerCall}

theorem only_isRateLimited {P : Op → Prop} (clock : P .now) (bucket : Option RateLimitBucket)
    (config : RateLimitConfig) : (isRateLimited bucket config).Only P := by
  cases bucket with
  | none => trivial
  | some bucket => exact ⟨clock, fun _ => trivial⟩

theorem only_challengeRecipient {P : Op → Prop} (reads : ∀ c key, P (.get c key))
    (emailHash : Str) : (challengeRecipient emailHash).Only P := by
  unfold challengeRecipient
  rw [Prog.only_op_bind]
  refine ⟨reads _ _, fun index => ?_⟩
  cases index with
  | none => trivial
  | some index =>
    dsimp only
    split
    · trivial
    · rw [Prog.only_op_bind]
      refine ⟨reads _ _, fun session => ?_⟩
      cases session <;> trivial

theorem wp_randomInt {α : Type} {R : Nat → Nat → Prop} {min max : UInt32}
    {f : UInt32 → SignerProg α} {Q : Option α → State × List SignerCall → Prop} :
    Prog.wp (traced signing R) (randomInt min max >>= f) Q (s, calls) ↔
      ∀ word, Prog.wp (traced signing R) (f (min + word % (max - min))) Q
        (s, ⟨.randomU32, word⟩ :: calls) :=
  wp_randomU32

/-- A challenge stores a one-time password only after it has recorded an attempt. -/
theorem handleChallenge_accounted {data : ChallengeRequest} (h : Str) :
    Prog.wp (traced signing (· ≤ ·)) (handleChallenge options data)
      (fun _ p => (Unlimited (s, calls) p ∧
          p.2.countP (storesOtp h) = calls.countP (storesOtp h)) ∨
        (Recorded .email data.emailHash (s, calls) p ∧ p.2.countP (storesOtp h) =
          calls.countP (storesOtp h) + if data.emailHash = h then 1 else 0)) (s, calls) := by
  have uncounted : ∀ (o : Op) (answer : Ans o),
      (o = .now ∨ ∃ c key, o = .get c key) → storesOtp h ⟨o, answer⟩ = false := by
    rintro o answer (rfl | ⟨c, key, rfl⟩) <;> rfl
  unfold handleChallenge
  rw [wp_get]
  have read : Unlimited (s, calls) (s, ⟨.get rateLimitByEmailHash data.emailHash,
      (s.table rateLimitByEmailHash).get data.emailHash⟩ :: calls) := .of_get
  refine Prog.wp_seq (Prog.wp_and isRateLimited_checked (Prog.wp_countP uncounted
    (fun _ _ => trivial) (only_isRateLimited (.inl rfl) _ _) _)) ?_ ?_
  · rintro limited ⟨s₁, calls₁⟩ ⟨⟨_, same, checkedQuiet, passed⟩, count⟩
    cases same
    have count : calls₁.countP (storesOtp h) = calls.countP (storesOtp h) := count
    cases limited with
    | true => exact .inl ⟨read.trans checkedQuiet, count⟩
    | false =>
      obtain ⟨checked, first, second, free⟩ := passed rfl
      simp only [Bool.false_eq_true, if_false]
      refine Prog.wp_seq (Prog.wp_and
        (unlimited_of_only (only_challengeRecipient (fun _ _ => id) _) _)
        (Prog.wp_countP uncounted (fun _ _ => trivial)
          (only_challengeRecipient (fun c key => .inr ⟨c, key, rfl⟩) _) _)) ?_ ?_
      · rintro recipient ⟨s₂, calls₂⟩ ⟨found, count₂⟩
        have count₂ : calls₂.countP (storesOtp h) = calls.countP (storesOtp h) :=
          Eq.trans count₂ count
        cases recipient with
        | none => exact .inl ⟨(read.trans checkedQuiet).trans found, count₂⟩
        | some email =>
          dsimp only
          rw [wp_recordAttempt]
          intro time third
          rw [wp_set]
          -- The attempt is on record; what follows stores the password once.
          refine Prog.wp_mono ?_ _ _ (Prog.wp_and (Q := fun _ p => p.2.countP (storesOtp h) =
            calls.countP (storesOtp h) + if data.emailHash = h then 1 else 0)
            (unlimited_of_only ?_ _) ?_)
          · rintro r p ⟨quiet, counted⟩
            refine .inr ⟨Recorded.before ?_ quiet, counted⟩
            exact .of_write first (second.trans found.later) free
              ((read.trans checkedQuiet).trans found) third rfl
              (by rintro (_ | _) <;> rfl) (by rintro (_ | _) <;> rfl) rfl
          · refine ⟨id, fun word => ⟨id, fun createdAt => ⟨id, fun _ => ?_⟩⟩⟩
            split
            · trivial
            split
            · exact ⟨id, fun _ => trivial⟩
            · trivial
          · have stored : ∀ (bucket : RateLimitBucket) (challenge : SignerChallenge) word createdAt,
                List.countP (storesOtp h) (⟨.set challenges data.emailHash challenge, ()⟩ ::
                  ⟨.now, createdAt⟩ :: ⟨.randomU32, word⟩ ::
                  ⟨.set rateLimitByEmailHash data.emailHash bucket, ()⟩ :: ⟨.now, time⟩ :: calls₂) =
                calls.countP (storesOtp h) + if data.emailHash = h then 1 else 0 := by
              intro bucket challenge word createdAt
              simp [List.countP_cons, storesOtp, count₂]
            rw [wp_randomInt]
            intro word
            rw [wp_now]
            intro createdAt later
            rw [wp_set]
            split
            · exact stored _ _ _ _
            split
            · rw [wp_sendMail]
              exact stored _ _ _ _
            · exact stored _ _ _ _
      · rintro p ⟨found, count₂⟩
        exact .inl ⟨(read.trans checkedQuiet).trans found, Eq.trans count₂ count⟩
  · rintro p ⟨⟨_, impossible, _⟩, _⟩
    cases impossible

theorem only_indexedSessions {P : Op → Prop} (reads : ∀ c key, P (.get c key))
    (index : SessionIndex) : (indexedSessions index).Only P :=
  Prog.only_filterMap (fun _ => Prog.only_op.mpr (reads _ _)) _

theorem only_evaluateAuth {P : Op → Prop} (reads : ∀ c key, P (.get c key))
    (consumes : ∀ key, P (.delete challenges key)) (auth : Auth) (index : Option SessionIndex) :
    (evaluateAuth auth index).Only P := by
  cases index with
  | none => trivial
  | some index =>
    have listed := only_indexedSessions reads index
    cases auth with
    | password emailHash passwordHash => exact listed.bind fun _ => trivial
    | otp emailHash otp =>
      refine ⟨reads _ _, fun challenge => ?_⟩
      cases challenge with
      | none => trivial
      | some challenge =>
        refine ⟨consumes _, fun _ => ?_⟩
        split
        · exact listed
        · trivial

theorem only_getAuthenticatedSessions {P : Op → Prop} (clock : P .now)
    (reads : ∀ c key, P (.get c key)) (consumes : ∀ key, P (.delete challenges key))
    (records : ∀ key bucket, P (.set rateLimitByEmailHash key bucket)) (auth : Auth) :
    (getAuthenticatedSessions auth).Only P := by
  unfold getAuthenticatedSessions
  dsimp only
  rw [Prog.only_op_bind]
  refine ⟨reads _ _, fun bucket => (only_isRateLimited clock _ _).bind fun limited => ?_⟩
  split
  · trivial
  rw [Prog.only_op_bind]
  refine ⟨reads _ _, fun index => (only_evaluateAuth reads consumes _ _).bind fun found => ?_⟩
  split
  · exact ⟨clock, fun _ => ⟨records _ _, fun _ => trivial⟩⟩
  · trivial

/-- An evaluation that opens no session is recorded. -/
theorem getAuthenticatedSessions_accounted {auth : Auth} (h : Str) :
    Prog.wp (traced signing (· ≤ ·)) (getAuthenticatedSessions auth)
      (fun r p => ∃ found, r = some found ∧
        ((Unlimited (s, calls) p ∧
          (found.isEmpty = false ∨ p.2.countP (readsIndex h) = calls.countP (readsIndex h))) ∨
        (found.isEmpty = true ∧ Recorded .email auth.emailHash (s, calls) p))) (s, calls) := by
  unfold getAuthenticatedSessions
  dsimp only
  rw [wp_get]
  have read : Unlimited (s, calls) (s, ⟨.get rateLimitByEmailHash auth.emailHash,
      (s.table rateLimitByEmailHash).get auth.emailHash⟩ :: calls) := .of_get
  refine Prog.wp_seq (Prog.wp_and isRateLimited_checked (Prog.wp_countP
    (f := readsIndex h) (P := fun o => Op.now = o) (by rintro _ answer rfl; rfl)
    (fun _ _ => trivial) (only_isRateLimited rfl _ _) _)) ?_ ?_
  · rintro limited ⟨s₁, calls₁⟩ ⟨⟨_, same, checkedQuiet, passed⟩, count⟩
    cases same
    -- The limiter reads its bucket and the clock, never the index.
    have count : calls₁.countP (readsIndex h) = calls.countP (readsIndex h) := count
    cases limited with
    | true =>
      exact ⟨[], rfl, .inl ⟨read.trans checkedQuiet, .inr count⟩⟩
    | false =>
      obtain ⟨checked, first, second, free⟩ := passed rfl
      simp only [Bool.false_eq_true, if_false]
      rw [wp_get]
      have indexRead : Unlimited _ (s₁, ⟨.get sessionsByEmailHash auth.emailHash,
          (s₁.table sessionsByEmailHash).get auth.emailHash⟩ :: calls₁) :=
        checkedQuiet.trans .of_get
      refine Prog.wp_seq (Prog.wp_and
        (unlimited_of_only (only_evaluateAuth (fun _ _ => id) (fun _ => id) _ _) _)
        evaluateAuth_spec) ?_ ?_
      · rintro found ⟨s₂, calls₂⟩ ⟨evaluated, _⟩
        have quiet := (read.trans indexRead).trans evaluated
        split
        next empty =>
          rw [wp_recordAttempt]
          intro time third
          rw [wp_set]
          refine ⟨found, rfl, .inr ⟨empty, ?_⟩⟩
          exact .of_write first (second.trans evaluated.later) free quiet third rfl
            (by rintro (_ | _) <;> rfl) (by rintro (_ | _) <;> rfl) rfl
        next present =>
          exact ⟨found, rfl, .inl ⟨quiet, .inl (by simpa using present)⟩⟩
      · rintro p ⟨_, _, impossible, _⟩
        cases impossible
  · rintro p ⟨⟨_, impossible, _⟩, _⟩
    cases impossible

theorem only_checkKeyReuse {P : Op → Prop} (sessions_ : ∀ key, P (.get sessions key))
    (recoveries_ : ∀ key, P (.get recoveries key)) (logins_ : ∀ key, P (.get logins key))
    (client : Str) : (checkKeyReuse client).Only P := by
  unfold checkKeyReuse
  rw [Prog.only_op_bind]
  refine ⟨sessions_ _, fun session => ?_⟩
  split
  · trivial
  rw [Prog.only_op_bind]
  refine ⟨recoveries_ _, fun recovery => ?_⟩
  split
  · trivial
  rw [Prog.only_op_bind]
  refine ⟨logins_ _, fun login => ?_⟩
  split <;> trivial

theorem only_startWith {P : Op → Prop} {record : Str → Nat → List Str → SignerProg Unit}
    {success : String} (clock : P .now) (reads : ∀ c key, P (.get c key))
    (consumes : ∀ key, P (.delete challenges key))
    (records : ∀ key bucket, P (.set rateLimitByEmailHash key bucket))
    (recorded : ∀ client createdAt clients, (record client createdAt clients).Only P)
    (auth : NostrAuth) (data : StartRequest Auth) :
    (startWith record success auth data).Only P := by
  have reuse := only_checkKeyReuse (fun _ => reads _ _) (fun _ => reads _ _) (fun _ => reads _ _)
    auth.pubkey
  unfold startWith
  refine reuse.bind fun reused => ?_
  split
  · trivial
  refine (only_getAuthenticatedSessions clock reads consumes records _).bind fun found => ?_
  split
  · trivial
  rw [Prog.only_op_bind]
  exact ⟨clock, fun _ => (recorded _ _ _).bind fun _ => trivial⟩

theorem startWith_accounted {record : Str → Nat → List Str → SignerProg Unit} {success : String}
    {auth : NostrAuth} {data : StartRequest Auth} (h : Str)
    (recorded : ∀ createdAt clients p, Prog.wp (traced signing (· ≤ ·))
      (record auth.pubkey createdAt clients) (fun r p' => r = some () ∧ Unlimited p p') p) :
    Prog.wp (traced signing (· ≤ ·)) (startWith record success auth data)
      (fun r p => (Unlimited (s, calls) p ∧ ((∃ response, r = some response ∧ response.ok = true) ∨
          p.2.countP (readsIndex h) = calls.countP (readsIndex h))) ∨
        Recorded .email data.auth.emailHash (s, calls) p) (s, calls) := by
  unfold startWith
  dsimp only
  refine Prog.wp_seq (Prog.wp_and (unlimited_of_only (only_checkKeyReuse (fun _ => id)
    (fun _ => id) (fun _ => id) _) _) (Prog.wp_countP (f := readsIndex h)
    (P := fun o => ∀ answer, readsIndex h ⟨o, answer⟩ = false) (fun o answer unread => unread answer)
    (fun _ _ => trivial) (only_checkKeyReuse (fun _ _ => rfl) (fun _ _ => rfl) (fun _ _ => rfl) _) _)) ?_ ?_
  · rintro reused ⟨s₁, calls₁⟩ ⟨quiet, count⟩
    split
    · exact .inl ⟨quiet, .inr count⟩
    refine Prog.wp_seq (getAuthenticatedSessions_accounted h) ?_ ?_
    · rintro found ⟨s₂, calls₂⟩ ⟨_, same, evaluated⟩
      cases same
      obtain ⟨quiet₂, opened⟩ | ⟨none_, attempt⟩ := evaluated
      · split
        next none_ =>
          rw [none_] at opened
          refine .inl ⟨quiet.trans quiet₂, .inr ?_⟩
          exact (opened.resolve_left nofun).trans count
        next =>
          rw [wp_now]
          intro createdAt later
          refine Prog.wp_unit (recorded _ _ _) ?_
          intro p written
          exact .inl ⟨((quiet.trans quiet₂).trans (.of_now later)).trans written,
            .inl ⟨_, rfl, rfl⟩⟩
      · rw [if_pos none_]
        exact .inr (attempt.after quiet)
    · rintro p ⟨_, impossible, _⟩
      cases impossible
  · rintro p ⟨quiet, count⟩
    exact .inl ⟨quiet, .inr count⟩

theorem handleLoginStart_accounted {auth : NostrAuth} {data : StartRequest Auth} (h : Str) :
    Prog.wp (traced signing (· ≤ ·)) (handleLoginStart auth data)
      (fun r p => (Unlimited (s, calls) p ∧ ((∃ response, r = some response ∧ response.ok = true) ∨
          p.2.countP (readsIndex h) = calls.countP (readsIndex h))) ∨
        Recorded .email data.auth.emailHash (s, calls) p) (s, calls) := by
  apply startWith_accounted h
  rintro createdAt clients ⟨s₁, calls₁⟩
  rw [Coll.set, Prog.op_eq, wp_set]
  exact ⟨rfl, fun limit => by cases limit <;> rfl, fun limit _ => by cases limit <;> rfl, le_refl _⟩

theorem handleRecoveryStart_accounted {auth : NostrAuth} {data : StartRequest Auth} (h : Str) :
    Prog.wp (traced signing (· ≤ ·)) (handleRecoveryStart auth data)
      (fun r p => (Unlimited (s, calls) p ∧ ((∃ response, r = some response ∧ response.ok = true) ∨
          p.2.countP (readsIndex h) = calls.countP (readsIndex h))) ∨
        Recorded .email data.auth.emailHash (s, calls) p) (s, calls) := by
  apply startWith_accounted h
  rintro createdAt clients ⟨s₁, calls₁⟩
  rw [Coll.set, Prog.op_eq, wp_set]
  exact ⟨rfl, fun limit => by cases limit <;> rfl, fun limit _ => by cases limit <;> rfl, le_refl _⟩

end Emails

/-! ## Cleanup -/

/-- The cleanup deletes buckets and writes none. -/
theorem cleanup_silent {signing : SigningFn} {p : State × List SignerCall} (limit : Limit)
    (key : Str) : Prog.wp (traced signing (· ≤ ·)) cleanup
      (fun _ p' => limit.attempts key p'.2 = limit.attempts key p.2) p := by
  have only : cleanup.Only fun o => ∀ answer, limit.written ⟨o, answer⟩ = none := by
    apply only_cleanup
    all_goals intros
    all_goals cases limit <;> rfl
  refine Prog.wp_of_only (W := traced signing (· ≤ ·))
    (R := fun p p' => limit.attempts key p'.2 = limit.attempts key p.2)
    (fun _ => rfl) ?_ ?_ (fun _ _ => trivial) only p
  · intro p p' p'' first second
    exact second.trans first
  · rintro o p answer p' unwritten step
    rw [step.2]
    simp [Limit.attempts, unwritten answer]

end Pomade.Signer
