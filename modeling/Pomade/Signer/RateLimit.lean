import Pomade.Lib.Window
import Pomade.Signer.Index
import Pomade.Signer.Limiter

/-! # The rate limits hold

The attempts recorded for one key form a chain of the limiter, whatever other requests
and cleanups come in between, so no window sees more of them than the limit allows.
-/

namespace Pomade.Signer

open Pomade.Lib Pomade.Frost Coll

/-! ## One bucket -/

/-- What one job does to one bucket; the times are those of the attempts it records. -/
inductive BucketStep (config : RateLimitConfig) (old new : Option RateLimitBucket)
    (times : List Nat) (clock clock' : Nat) : Prop where
  | kept (same : new = old) (silent : times = []) (later : clock ≤ clock')
  | swept {bucket : RateLimitBucket} {time : Nat} (stored : old = some bucket) (gone : new = none)
      (silent : times = []) (later : clock ≤ clock') (read : time ≤ clock')
      (expired : bucket.lastAttempt < saturatingSub time config.windowSeconds)
  | recorded {checked time : Nat} (first : clock ≤ checked) (second : checked ≤ time)
      (third : time ≤ clock')
      (free : ∀ bucket, old = some bucket → bucket.isLimited config checked = false)
      (stored : new = some (recordedAt old config time)) (attempt : times = [time])

section Buckets

variable {Pt : Type} [AddCommGroup Pt] [Module Scalar Pt] [Curve Pt] [Sha2] [Argon2]
variable {options : SignerOptions} {signing : SigningFn} {s : State} {p : State × List SignerCall}

omit [Sha2] [Argon2] in
theorem Unlimited.bucketStep (quiet : Unlimited (s, []) p) (limit : Limit) (key : Str) :
    BucketStep limit.config ((limit.buckets s).get key) ((limit.buckets p.1).get key)
      (limit.attempts key p.2) s.clock p.1.clock :=
  .kept (by rw [quiet.same limit]) (quiet.silent limit key) quiet.later

omit [Sha2] [Argon2] in
theorem Recorded.bucketStep {limit : Limit} {key : Str} (recorded : Recorded limit key (s, []) p)
    (limit' : Limit) (key' : Str) :
    BucketStep limit'.config ((limit'.buckets s).get key') ((limit'.buckets p.1).get key')
      (limit'.attempts key' p.2) s.clock p.1.clock := by
  obtain ⟨checked, time, first, second, third, free, table, attempt⟩ := recorded.attempt
  have later : s.clock ≤ p.1.clock := first.trans (second.trans third)
  by_cases same : limit' = limit
  · subst same
    by_cases here : key' = key
    · subst here
      exact .recorded first second third free (by rw [table, Table.get_set_self]) attempt
    · exact .kept (by rw [table, Table.get_set_ne here])
        (recorded.silent limit' key' (.inr here)) later
  · exact .kept (by rw [recorded.others limit' same])
      (recorded.silent limit' key' (.inl same)) later

theorem dispatch_bucketStep (auth : NostrAuth) (body : Body Auth) (limit : Limit) (key : Str) :
    Prog.wp (traced signing (· ≤ ·)) (dispatch Pt options auth body)
      (fun _ p => BucketStep limit.config ((limit.buckets s).get key)
        ((limit.buckets p.1).get key) (limit.attempts key p.2) s.clock p.1.clock) (s, []) := by
  have unlimited : ∀ {writes : List Coll} {program : SignerProg Response},
      program.Only (Op.Within writes) → rateLimitByClient ∉ writes →
      rateLimitByEmailHash ∉ writes → Prog.wp (traced signing (· ≤ ·)) program
        (fun _ p => BucketStep limit.config ((limit.buckets s).get key)
          ((limit.buckets p.1).get key) (limit.attempts key p.2) s.clock p.1.clock) (s, []) :=
    fun within client email => Prog.wp_mono (fun _ _ quiet => quiet.bucketStep limit key) _ _
      (unlimited_of_only (within.mono fun _ => Op.Within.unlimited client email) _)
  have of_accounted : ∀ (client : Str) (r : Option Response) (p : State × List SignerCall),
      Accounted client (s, []) r p → BucketStep limit.config ((limit.buckets s).get key)
        ((limit.buckets p.1).get key) (limit.attempts key p.2) s.clock p.1.clock := by
    rintro client r p (⟨quiet, _⟩ | recorded)
    · exact quiet.bucketStep limit key
    · exact recorded.bucketStep limit key
  cases body with
  | challenge data =>
    refine Prog.wp_mono ?_ _ _ (handleChallenge_accounted key)
    rintro r p (⟨quiet, _⟩ | ⟨recorded, _⟩)
    · exact quiet.bucketStep limit key
    · exact recorded.bucketStep limit key
  | ecdh data => exact Prog.wp_mono (of_accounted _) _ _ handleEcdh_accounted
  | loginSelect data => exact unlimited (within_handleLoginSelect auth data) (by decide) (by decide)
  | loginStart data =>
    refine Prog.wp_mono ?_ _ _ (handleLoginStart_accounted key)
    rintro r p (⟨quiet, _⟩ | recorded)
    · exact quiet.bucketStep limit key
    · exact recorded.bucketStep limit key
  | recoverySelect data => exact unlimited (within_handleRecoverySelect auth data) (by decide) (by decide)
  | recoverySetup data => exact unlimited (within_handleRecoverySetup auth data) (by decide) (by decide)
  | recoveryStart data =>
    refine Prog.wp_mono ?_ _ _ (handleRecoveryStart_accounted key)
    rintro r p (⟨quiet, _⟩ | recorded)
    · exact quiet.bucketStep limit key
    · exact recorded.bucketStep limit key
  | register data => exact unlimited (within_handleRegister auth data) (by decide) (by decide)
  | sessionDeactivate data => exact unlimited (within_handleSessionDeactivate auth data) (by decide) (by decide)
  | sessionDelete data => exact unlimited (within_handleSessionDelete auth data) (by decide) (by decide)
  | sessionList => exact unlimited (within_handleSessionList auth) nofun nofun
  | signCommit data => exact Prog.wp_mono (of_accounted _) _ _ handleSignCommit_accounted
  | signComplete data => exact Prog.wp_mono (of_accounted _) _ _ handleSignComplete_accounted

omit [Sha2] [Argon2] in
/-- A swept table has lost a bucket only for its age. -/
theorem Swept.bucketStep {limit : Limit} {key : Str} (clock : s.clock ≤ p.1.clock)
    (silent : limit.attempts key p.2 = [])
    (swept : Swept (fun bucket => ∃ time, time ≤ p.1.clock ∧
      bucket.lastAttempt < saturatingSub time limit.config.windowSeconds)
      (limit.buckets s) (limit.buckets p.1)) :
    BucketStep limit.config ((limit.buckets s).get key) ((limit.buckets p.1).get key)
      (limit.attempts key p.2) s.clock p.1.clock := by
  obtain same | ⟨gone, bucket, stored, time, read, expired⟩ := swept key
  · exact .kept same silent clock
  · exact .swept stored gone silent clock read expired

theorem handle_bucketStep (job : Job Auth) (limit : Limit) (key : Str) :
    Prog.wp (traced signing (· ≤ ·)) (handle Pt options job)
      (fun _ p => BucketStep limit.config ((limit.buckets s).get key)
        ((limit.buckets p.1).get key) (limit.attempts key p.2) s.clock p.1.clock) (s, []) := by
  unfold handle
  split
  · exact (Unlimited.refl _).bucketStep limit key
  · exact (Unlimited.refl _).bucketStep limit key
  · exact (Unlimited.refl _).bucketStep limit key
  · split
    · exact dispatch_bucketStep _ _ limit key
    · exact (Unlimited.refl _).bucketStep limit key
  · refine Prog.wp_seq (Prog.wp_and cleanup_spec (cleanup_silent limit key)) ?_ ?_
    · rintro _ p ⟨⟨_, time15m, timeMonth, cleaned, _⟩, silent⟩
      have later := (cleaned.first.trans cleaned.second).trans cleaned.later
      cases limit with
      | client => exact Swept.bucketStep later silent cleaned.clientBuckets
      | email => exact Swept.bucketStep later silent cleaned.emailBuckets
    · rintro p ⟨⟨impossible, _⟩, _⟩
      cases impossible

end Buckets

/-! ## The chain of a bucket -/

/-- A bucket counts the newest chain of the attempts made for its key; without a bucket
the newest attempt is out of the window. -/
def Tracks (config : RateLimitConfig) (bucket : Option RateLimitBucket) (clock : Nat)
    (times : List Nat) : Prop :=
  match bucket with
  | none => (∃ n, Chain config.windowSeconds config.maxAttempts.toNat times n) ∧
      ∀ t ∈ times, t + config.windowSeconds < clock
  | some b => Chain config.windowSeconds config.maxAttempts.toNat times b.attempts.toNat ∧
      times.head? = some b.lastAttempt ∧ b.lastAttempt ≤ clock

section Tracks

variable {config : RateLimitConfig} {old new : Option RateLimitBucket} {times recent : List Nat}
variable {clock clock' : Nat}

theorem Tracks.chain (tracks : Tracks config old clock times) :
    ∃ n, Chain config.windowSeconds config.maxAttempts.toNat times n := by
  cases old with
  | none => exact tracks.1
  | some b => exact ⟨_, tracks.1⟩

/-- All attempts are out of the window once the last one is. -/
theorem Tracks.apart {b : RateLimitBucket} {time : Nat} (tracks : Tracks config (some b) clock times)
    (expired : b.lastAttempt < saturatingSub time config.windowSeconds) :
    ∀ t ∈ times, t + config.windowSeconds < time := by
  obtain ⟨chain, head, _⟩ := tracks
  rw [saturatingSub_eq] at expired
  cases times with
  | nil => exact nofun
  | cons newest rest =>
    have same : newest = b.lastAttempt := Option.some.inj head
    intro t member
    obtain here | older := List.mem_cons.mp member
    · omega
    · have := chain.newest t older
      omega

theorem Tracks.record {checked time : Nat} (positive : 1 ≤ config.maxAttempts.toNat)
    (tracks : Tracks config old clock times) (first : clock ≤ checked) (second : checked ≤ time)
    (free : ∀ bucket, old = some bucket → bucket.isLimited config checked = false)
    (third : time ≤ clock') :
    Tracks config (some (recordedAt old config time)) clock' (time :: times) := by
  have fresh : (∀ t ∈ times, t + config.windowSeconds < time) →
      Tracks config (some { attempts := 1, firstAttempt := time, lastAttempt := time }) clock'
        (time :: times) := by
    intro apart
    obtain ⟨n, chain⟩ := tracks.chain
    exact ⟨.fresh chain apart positive, rfl, third⟩
  cases old with
  | none =>
    apply fresh
    intro t member
    have := tracks.2 t member
    omega
  | some b =>
    unfold recordedAt
    dsimp only
    split
    next recent =>
      -- Still in the window: the check has found room for one more.
      obtain ⟨chain, head, _⟩ := tracks
      have limited := free b rfl
      rw [saturatingSub_eq] at recent
      have room : b.attempts < config.maxAttempts := by
        unfold RateLimitBucket.isLimited at limited
        rw [saturatingSub_eq] at limited
        simp only [Bool.and_eq_false_imp, decide_eq_true_eq, decide_eq_false_iff_not] at limited
        exact UInt32.not_le.mp (limited (by omega))
      have room : b.attempts.toNat < config.maxAttempts.toNat := UInt32.lt_iff_toNat_lt.mp room
      have small := config.maxAttempts.toNat_lt
      have next : (b.attempts + 1).toNat = b.attempts.toNat + 1 := by
        rw [UInt32.toNat_add, UInt32.toNat_one, Nat.mod_eq_of_lt (by omega)]
      cases times with
      | nil => cases head
      | cons newest rest =>
        have same : newest = b.lastAttempt := Option.some.inj head
        refine ⟨?_, rfl, third⟩
        rw [next]
        exact .join chain (by omega) (by omega)
    next expired =>
      apply fresh
      exact tracks.apart (by omega)

theorem Tracks.step (positive : 1 ≤ config.maxAttempts.toNat)
    (tracks : Tracks config old clock times) (step : BucketStep config old new recent clock clock') :
    Tracks config new clock' (recent ++ times) := by
  cases step with
  | kept same silent later =>
    subst same silent
    cases new with
    | none => exact ⟨tracks.1, fun t member => lt_of_lt_of_le (tracks.2 t member) later⟩
    | some b => exact ⟨tracks.1, tracks.2.1, tracks.2.2.trans later⟩
  | swept stored gone silent later read expired =>
    subst stored gone silent
    refine ⟨tracks.chain, fun t member => ?_⟩
    exact lt_of_lt_of_le (tracks.apart expired t member) read
  | recorded first second third free stored attempt =>
    subst stored attempt
    exact tracks.record positive first second free third

theorem Tracks.counter {b : RateLimitBucket} (tracks : Tracks config (some b) clock times) :
    b.attempts ≤ config.maxAttempts :=
  UInt32.le_iff_toNat_le.mpr tracks.1.room_left

end Tracks

theorem Limit.positive (limit : Limit) : 1 ≤ limit.config.maxAttempts.toNat := by
  cases limit <;> decide

/-- The times of all attempts that a run records for a key, newest first. -/
def Limit.history (limit : Limit) (key : Str) (events : List RustEvent) : List Nat :=
  events.flatMap fun e => limit.attempts key e.calls

section Runs

variable {Pt : Type} [AddCommGroup Pt] [Module Scalar Pt] [Curve Pt] [Sha2] [Argon2]
variable {options : SignerOptions}

theorem bucketStep {e : RustEvent}
    (happens : e.Happens (rustWorld Pt (· ≤ ·)) (handle Pt options)) (limit : Limit) (key : Str) :
    BucketStep limit.config ((limit.buckets e.before).get key) ((limit.buckets e.after).get key)
      (limit.attempts key e.calls) e.before.clock e.after.clock :=
  happens.of_wp (handle_bucketStep e.job limit key)

/-- Every bucket of a reachable state tracks the attempts of the run. -/
theorem tracks_history {ok : RustEvent → Prop} {events : List RustEvent} {s : State}
    (run : RustRuns Pt options (· ≤ ·) Opened ok events s) (limit : Limit) (key : Str) :
    Tracks limit.config ((limit.buckets s).get key) s.clock (limit.history key events) := by
  induction run with
  | start s initial =>
    obtain ⟨clock, rfl⟩ := initial
    cases limit <;> exact ⟨⟨0, .start⟩, nofun⟩
  | step e _ happens _ ih => exact ih.step limit.positive (bucketStep happens limit key)

end Runs

/-! ## What is limited -/

instance {A : Type} : (body : Body A) → Decidable body.UsesShare
  | .signCommit _ | .signComplete _ | .ecdh _ => .isTrue trivial
  | .challenge _ | .loginSelect _ | .loginStart _ | .recoverySelect _ | .recoverySetup _
  | .recoveryStart _ | .register _ | .sessionDeactivate _ | .sessionDelete _ | .sessionList =>
    .isFalse id

/-- A sign or ECDH request of a client that the limiter has let through. -/
def admitted (client : Str) (e : RustEvent) : Bool :=
  match e.job with
  | .request (some auth) (.body body) =>
    decide body.UsesShare && decide (auth.pubkey = client) &&
      notAdmitted.all fun response => decide (e.result ≠ some response)
  | _ => false

/-- How many one-time passwords a challenge request has stored for an email hash. -/
def otpsIssued (emailHash : Str) (e : RustEvent) : Nat :=
  match e.job with
  | .request (some _) (.body (.challenge _)) => e.calls.countP (storesOtp emailHash)
  | _ => 0

/-- A login or recovery request has had its credentials evaluated, without success. -/
def failedEvaluation (emailHash : Str) (e : RustEvent) : Bool :=
  match e.job with
  | .request (some _) (.body (.loginStart data))
  | .request (some _) (.body (.recoveryStart data)) =>
    decide (data.auth.emailHash = emailHash) && e.calls.any (readsIndex emailHash) &&
      e.result.all fun response => !response.ok
  | _ => false

/-- The event has recorded an attempt between two times. -/
def Limit.datedIn (limit : Limit) (key : Str) (first last : Nat) (e : RustEvent) : Bool :=
  (limit.attempts key e.calls).any fun t => decide (first ≤ t ∧ t ≤ last)

/-- The event has recorded one attempt, while it ran. -/
def Dated (limit : Limit) (key : Str) (e : RustEvent) : Prop :=
  ∃ time, limit.attempts key e.calls = [time] ∧ e.before.clock ≤ time ∧ time ≤ e.after.clock

/-- The limits hold of a run and of the state it ends in.  An event is dated by the
attempt that it records. -/
structure WithinLimits (events : List RustEvent) (s : State) : Prop where
  requests : ∀ client first last, last ≤ first + clientRateLimits.windowSeconds →
    (events.filter fun e => admitted client e && Limit.client.datedIn client first last e).length ≤
      clientRateLimits.maxAttempts.toNat
  guesses : ∀ emailHash first last, last ≤ first + emailRateLimits.windowSeconds →
    ((events.filter fun e => Limit.email.datedIn emailHash first last e).map fun e =>
      otpsIssued emailHash e + (failedEvaluation emailHash e).toNat).sum ≤
      emailRateLimits.maxAttempts.toNat
  requestsDated : ∀ e ∈ events, ∀ client, admitted client e = true → Dated .client client e
  guessesDated : ∀ e ∈ events, ∀ emailHash,
    0 < otpsIssued emailHash e + (failedEvaluation emailHash e).toNat → Dated .email emailHash e
  counters : ∀ (limit : Limit) key bucket, (limit.buckets s).get key = some bucket →
    bucket.attempts ≤ limit.config.maxAttempts

theorem Recorded.dated {limit : Limit} {key : Str} {e : RustEvent}
    (recorded : Recorded limit key (e.before, []) (e.after, e.calls)) : Dated limit key e := by
  obtain ⟨checked, time, first, second, third, _, _, attempt⟩ := recorded.attempt
  exact ⟨time, attempt, first.trans second, third⟩

section Events

variable {Pt : Type} [AddCommGroup Pt] [Module Scalar Pt] [Curve Pt] [Sha2] [Argon2]
variable {options : SignerOptions} {e : RustEvent}

theorem handle_accounted {signing : SigningFn} {s : State} (auth : NostrAuth) (body : Body Auth)
    (uses : body.UsesShare) :
    Prog.wp (traced signing (· ≤ ·)) (handle Pt options (.request (some auth) (.body body)))
      (Accounted auth.pubkey (s, [])) (s, []) := by
  unfold handle
  dsimp only
  split
  · cases body with
    | ecdh data => exact handleEcdh_accounted
    | signCommit data => exact handleSignCommit_accounted
    | signComplete data => exact handleSignComplete_accounted
    | _ => exact uses.elim
  · exact .inl ⟨.refl _, _, by simp [notAdmitted], rfl⟩

theorem admitted_dated (happens : e.Happens (rustWorld Pt (· ≤ ·)) (handle Pt options))
    (client : Str) (passed : admitted client e = true) : Dated .client client e := by
  unfold admitted at passed
  split at passed
  next auth body job =>
    simp only [Bool.and_eq_true, decide_eq_true_eq, List.all_eq_true] at passed
    obtain ⟨⟨uses, rfl⟩, free⟩ := passed
    have accounted : Accounted auth.pubkey (e.before, []) e.result (e.after, e.calls) := by
      apply happens.of_wp
      rw [job]
      exact handle_accounted auth body uses
    obtain ⟨_, response, member, answer⟩ | recorded := accounted
    · exact absurd answer (free response member)
    · exact recorded.dated
  · cases passed

theorem otpsIssued_dated (happens : e.Happens (rustWorld Pt (· ≤ ·)) (handle Pt options))
    (emailHash : Str) :
    otpsIssued emailHash e = 0 ∨ (otpsIssued emailHash e = 1 ∧ Dated .email emailHash e) := by
  unfold otpsIssued
  split
  next auth data job =>
    have accounted : (e.calls.countP (storesOtp emailHash) = 0) ∨
        (Recorded .email data.emailHash (e.before, []) (e.after, e.calls) ∧
          e.calls.countP (storesOtp emailHash) = if data.emailHash = emailHash then 1 else 0) := by
      apply happens.of_wp (Q := fun _ p => p.2.countP (storesOtp emailHash) = 0 ∨
        (Recorded .email data.emailHash (e.before, []) p ∧
          p.2.countP (storesOtp emailHash) = if data.emailHash = emailHash then 1 else 0))
      rw [job]
      refine Prog.wp_mono ?_ _ _ (handleChallenge_accounted emailHash)
      rintro r p (⟨_, count⟩ | ⟨recorded, count⟩)
      · exact .inl count
      · exact .inr ⟨recorded, by simpa using count⟩
    obtain none_ | ⟨recorded, count⟩ := accounted
    · exact .inl none_
    · by_cases same : data.emailHash = emailHash
      · subst same
        exact .inr ⟨by simpa using count, recorded.dated⟩
      · exact .inl (by simpa [same] using count)
  · exact .inl rfl

theorem failedEvaluation_dated (happens : e.Happens (rustWorld Pt (· ≤ ·)) (handle Pt options))
    (emailHash : Str) (failed : failedEvaluation emailHash e = true) :
    Dated .email emailHash e := by
  have of_start : ∀ data : StartRequest Auth,
      (Unlimited (e.before, []) (e.after, e.calls) ∧
          ((∃ response, e.result = some response ∧ response.ok = true) ∨
            e.calls.countP (readsIndex emailHash) = 0)) ∨
        Recorded .email data.auth.emailHash (e.before, []) (e.after, e.calls) →
      (decide (data.auth.emailHash = emailHash) && e.calls.any (readsIndex emailHash) &&
        e.result.all fun response => !response.ok) = true → Dated .email emailHash e := by
    intro data accounted failed
    simp only [Bool.and_eq_true, decide_eq_true_eq] at failed
    obtain ⟨⟨rfl, evaluated⟩, refused⟩ := failed
    obtain ⟨_, ⟨response, answer, ok⟩ | unread⟩ | recorded := accounted
    · simp [answer, ok] at refused
    · rw [List.countP_eq_zero] at unread
      obtain ⟨call, member, reads⟩ := List.any_eq_true.mp evaluated
      exact absurd reads (unread call member)
    · exact recorded.dated
  unfold failedEvaluation at failed
  split at failed
  next auth data job =>
    refine of_start data ?_ failed
    apply happens.of_wp (Q := fun r p => (Unlimited (e.before, []) p ∧
      ((∃ response, r = some response ∧ response.ok = true) ∨
        p.2.countP (readsIndex emailHash) = 0)) ∨
      Recorded .email data.auth.emailHash (e.before, []) p)
    rw [job]
    exact handleLoginStart_accounted emailHash
  next auth data job =>
    refine of_start data ?_ failed
    apply happens.of_wp (Q := fun r p => (Unlimited (e.before, []) p ∧
      ((∃ response, r = some response ∧ response.ok = true) ∨
        p.2.countP (readsIndex emailHash) = 0)) ∨
      Recorded .email data.auth.emailHash (e.before, []) p)
    rw [job]
    exact handleRecoveryStart_accounted emailHash
  · cases failed

/-- An event counts at most once, and then it is dated. -/
theorem guesses_dated (happens : e.Happens (rustWorld Pt (· ≤ ·)) (handle Pt options))
    (emailHash : Str) :
    otpsIssued emailHash e + (failedEvaluation emailHash e).toNat = 0 ∨
      (otpsIssued emailHash e + (failedEvaluation emailHash e).toNat = 1 ∧
        Dated .email emailHash e) := by
  have exclusive : otpsIssued emailHash e = 0 ∨ failedEvaluation emailHash e = false := by
    unfold otpsIssued failedEvaluation
    split
    next job => exact .inr (by rw [job])
    next => exact .inl rfl
  obtain issued | ⟨issued, dated⟩ := otpsIssued_dated happens emailHash
  · cases failed : failedEvaluation emailHash e with
    | false => exact .inl (by rw [issued]; rfl)
    | true =>
      refine .inr ⟨by rw [issued]; rfl, failedEvaluation_dated happens emailHash failed⟩
  · have unfailed := exclusive.resolve_left (by omega)
    exact .inr ⟨by rw [issued, unfailed]; rfl, dated⟩

end Events

/-! ## Counting events by their attempts -/

/-- Events that count at most once each, and only with an attempt in the interval. -/
theorem sum_le_countIn {limit : Limit} {key : Str} {first last : Nat} {weight : RustEvent → Nat}
    {counted : RustEvent → Bool} {events : List RustEvent} (light : ∀ e ∈ events, weight e ≤ 1)
    (dated : ∀ e ∈ events, counted e = true → limit.datedIn key first last e = true) :
    ((events.filter counted).map weight).sum ≤ countIn first last (limit.history key events) := by
  induction events with
  | nil => exact Nat.zero_le _
  | cons e events ih =>
    rw [List.forall_mem_cons] at light dated
    have rest := ih light.2 dated.2
    have split : countIn first last (limit.history key (e :: events)) =
        countIn first last (limit.attempts key e.calls) +
          countIn first last (limit.history key events) := by
      simp [Limit.history, countIn, List.countP_append]
    rw [split]
    cases counts : counted e with
    | false =>
      rw [List.filter_cons_of_neg (by simp [counts])]
      omega
    | true =>
      have one : 0 < countIn first last (limit.attempts key e.calls) := by
        have inside := dated.1 counts
        unfold Limit.datedIn at inside
        obtain ⟨t, member, within⟩ := List.any_eq_true.mp inside
        exact List.countP_pos_iff.mpr ⟨t, member, within⟩
      have weight_ := light.1
      rw [List.filter_cons_of_pos counts, List.map_cons, List.sum_cons]
      omega

section Theorem

variable {Pt : Type} [AddCommGroup Pt] [Module Scalar Pt] [Curve Pt] [Sha2] [Argon2]
variable {options : SignerOptions}

theorem history_bounded {events : List RustEvent} {s : State}
    (run : RustRuns Pt options (· ≤ ·) Opened (fun _ => True) events s) (limit : Limit) (key : Str)
    {first last : Nat} (short : last ≤ first + limit.config.windowSeconds) :
    countIn first last (limit.history key events) ≤ limit.config.maxAttempts.toNat := by
  obtain ⟨n, chain⟩ := (tracks_history run limit key).chain
  exact (chain.countIn_le short).1

/-- Every run stays within the limits, in every interval of the window's width. -/
theorem rate_limits_hold {events : List RustEvent} {s : State}
    (run : RustRuns Pt options (· ≤ ·) Opened (fun _ => True) events s) :
    WithinLimits events s := by
  have happens : ∀ e ∈ events, e.Happens (rustWorld Pt (· ≤ ·)) (handle Pt options) :=
    fun e member => (run.of_mem member).2.1
  refine ⟨?_, ?_, ?_, ?_, ?_⟩
  · intro client first last short
    have bounded := history_bounded run .client client short
    have counted : ((events.filter fun e =>
        admitted client e && Limit.client.datedIn client first last e).map fun _ => 1).sum ≤
          countIn first last (Limit.client.history client events) :=
      sum_le_countIn (fun _ _ => le_refl _) (fun e _ both => (Bool.and_eq_true_iff.mp both).2)
    simp only [List.map_const', List.sum_replicate, smul_eq_mul, mul_one] at counted
    exact counted.trans bounded
  · intro emailHash first last short
    have bounded := history_bounded run .email emailHash short
    refine (sum_le_countIn (fun e member => ?_) (fun e _ inside => inside)).trans bounded
    obtain zero | ⟨one, _⟩ := guesses_dated (happens e member) emailHash
    · omega
    · omega
  · intro e member client passed
    exact admitted_dated (happens e member) client passed
  · intro e member emailHash positive
    obtain zero | ⟨_, dated⟩ := guesses_dated (happens e member) emailHash
    · omega
    · exact dated
  · intro limit key bucket stored
    have tracks := tracks_history run limit key
    rw [stored] at tracks
    exact tracks.counter

end Theorem

section Sample

attribute [local instance] Sample.sha2 Sample.argon2

/-- A session with an email, a challenge, a wrong password and a commitment. -/
def limitedRun : List (Job Auth × Nat) :=
  contactRun ++ [(Sample.challenge [], 1002), (Sample.wrongPassword (Sample.clientKey 8), 1003),
    (Sample.signCommit (Sample.clientKey 7), 1004)]

theorem rate_limits_hold_sample :
    ((Sample.play limitedRun).1.map fun e =>
        (admitted (Sample.clientKey 7).pubkey e, otpsIssued Sample.emailHash e,
          failedEvaluation Sample.emailHash e)) =
      [(true, 0, false), (false, 0, true), (false, 1, false), (false, 0, false),
        (false, 0, false)] ∧
      WithinLimits (Sample.play limitedRun).1 (Sample.play limitedRun).2 :=
  ⟨by decide +kernel, rate_limits_hold (Sample.play_runs limitedRun (by decide +kernel))⟩

end Sample

end Pomade.Signer
