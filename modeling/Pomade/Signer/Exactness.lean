import Pomade.Signer.Limiter
import Pomade.Signer.Sample

/-! # How exact the limiter is

A bucket keeps the first and the last time of a chain of admitted calls and their number,
so it forgets when the calls in between were made.  This says when a refusal is justified
by the calls of the last window, and when the reset time holds what it promises.
-/

namespace Pomade.Signer

open Pomade.Lib Pomade.Frost

/-! ## One call -/

section Calls

variable {signing : SigningFn} {s : State} {calls : List SignerCall} {client : Str}

/-- The state after recording a call at a time. -/
def State.recordClient (s : State) (client : Str) (time : Nat) : State :=
  { s with
    clock := time
    rateLimitByClient := s.rateLimitByClient.set client
      (recordedAt (s.rateLimitByClient.get client) clientRateLimits time) }

/-- The test of `is_rate_limited`, at a time. -/
def State.limits (s : State) (client : Str) (time : Nat) : Bool :=
  (s.rateLimitByClient.get client).any fun bucket => bucket.isLimited clientRateLimits time

/-- What a check-and-record call answers and leaves behind. -/
inductive Checked (client : Str) (s : State) : Bool → State → Prop where
  | refused {time : Nat} (later : s.clock ≤ time) (limited : s.limits client time = true) :
      Checked client s false { s with clock := time }
  | admitted {checked time : Nat} (first : s.clock ≤ checked) (second : checked ≤ time)
      (free : s.limits client checked = false) : Checked client s true (s.recordClient client time)

theorem checkAndRecordRateLimit_checked :
    Prog.wp (traced signing (· ≤ ·)) (checkAndRecordRateLimit client)
      (fun r p => ∃ answer, r = some answer ∧ Checked client s answer p.1) (s, calls) := by
  unfold checkAndRecordRateLimit
  rw [wp_get]
  refine Prog.wp_then isRateLimited_read ?_
  rintro limited ⟨s₁, calls₁⟩ ⟨checked, first, same, tested⟩
  cases same
  cases limited with
  | true => exact ⟨false, rfl, .refused first tested.symm⟩
  | false =>
    simp only [Bool.false_eq_true, if_false]
    rw [wp_recordAttempt]
    intro time second
    rw [wp_set]
    exact ⟨true, rfl, .admitted first second tested.symm⟩

/-- A later check finds no more than an earlier one. -/
theorem State.limits_later {time later : Nat} (ordered : time ≤ later)
    (free : s.limits client time = false) : s.limits client later = false := by
  unfold State.limits at free ⊢
  cases stored : s.rateLimitByClient.get client with
  | none => rfl
  | some bucket =>
    rw [stored] at free
    simp only [Option.any_some, RateLimitBucket.isLimited, saturatingSub_eq, Bool.and_eq_false_imp,
      decide_eq_true_eq, decide_eq_false_iff_not] at free ⊢
    intro inside
    exact free (by omega)

end Calls

/-! ## What a bucket counts -/

/-- A check-and-record call; its job is the key it is made for. -/
abbrev LimiterEvent : Type := Event Str Op Ans Bool State

/-- Sequences of check-and-record calls, newest first, on an empty store. -/
abbrev LimiterRuns (signing : SigningFn) : List LimiterEvent → State → Prop :=
  Runs (world signing (· ≤ ·)) checkAndRecordRateLimit Opened fun _ => True

def LimiterEvent.admits (client : Str) (e : LimiterEvent) : Bool :=
  decide (e.job = client) && decide (e.result = some true)

/-- The times of the admitted calls for a key, newest first.  A call is dated by the last
clock reading that it makes. -/
def admittedTimes (client : Str) (events : List LimiterEvent) : List Nat :=
  (events.filter (LimiterEvent.admits client)).map fun e => e.after.clock

/-- The bucket counts the admitted calls since `first_attempt`. -/
structure Counts (times : List Nat) (bucket : RateLimitBucket) : Prop where
  counted : times.countP (fun t => decide (bucket.firstAttempt ≤ t)) = bucket.attempts.toNat
  first : bucket.firstAttempt ∈ times
  last : ∀ t ∈ times, t ≤ bucket.lastAttempt
  bounded : bucket.attempts ≤ clientRateLimits.maxAttempts

section Counting

variable {times : List Nat} {bucket : RateLimitBucket} {old : Option RateLimitBucket}
variable {checked time : Nat}

theorem counts_fresh (apart : ∀ t ∈ times, t < time) :
    Counts (time :: times) { attempts := 1, firstAttempt := time, lastAttempt := time } := by
  have older : times.countP (fun t => decide (time ≤ t)) = 0 := by
    apply List.countP_eq_zero.mpr
    intro t member
    have := apart t member
    simp
    omega
  have one : (1 : UInt32) ≤ clientRateLimits.maxAttempts := by decide
  refine ⟨?_, List.mem_cons_self, ?_, one⟩
  · rw [List.countP_cons, older]
    simp
  · intro t member
    obtain here | earlier := List.mem_cons.mp member
    · rw [here]
    · exact Nat.le_of_lt (apart t earlier)

/-- A recorded call joins the chain of the bucket or starts a new one. -/
theorem Counts.record (counts : ∀ bucket, old = some bucket → Counts times bucket)
    (empty : old = none → times = []) (second : checked ≤ time)
    (free : (old.any fun bucket => bucket.isLimited clientRateLimits checked) = false)
    (later : ∀ bucket, old = some bucket → bucket.lastAttempt ≤ time) :
    Counts (time :: times) (recordedAt old clientRateLimits time) := by
  cases old with
  | none =>
    rw [empty rfl]
    exact counts_fresh nofun
  | some bucket =>
    have tracked := counts bucket rfl
    have forward := later bucket rfl
    unfold recordedAt
    dsimp only
    split
    next recent =>
      rw [saturatingSub_eq] at recent
      simp only [Option.any_some, RateLimitBucket.isLimited, saturatingSub_eq,
        Bool.and_eq_false_imp, decide_eq_true_eq, decide_eq_false_iff_not] at free
      have room : bucket.attempts < clientRateLimits.maxAttempts :=
        UInt32.not_le.mp (free (by omega))
      have room : bucket.attempts.toNat < clientRateLimits.maxAttempts.toNat :=
        UInt32.lt_iff_toNat_lt.mp room
      have small := clientRateLimits.maxAttempts.toNat_lt
      have next : (bucket.attempts + 1).toNat = bucket.attempts.toNat + 1 := by
        rw [UInt32.toNat_add, UInt32.toNat_one, Nat.mod_eq_of_lt (by omega)]
      have newer : bucket.firstAttempt ≤ time := by
        have := tracked.last _ tracked.first
        omega
      refine ⟨?_, List.mem_cons_of_mem _ tracked.first, ?_, ?_⟩
      · rw [next, ← tracked.counted, List.countP_cons]
        simp [newer]
      · intro t member
        obtain here | earlier := List.mem_cons.mp member
        · rw [here]
        · exact (tracked.last t earlier).trans forward
      · rw [UInt32.le_iff_toNat_le, next]
        exact room
    next expired =>
      rw [saturatingSub_eq] at expired
      apply counts_fresh
      intro t member
      have := tracked.last t member
      omega

end Counting

section Runs

variable {signing : SigningFn} {s : State} {client : Str} {events : List LimiterEvent}

/-- The bucket of a key, against the calls admitted for it. -/
structure Tallied (client : Str) (events : List LimiterEvent) (s : State) : Prop where
  counts : ∀ bucket, s.rateLimitByClient.get client = some bucket →
    Counts (admittedTimes client events) bucket
  empty : s.rateLimitByClient.get client = none → admittedTimes client events = []
  clock : ∀ bucket, s.rateLimitByClient.get client = some bucket → bucket.lastAttempt ≤ s.clock

theorem LimiterEvent.checked {e : LimiterEvent}
    (happens : e.Happens (world signing (· ≤ ·)) checkAndRecordRateLimit) :
    ∃ answer, e.result = some answer ∧ Checked e.job e.before answer e.after :=
  happens.of_wp checkAndRecordRateLimit_checked

/-- Nothing changes for a key when its bucket stays and no call for it is admitted. -/
theorem Tallied.keep {e : LimiterEvent} (tallied : Tallied client events e.before)
    (bucket : e.after.rateLimitByClient.get client = e.before.rateLimitByClient.get client)
    (silent : e.admits client = false) (later : e.before.clock ≤ e.after.clock) :
    Tallied client (e :: events) e.after := by
  have same : admittedTimes client (e :: events) = admittedTimes client events := by
    simp [admittedTimes, silent]
  constructor
  · rw [bucket, same]
    exact tallied.counts
  · rw [bucket, same]
    exact tallied.empty
  · rw [bucket]
    exact fun b stored => (tallied.clock b stored).trans later

theorem Tallied.step {e : LimiterEvent} (tallied : Tallied client events e.before)
    (happens : e.Happens (world signing (· ≤ ·)) checkAndRecordRateLimit) :
    Tallied client (e :: events) e.after := by
  obtain ⟨answer, result, checked⟩ := LimiterEvent.checked happens
  obtain ⟨key, before, calls, _, after⟩ := e
  dsimp only at tallied result checked ⊢
  subst result
  cases checked with
  | refused later limited => exact tallied.keep rfl (by simp [LimiterEvent.admits]) later
  | @admitted checked time first second free =>
    by_cases same : key = client
    · subst same
      have grown : admittedTimes key (⟨key, before, calls, some true, before.recordClient key time⟩ ::
          events) = time :: admittedTimes key events := by
        simp [admittedTimes, LimiterEvent.admits, State.recordClient]
      have stored : (before.recordClient key time).rateLimitByClient.get key =
          some (recordedAt (before.rateLimitByClient.get key) clientRateLimits time) :=
        Table.get_set_self ..
      have later : ∀ bucket, before.rateLimitByClient.get key = some bucket →
          bucket.lastAttempt ≤ time :=
        fun b held => (tallied.clock b held).trans (first.trans second)
      constructor
      · rw [grown, stored]
        rintro _ ⟨⟩
        exact Counts.record tallied.counts tallied.empty second free later
      · rw [stored]
        exact nofun
      · rw [stored]
        rintro _ ⟨⟩
        exact (recordedAt_lastAttempt ..).le
    · have other : (before.recordClient key time).rateLimitByClient.get client =
          before.rateLimitByClient.get client := Table.get_set_ne fun h => same h.symm
      exact tallied.keep other (by simp [LimiterEvent.admits, same]) (first.trans second)

theorem tallied (run : LimiterRuns signing events s) : Tallied client events s := by
  induction run with
  | start s initial =>
    obtain ⟨clock, rfl⟩ := initial
    exact ⟨nofun, fun _ => rfl, nofun⟩
  | step e _ happens _ ih => exact ih.step happens

end Runs

/-! ## Calls at a given time -/

section CallAt

variable {signing : SigningFn} {s : State} {client : Str} {time : Nat}

/-- The call made when every reading of the clock gives the same time. -/
def callAt (signing : SigningFn) (client : Str) (time : Nat) (s : State) : LimiterEvent :=
  Event.ofRun (exec signing) checkAndRecordRateLimit client
    (fun _ => { (default : Env) with now := time }) s

theorem callAt_happens (later : s.clock ≤ time) :
    (callAt signing client time s).Happens (world signing (· ≤ ·)) checkAndRecordRateLimit := by
  apply Event.happens_ofRun
  refine ⟨trivial, ?_⟩
  simp only [exec]
  cases (s.table Coll.rateLimitByClient).get client with
  | none => exact ⟨later, trivial, trivial⟩
  | some bucket =>
    refine ⟨later, ?_⟩
    simp only [exec, Prog.pure_eq, Prog.pure_bind, Prog.bind_eq]
    cases bucket.isLimited clientRateLimits time with
    | false => exact ⟨le_refl _, trivial, trivial⟩
    | true => trivial

theorem callAt_refused (limited : s.limits client time = true) :
    (callAt signing client time s).result = some false ∧
      (callAt signing client time s).after = { s with clock := time } := by
  unfold State.limits at limited
  cases stored : s.rateLimitByClient.get client with
  | none => simp [stored] at limited
  | some bucket =>
    simp only [stored, Option.any_some] at limited
    unfold callAt Event.ofRun
    simp only [checkAndRecordRateLimit, Prog.run, exec, Prog.op, State.table, stored,
      isRateLimited, limited, Prog.call_bind, Prog.pure_eq, Prog.pure_bind, if_true]
    exact ⟨rfl, rfl⟩

theorem callAt_admitted (free : s.limits client time = false) :
    (callAt signing client time s).result = some true ∧
      (callAt signing client time s).after = s.recordClient client time := by
  unfold State.limits at free
  unfold callAt Event.ofRun State.recordClient
  cases stored : s.rateLimitByClient.get client with
  | none =>
    simp only [checkAndRecordRateLimit, Prog.run, exec, Prog.op, State.table, stored,
      isRateLimited, Prog.call_bind, Prog.pure_eq, Prog.pure_bind]
    exact ⟨rfl, rfl⟩
  | some bucket =>
    simp only [stored, Option.any_some] at free
    simp only [checkAndRecordRateLimit, Prog.run, exec, Prog.op, State.table, stored,
      isRateLimited, free, Prog.call_bind, Prog.pure_eq, Prog.pure_bind]
    exact ⟨rfl, rfl⟩

end CallAt

/-! ## Exactness -/

/-- At least `max_attempts` calls for the key were admitted within the window before a time. -/
def WindowFull (client : Str) (events : List LimiterEvent) (time : Nat) : Prop :=
  clientRateLimits.maxAttempts.toNat ≤
    (admittedTimes client events).countP fun t => decide (time ≤ t + clientRateLimits.windowSeconds)

/-- A call made `reset` or more seconds from now, with none in between, is admitted. -/
def ResetHolds (signing : SigningFn) (client : Str) (s : State) (reset : Nat) : Prop :=
  ∀ later, s.clock + reset ≤ later → ∀ e : LimiterEvent,
    e.Happens (world signing (· ≤ ·)) checkAndRecordRateLimit → e.job = client →
    e.before = { s with clock := later } → e.result = some true

/-- The bucket was opened within the window before a time. -/
def State.opensWithin (s : State) (client : Str) (time : Nat) : Prop :=
  ∀ bucket, s.rateLimitByClient.get client = some bucket →
    time ≤ bucket.firstAttempt + clientRateLimits.windowSeconds

section Exactness

variable {signing : SigningFn} {s : State} {client : Str} {events : List LimiterEvent}
variable {time reset : Nat}

/-- Calls that a full bucket has forgotten to date fill the window when the first one is in it. -/
theorem Tallied.windowFull (tallied : Tallied client events s)
    (limited : s.limits client time = true) :
    WindowFull client events time ↔ s.opensWithin client time := by
  unfold State.limits at limited
  cases stored : s.rateLimitByClient.get client with
  | none => simp [stored] at limited
  | some bucket =>
    simp only [stored, Option.any_some, RateLimitBucket.isLimited, Bool.and_eq_true,
      decide_eq_true_eq] at limited
    have counts := tallied.counts bucket stored
    have full : bucket.attempts.toNat = clientRateLimits.maxAttempts.toNat :=
      Nat.le_antisymm (UInt32.le_iff_toNat_le.mp counts.bounded)
        (UInt32.le_iff_toNat_le.mp limited.2)
    have only : s.opensWithin client time ↔
        time ≤ bucket.firstAttempt + clientRateLimits.windowSeconds := by
      simp [State.opensWithin, stored]
    rw [only, WindowFull, ← full, ← counts.counted]
    constructor
    · intro enough
      by_contra early
      -- Everything in the window is counted, and the first call is counted but not in it.
      have inside : (admittedTimes client events).countP
            (fun t => decide (time ≤ t + clientRateLimits.windowSeconds)) ≤
          ((admittedTimes client events).filter fun t => decide (bucket.firstAttempt ≤ t)).countP
            fun t => decide (time ≤ t + clientRateLimits.windowSeconds) := by
        rw [List.countP_filter]
        apply List.countP_mono_left
        intro t _ recent
        simp only [decide_eq_true_eq, Bool.and_eq_true] at recent ⊢
        omega
      have strict : ((admittedTimes client events).filter fun t =>
            decide (bucket.firstAttempt ≤ t)).countP
            (fun t => decide (time ≤ t + clientRateLimits.windowSeconds)) <
          ((admittedTimes client events).filter fun t =>
            decide (bucket.firstAttempt ≤ t)).length := by
        apply List.countP_lt_length_iff.mpr
        refine ⟨bucket.firstAttempt, ?_, by simpa using early⟩
        simp [counts.first]
      rw [← List.countP_eq_length_filter] at strict
      omega
    · intro recent
      apply List.countP_mono_left
      intro t _ counted
      simp only [decide_eq_true_eq] at counted ⊢
      omega

/-- What the reset time reads and answers. -/
theorem getRateLimitResetTime_spec {calls : List SignerCall} :
    Prog.wp (traced signing (· ≤ ·))
      (getRateLimitResetTime (s.rateLimitByClient.get client) clientRateLimits)
      (fun r p => ∃ reset time, r = some reset ∧ s.clock ≤ time ∧ p.1 = { s with clock := time } ∧
        (s.limits client time = true → ∀ bucket, s.rateLimitByClient.get client = some bucket →
          reset = bucket.firstAttempt + clientRateLimits.windowSeconds - time)) (s, calls) := by
  cases stored : s.rateLimitByClient.get client with
  | none => exact ⟨0, s.clock, rfl, le_refl _, rfl, fun _ => nofun⟩
  | some bucket =>
    unfold getRateLimitResetTime
    rw [wp_now]
    intro first later
    split
    next expired =>
      refine ⟨0, first, rfl, later, rfl, fun limited => ?_⟩
      simp only [State.limits, stored, Option.any_some, RateLimitBucket.isLimited,
        Bool.and_eq_true, decide_eq_true_eq] at limited
      omega
    next inside =>
      dsimp only
      rw [wp_now]
      intro second after
      refine ⟨_, second, rfl, later.trans after, rfl, fun _ => ?_⟩
      rintro _ ⟨⟩
      exact saturatingSub_eq _ _

/-- The reset time is right exactly for a key that is not limited. -/
theorem Tallied.resetHolds (tallied : Tallied client events s) {s' : State}
    (same : s' = { s with clock := time })
    (answer : s.limits client time = true → ∀ bucket,
      s.rateLimitByClient.get client = some bucket →
      reset = bucket.firstAttempt + clientRateLimits.windowSeconds - time) :
    ResetHolds signing client s' reset ↔ s'.limits client s'.clock = false := by
  subst same
  constructor
  · intro holds
    by_contra limited
    have limited : s.limits client time = true := Bool.eq_true_of_not_eq_false limited
    cases stored : s.rateLimitByClient.get client with
    | none => simp [State.limits, stored] at limited
    | some bucket =>
      have counts := tallied.counts bucket stored
      have ordered := counts.last _ counts.first
      have promised := answer limited bucket stored
      -- The call exactly `reset` seconds later still finds the last attempt in the window.
      let later := time + reset
      have again : ({ s with clock := later } : State).limits client later = true := by
        simp only [State.limits, stored, Option.any_some, RateLimitBucket.isLimited,
          saturatingSub_eq, Bool.and_eq_true, decide_eq_true_eq] at limited ⊢
        exact ⟨by omega, limited.2⟩
      have admitted := holds later (le_refl _) (callAt signing client later { s with clock := later })
        (callAt_happens (le_refl _)) rfl rfl
      rw [(callAt_refused again).1] at admitted
      cases admitted
  · intro free later reached e happens job before
    obtain ⟨_, result, checked⟩ := LimiterEvent.checked happens
    rw [job, before] at checked
    rw [result]
    generalize e.after = after at checked
    cases checked with
    | admitted => rfl
    | @refused now forward limited =>
      dsimp only at reached forward limited free
      have still : s.limits client now = false := State.limits_later (by omega) free
      exact absurd (limited.symm.trans still) (by simp)

/-- A refusal is justified by the calls of the last window exactly when the window opened by
the bucket's first call has not passed, and a reset time is right exactly when the key is not
limited at the time it is computed. -/
theorem limiter_exact_iff (run : LimiterRuns signing events s) (client : Str) :
    (∀ e : LimiterEvent, e.Happens (world signing (· ≤ ·)) checkAndRecordRateLimit →
      e.job = client → e.before = s → e.result = some false →
      (WindowFull client events e.after.clock ↔ s.opensWithin client e.after.clock)) ∧
    ∀ reset p, Prog.Exec (traced signing (· ≤ ·))
      (getRateLimitResetTime (s.rateLimitByClient.get client) clientRateLimits) (s, [])
      (some reset) p →
      (ResetHolds signing client p.1 reset ↔ p.1.limits client p.1.clock = false) := by
  have tallied : Tallied client events s := tallied run
  constructor
  · intro e happens job before result
    obtain ⟨_, result', checked⟩ := LimiterEvent.checked happens
    rw [result] at result'
    cases result'
    rw [job, before] at checked
    generalize e.after = after at checked ⊢
    cases checked with
    | refused later limited => exact tallied.windowFull limited
  · rintro reset ⟨s', calls⟩ exec
    obtain ⟨_, time, same, _, state, answer⟩ := exec.of_wp getRateLimitResetTime_spec
    cases same
    exact tallied.resetHolds state answer

end Exactness

/-! ## A chain across two windows -/

namespace Sample

section

attribute [local instance] sha2

abbrev signing : SigningFn := createPsigPkgWithNonce Scalar

def limitedClient : Str := (clientKey 1).pubkey

/-- A run whose bucket has counted `n` calls, the first at 0 and the last at 60. -/
structure Chained (n : Nat) (events : List LimiterEvent) (s : State) : Prop where
  run : LimiterRuns signing events s
  stored : s.rateLimitByClient.get limitedClient =
    some { attempts := UInt32.ofNat n, firstAttempt := 0, lastAttempt := 60 }
  clock : s.clock = 60

theorem chained_two : ∃ events s, Chained 2 events s := by
  let first := callAt signing limitedClient 0 (State.opened 0)
  let second := callAt signing limitedClient 60 first.after
  have opened : LimiterRuns signing [] (State.opened 0) := .start _ ⟨0, rfl⟩
  have one : LimiterRuns signing [first] first.after :=
    .step first opened (callAt_happens (le_refl _)) trivial
  have two : LimiterRuns signing [second, first] second.after :=
    .step second one (callAt_happens (by decide)) trivial
  exact ⟨_, _, two, by decide +kernel, by decide +kernel⟩

theorem Chained.grow {n : Nat} {events : List LimiterEvent} {s : State}
    (chained : Chained n events s) (room : n < 500) : ∃ events s, Chained (n + 1) events s := by
  have small : (UInt32.ofNat n).toNat = n := UInt32.toNat_ofNat_of_lt' (room.trans (by decide))
  have free : s.limits limitedClient 60 = false := by
    have below : ¬(500 : UInt32) ≤ UInt32.ofNat n := by
      rw [UInt32.le_iff_toNat_le, small]
      exact Nat.not_le.mpr room
    simp [State.limits, chained.stored, RateLimitBucket.isLimited, clientRateLimits, below]
  let call := callAt signing limitedClient 60 s
  have after : call.after = s.recordClient limitedClient 60 := (callAt_admitted free).2
  refine ⟨call :: events, call.after,
    .step call chained.run (callAt_happens chained.clock.le) trivial, ?_, by rw [after]; rfl⟩
  rw [after, State.recordClient, Table.get_set_self, chained.stored]
  simp [recordedAt, saturatingSub_eq, UInt32.ofNat_add]

theorem chained_full : ∃ events s, Chained 500 events s := by
  have reached : ∀ n, n ≤ 498 → ∃ events s, Chained (2 + n) events s := by
    intro n
    induction n with
    | zero => exact fun _ => chained_two
    | succ n ih =>
      intro room
      obtain ⟨_, _, chained⟩ := ih (by omega)
      exact chained.grow (by omega)
  exact reached 498 (le_refl _)

theorem Chained.limited {events : List LimiterEvent} {s : State} (chained : Chained 500 events s)
    {time : Nat} (inside : time ≤ 120) : s.limits limitedClient time = true := by
  simp [State.limits, chained.stored, RateLimitBucket.isLimited, clientRateLimits, saturatingSub_eq]
  omega

/-- At 60 seconds the reset time of the full bucket is zero. -/
theorem Chained.reset {events : List LimiterEvent} {s : State} (chained : Chained 500 events s) :
    Prog.Exec (traced signing (· ≤ ·))
      (getRateLimitResetTime (s.rateLimitByClient.get limitedClient) clientRateLimits) (s, [])
      (some 0) (s, [⟨.now, 60⟩, ⟨.now, 60⟩]) := by
  have reading : ∀ calls, (traced signing (· ≤ ·)).step .now (s, calls) 60 (s, ⟨.now, 60⟩ :: calls) := by
    intro calls
    refine ⟨step_now.mpr ⟨chained.clock.le, ?_⟩, rfl⟩
    rw [← chained.clock]
  have inside : ¬60 < saturatingSub 60 clientRateLimits.windowSeconds := by
    rw [saturatingSub_eq]
    omega
  rw [chained.stored]
  refine .call (reading []) ?_
  simp only [Prog.pure_eq, Prog.pure_bind, Prog.bind_eq]
  rw [if_neg inside]
  refine .call (reading _) ?_
  simp only [Prog.pure_eq, Prog.pure_bind, Prog.bind_eq]
  have gone : saturatingSub (0 + clientRateLimits.windowSeconds) 60 = 0 := by
    rw [saturatingSub_eq]
    rfl
  rw [gone]
  exact .pure 0 _

theorem limiter_exact_iff_chained :
    ∃ events s, LimiterRuns signing events s ∧
      (WindowFull limitedClient events 61 ↔ s.opensWithin limitedClient 61) ∧
      (ResetHolds signing limitedClient s 0 ↔ s.limits limitedClient s.clock = false) := by
  obtain ⟨events, s, chained⟩ := chained_full
  have equivalences := limiter_exact_iff chained.run limitedClient
  have limited : s.limits limitedClient 61 = true := chained.limited (by omega)
  have refused : (callAt signing limitedClient 61 s).result = some false ∧ _ :=
    callAt_refused limited
  have later : s.clock ≤ 61 := by
    rw [chained.clock]
    omega
  refine ⟨events, s, chained.run, ?_, equivalences.2 0 _ chained.reset⟩
  have window := equivalences.1 (callAt signing limitedClient 61 s) (callAt_happens later) rfl rfl
    refused.1
  rw [refused.2] at window
  exact window

/-- One call at 0 and 499 calls at 60 refuse a call at 61, with 499 calls in its window, and
the reset time of the full bucket at 60 is zero although a call at 60 is refused. -/
theorem limiter_not_exact :
    ∃ events s, LimiterRuns signing events s ∧
      (∃ e : LimiterEvent, e.Happens (world signing (· ≤ ·)) checkAndRecordRateLimit ∧
        e.job = limitedClient ∧ e.before = s ∧ e.result = some false ∧
        ¬WindowFull limitedClient events e.after.clock) ∧
      ∃ reset p, Prog.Exec (traced signing (· ≤ ·))
        (getRateLimitResetTime (s.rateLimitByClient.get limitedClient) clientRateLimits) (s, [])
        (some reset) p ∧ ¬ResetHolds signing limitedClient p.1 reset := by
  obtain ⟨events, s, chained⟩ := chained_full
  have tracked : Tallied limitedClient events s := tallied chained.run
  have limited : s.limits limitedClient 61 = true := chained.limited (by omega)
  have refused : (callAt signing limitedClient 61 s).result = some false ∧ _ :=
    callAt_refused limited
  have later : s.clock ≤ 61 := by
    rw [chained.clock]
    omega
  refine ⟨events, s, chained.run, ⟨callAt signing limitedClient 61 s, callAt_happens later, rfl, rfl,
    refused.1, ?_⟩, 0, _, chained.reset, ?_⟩
  · rw [refused.2, tracked.windowFull limited]
    intro within
    have := within _ chained.stored
    simp [clientRateLimits] at this
  · intro holds
    have again : ({ s with clock := 60 } : State).limits limitedClient 60 = true :=
      chained.limited (by omega)
    have admitted := holds 60 (by rw [chained.clock])
      (callAt signing limitedClient 60 { s with clock := 60 }) (callAt_happens (le_refl _)) rfl rfl
    rw [(callAt_refused again).1] at admitted
    cases admitted

end

end Sample

end Pomade.Signer
