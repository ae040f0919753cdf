import Mathlib.Tactic.SplitIfs
import Pomade.Core.Storage

/-! # How the transaction queue moves on

The queue is at one call at a time.  What the call before it was settled with decides whether
its function is run: a rejection is handed on from call to call, past the functions.
-/

namespace Pomade.Core

open Pomade.Lib

section Queue

variable {ε β : Type} (fn : Nat → Behaviour ε β)

/-! ## The outcomes along the chain -/

/-- What `lock` is settled with before a call is run. -/
def chain : Nat → Outcome ε β
  | 0 => .ok none
  | k + 1 =>
    relay (match chain k with
      | .ok _ => (fn k).outcome
      | .error reason => .error reason)

/-- What a call of `tx` is settled with. -/
def received (k : Nat) : Outcome ε β :=
  match chain fn k with
  | .ok _ => (fn k).outcome
  | .error reason => .error reason

theorem chain_succ (k : Nat) : chain fn (k + 1) = relay (received fn k) := rfl

variable {fn} in
theorem received_ok {k : Nat} {value : Option β} (free : chain fn k = .ok value) :
    received fn k = (fn k).outcome := by
  rw [received, free]

variable {fn} in
theorem received_error {k : Nat} {reason : ε} (failed : chain fn k = .error reason) :
    received fn k = .error reason := by
  rw [received, failed]

/-- What is noted of a call once it is settled. -/
def turn (k : Nat) : List Mark :=
  match chain fn k with
  | .ok _ => [.started k, .finished k]
  | .error _ => []

def history (k : Nat) : List Mark := (List.range k).flatMap (turn fn)

theorem history_succ (k : Nat) : history fn (k + 1) = history fn k ++ turn fn k := by
  rw [history, List.range_succ, List.flatMap_append, List.flatMap_singleton, history]

/-! ## The invariant -/

/-- How far the queue is with the call it is at. -/
inductive Phase where
  /-- `lock` is settled. -/
  | ready
  /-- The function was run. -/
  | called (settled : Bool)
  /-- The promise of the function is awaited. -/
  | waiting
  /-- That promise is settled. -/
  | adopting
  /-- The promise of the call is settled. -/
  | done

/-- The jobs that may be left for one call. -/
def Phase.left : Phase → Nat
  | .ready => 5
  | .called false => 4
  | .called true => 3
  | .waiting => 3
  | .adopting => 2
  | .done => 1

/-- The calls that are settled. -/
def Phase.settled (k : Nat) : Phase → Nat
  | .done => k + 1
  | _ => k

/-- The steps that are left, unless there are more calls. -/
def work (calls k : Nat) (phase : Phase) : Nat :=
  if k < calls then 5 * (calls - k - 1) + phase.left else 0

/-- The jobs, the promise of the function and the log while the queue is at call `k`. -/
inductive At (s : State ε β) (k : Nat) : Phase → Prop where
  | ready
      (jobs : s.heap.jobs = if k < s.calls then [.react (.run k) (chain fn k)] else [])
      (returned : s.heap.promise (.returned k) = .pending [])
      (log : s.log = history fn k) : At s k .ready
  | called (settled : Bool) {value : Option β} {outcome : Outcome ε β} (some_ : k < s.calls)
      (free : chain fn k = .ok value) (behaviour : fn k = .returns outcome)
      (jobs : s.heap.jobs = [.task k])
      (returned : s.heap.promise (.returned k) = if settled then .settled outcome else .pending [])
      (log : s.log = history fn k ++ .started k :: if settled then [.finished k] else []) :
      At s k (.called settled)
  | waiting {value : Option β} {outcome : Outcome ε β} (some_ : k < s.calls)
      (free : chain fn k = .ok value) (behaviour : fn k = .returns outcome)
      (jobs : s.heap.jobs = [])
      (returned : s.heap.promise (.returned k) = .pending [.adopt k])
      (log : s.log = history fn k ++ [.started k]) : At s k .waiting
  | adopting {value : Option β} (some_ : k < s.calls) (free : chain fn k = .ok value)
      (jobs : s.heap.jobs = [.react (.adopt k) (fn k).outcome])
      (log : s.log = history fn k ++ [.started k, .finished k]) : At s k .adopting
  | done (some_ : k < s.calls) (jobs : s.heap.jobs = [.react (.release k) (received fn k)])
      (log : s.log = history fn k ++ turn fn k) : At s k .done

structure Stage (s : State ε β) (k : Nat) (phase : Phase) : Prop where
  lock : s.lock = .lock s.calls
  bound : k ≤ s.calls
  locks : ∀ j, s.heap.promise (.lock j) =
    if j ≤ k then .settled (chain fn j) else .pending (if j < s.calls then [.run j] else [])
  txs : ∀ j, s.heap.promise (.tx j) =
    if j < phase.settled k then .settled (received fn j)
    else .pending (if j < s.calls then [.release j] else [])
  untouched : ∀ j, k < j → s.heap.promise (.returned j) = .pending []
  here : At fn s k phase

variable {fn} {s s' : State ε β} {k : Nat} {phase : Phase}

theorem stage_initial : Stage fn (initial : State ε β) 0 .ready := by
  refine ⟨rfl, Nat.le_refl _, ?_, ?_, fun _ _ => rfl, .ready rfl rfl rfl⟩
  · intro j
    cases j with
    | zero => rfl
    | succ j => simp [initial]
  · intro j
    simp [initial, Phase.settled]

theorem Stage.settled_le (stage : Stage fn s k phase) : phase.settled k ≤ s.calls := by
  cases stage.here with
  | done some_ => exact some_
  | ready | called | waiting | adopting => exact stage.bound

theorem Stage.idle (stage : Stage fn s k phase) (last : ¬ k < s.calls) : k = s.calls ∧ phase = .ready := by
  refine ⟨by have := stage.bound; omega, ?_⟩
  cases stage.here with
  | ready => rfl
  | called _ some_ | waiting some_ | adopting some_ | done some_ => exact absurd some_ last

/-! ## Calls -/

/-- The promises after a call of `tx`: the new one, and `lock` if it is pending. -/
theorem Stage.tx_eq (stage : Stage fn s k phase) :
    s.tx = ⟨s.calls + 1, .lock (s.calls + 1),
      ⟨fun
        | .lock j => if j = s.calls ∧ k < s.calls then .pending [.run s.calls]
          else s.heap.promise (.lock j)
        | .tx j => if j = s.calls then .pending [.release s.calls] else s.heap.promise (.tx j)
        | .returned j => s.heap.promise (.returned j),
        if k < s.calls then s.heap.jobs
        else s.heap.jobs ++ [.react (.run s.calls) (chain fn s.calls)]⟩, s.log⟩ := by
  have new : s.heap.promise (.tx s.calls) = .pending [] := by
    rw [stage.txs, if_neg (by have := stage.settled_le; omega), if_neg (by omega)]
  by_cases busy : k < s.calls
  · have last : s.heap.promise (.lock s.calls) = .pending [] := by
      rw [stage.locks, if_neg (by omega), if_neg (by omega)]
    rw [State.tx, stage.lock, Heap.await_pending last,
      Heap.await_pending (show _ = Promise.pending [] by simpa)]
    congr 2
    · funext ref
      cases ref <;> simp [Function.update_apply, busy]
    · simp [busy]
  · have last : s.heap.promise (.lock s.calls) = .settled (chain fn s.calls) := by
      rw [stage.locks, if_pos (by omega)]
    rw [State.tx, stage.lock, Heap.await_settled last,
      Heap.await_pending (show _ = Promise.pending [] by simpa)]
    congr 2
    · funext ref
      cases ref <;> simp [Function.update_apply, busy]
    · simp [busy]

/-- A call that comes while the queue is busy waits for the last one; one that finds it empty
is next. -/
theorem Stage.call (stage : Stage fn s k phase) : Stage fn s.tx k phase := by
  have bound := stage.settled_le
  rw [stage.tx_eq]
  refine ⟨rfl, Nat.le_succ_of_le stage.bound, ?_, ?_, stage.untouched, ?_⟩
  · intro j
    dsimp only
    rw [stage.locks]
    split_ifs <;> first | rfl | omega | simp_all
  · intro j
    dsimp only
    rw [stage.txs]
    split_ifs <;> first | rfl | omega | simp_all
  · by_cases busy : k < s.calls
    · cases stage.here with
      | ready jobs returned log =>
        refine .ready ?_ returned log
        rw [if_pos busy] at jobs
        simp only [busy, if_true, jobs, Nat.lt_succ_of_lt busy]
      | called settled some_ free behaviour jobs returned log =>
        refine .called settled (Nat.lt_succ_of_lt some_) free behaviour ?_ returned log
        simp only [busy, if_true, jobs]
      | waiting some_ free behaviour jobs returned log =>
        refine .waiting (Nat.lt_succ_of_lt some_) free behaviour ?_ returned log
        simp only [busy, if_true, jobs]
      | adopting some_ free jobs log =>
        refine .adopting (Nat.lt_succ_of_lt some_) free ?_ log
        simp only [busy, if_true, jobs]
      | done some_ jobs log =>
        refine .done (Nat.lt_succ_of_lt some_) ?_ log
        simp only [busy, if_true, jobs]
    · obtain ⟨rfl, rfl⟩ := stage.idle busy
      cases stage.here with
      | ready jobs returned log =>
        refine .ready ?_ returned log
        rw [if_neg busy] at jobs
        simp only [busy, if_false, jobs, Nat.lt_succ_self, if_true, List.nil_append]

/-! ## Jobs -/

/-- A step that touches only the promise that the function of the call returned. -/
theorem Stage.returned {phase' : Phase} {promise : Promise Reaction (Outcome ε β)}
    (stage : Stage fn s k phase) (calls : s'.calls = s.calls) (lock : s'.lock = s.lock)
    (touched : s'.heap.promise = Function.update s.heap.promise (.returned k) promise)
    (same : phase'.settled k = phase.settled k) (here : At fn s' k phase') : Stage fn s' k phase' := by
  refine ⟨?_, ?_, ?_, ?_, ?_, here⟩
  · rw [lock, calls, stage.lock]
  · rw [calls]
    exact stage.bound
  · intro j
    rw [touched, Function.update_of_ne Ref.noConfusion, calls, stage.locks]
  · intro j
    rw [touched, Function.update_of_ne Ref.noConfusion, calls, same, stage.txs]
  · intro j later
    rw [touched, Function.update_of_ne (by simpa using Nat.ne_of_gt later), stage.untouched j later]

/-- The promise of the call is settled, and its reaction is the next job. -/
theorem Stage.settle_tx (stage : Stage fn s k phase) (open_ : phase.settled k = k)
    (some_ : k < s.calls) :
    Stage fn { s with
      heap := Heap.settle ⟨s.heap.promise, []⟩ (.tx k) (received fn k)
      log := history fn k ++ turn fn k } k .done := by
  have pending : s.heap.promise (.tx k) = .pending [.release k] := by
    rw [stage.txs, open_, if_neg (Nat.lt_irrefl k), if_pos some_]
  rw [Heap.settle_pending (h := ⟨s.heap.promise, []⟩) pending]
  refine ⟨stage.lock, stage.bound, ?_, ?_, ?_, .done some_ rfl rfl⟩
  · intro j
    dsimp only
    rw [Function.update_of_ne Ref.noConfusion, stage.locks]
  · intro j
    dsimp only
    by_cases here : j = k
    · have last : k < Phase.done.settled k := Nat.lt_succ_self k
      rw [here, Function.update_self, if_pos last]
    · have same : j < phase.settled k ↔ j < Phase.done.settled k := by
        rw [open_, Phase.settled]
        omega
      rw [Function.update_of_ne (by simpa using here), stage.txs]
      simp only [same]
  · intro j later
    dsimp only
    rw [Function.update_of_ne Ref.noConfusion, stage.untouched j later]

/-- `lock` is settled, and the next call is ready. -/
theorem Stage.settle_lock (stage : Stage fn s k .done) (log : s.log = history fn k ++ turn fn k)
    (some_ : k < s.calls) :
    Stage fn { s with heap := Heap.settle ⟨s.heap.promise, []⟩ (.lock (k + 1)) (chain fn (k + 1)) }
      (k + 1) .ready := by
  have pending : s.heap.promise (.lock (k + 1)) =
      .pending (if k + 1 < s.calls then [.run (k + 1)] else []) := by
    rw [stage.locks, if_neg (by omega)]
  rw [Heap.settle_pending (h := ⟨s.heap.promise, []⟩) pending]
  refine ⟨stage.lock, some_, ?_, ?_, ?_, .ready ?_ ?_ ?_⟩
  · intro j
    dsimp only
    by_cases here : j = k + 1
    · rw [here, Function.update_self, if_pos (Nat.le_refl _)]
    · have same : j ≤ k ↔ j ≤ k + 1 := by omega
      rw [Function.update_of_ne (by simpa using here), stage.locks]
      simp only [same]
  · intro j
    dsimp only
    rw [Function.update_of_ne Ref.noConfusion]
    exact stage.txs j
  · intro j later
    dsimp only
    rw [Function.update_of_ne Ref.noConfusion, stage.untouched j (by omega)]
  · dsimp only
    split_ifs <;> rfl
  · dsimp only
    rw [Function.update_of_ne Ref.noConfusion, stage.untouched (k + 1) (Nat.lt_succ_self k)]
  · dsimp only
    rw [log, history_succ]

/-- The next job takes the queue to the next phase of its call, or to the next call. -/
theorem Stage.job {job : Job Reaction Nat (Outcome ε β)} {jobs : List (Job Reaction Nat (Outcome ε β))}
    (stage : Stage fn s k phase) (queued : s.heap.jobs = job :: jobs) :
    ∃ k' phase', Stage fn ({ s with heap := ⟨s.heap.promise, jobs⟩ }.perform fn job) k' phase' ∧
      work s.calls k' phase' < work s.calls k phase := by
  -- There is one job at a time, so the phase says which one it is.
  cases stage.here with
  | ready ready returned log =>
    by_cases busy : k < s.calls
    · rw [if_pos busy, queued] at ready
      cases ready
      cases free : chain fn k with
      | error reason =>
        -- The chain is broken by an earlier failure: the function is not run at all.
        have settled := stage.settle_tx rfl busy
        rw [received_error free, turn, free, List.append_nil, ← log] at settled
        exact ⟨k, .done, settled, by simp [work, busy, Phase.left]⟩
      | ok value =>
        cases behaviour : fn k with
        | throws reason =>
          have settled := stage.settle_tx rfl busy
          rw [received_ok free, turn, free, behaviour, ← log] at settled
          refine ⟨k, .done, ?_, by simp [work, busy, Phase.left]⟩
          simp only [State.perform, behaviour]
          exact settled
        | returns outcome =>
          refine ⟨k, .called false, ?_, by simp [work, busy, Phase.left]⟩
          simp only [State.perform, behaviour]
          exact ⟨stage.lock, stage.bound, stage.locks, stage.txs, stage.untouched,
            .called false busy free behaviour rfl returned (by rw [log]; rfl)⟩
    · rw [if_neg busy, queued] at ready
      cases ready
  | called settled some_ free behaviour called returned log =>
    cases called.symm.trans queued
    -- The returned promise may be settled before the queue gets to await it.
    cases settled with
    | false =>
      refine ⟨k, .waiting, ?_, by simp [work, some_, Phase.left]⟩
      rw [State.perform, Heap.await_pending (h := ⟨s.heap.promise, []⟩) returned]
      refine stage.returned rfl rfl rfl rfl (.waiting some_ free behaviour rfl ?_ log)
      dsimp only
      rw [Function.update_self]
      rfl
    | true =>
      refine ⟨k, .adopting, ?_, by simp [work, some_, Phase.left]⟩
      rw [State.perform, Heap.await_settled (h := ⟨s.heap.promise, []⟩) returned]
      refine ⟨stage.lock, stage.bound, stage.locks, stage.txs, stage.untouched,
        .adopting some_ free ?_ log⟩
      rw [behaviour]
      rfl
  | waiting _ _ _ none_ => cases none_.symm.trans queued
  | adopting some_ free adopting log =>
    cases adopting.symm.trans queued
    have settled := stage.settle_tx rfl some_
    rw [received_ok free, turn, free, ← log] at settled
    exact ⟨k, .done, settled, by simp [work, some_, Phase.left]⟩
  | done some_ done log =>
    cases done.symm.trans queued
    refine ⟨k + 1, .ready, stage.settle_lock log some_, ?_⟩
    simp only [work, some_, if_true, Phase.left]
    split_ifs <;> omega

/-! ## Functions that get done -/

theorem finished_of_turn {call j : Nat} (started : .started call ∈ turn fn j) :
    .finished call ∈ turn fn j := by
  rw [turn] at started ⊢
  split at started
  · simp_all
  · cases started

/-- A function that is running was not run for an earlier call. -/
theorem started_last {call : Nat} {rest : List Mark} (log : s.log = history fn k ++ rest)
    (started : .started call ∈ s.log) (running : .finished call ∉ s.log) : .started call ∈ rest := by
  rw [log, List.mem_append] at started running
  refine started.resolve_left fun earlier => running (.inl ?_)
  obtain ⟨j, before, inside⟩ := List.mem_flatMap.mp earlier
  exact List.mem_flatMap.mpr ⟨j, before, finished_of_turn inside⟩

/-- The running function is that of the call the queue is at, and its promise is pending. -/
theorem Stage.settle {call : Nat} (stage : Stage fn s k phase) (started : .started call ∈ s.log)
    (running : .finished call ∉ s.log) :
    ∃ phase', Stage fn { s with
        heap := s.heap.settle (.returned call) (fn call).outcome
        log := s.log ++ [.finished call] } k phase' ∧
      work s.calls k phase' < work s.calls k phase := by
  cases stage.here with
  | ready jobs returned log =>
    -- Before the function of this call is run, the log has completed turns only.
    have ended : s.log = history fn k ++ [] := by rw [log, List.append_nil]
    cases started_last ended started running
  | adopting some_ free jobs log =>
    have last := started_last log started running
    simp_all
  | done some_ jobs log =>
    have last := started_last log started running
    rw [log, List.mem_append] at running
    exact absurd (.inr (finished_of_turn last)) running
  | called settled some_ free behaviour jobs returned log =>
    have last := started_last log started running
    cases settled with
    | true => simp_all
    | false =>
      obtain rfl : call = k := by simpa using last
      refine ⟨.called true, ?_, by simp [work, some_, Phase.left]⟩
      rw [Heap.settle_pending returned]
      refine stage.returned rfl rfl rfl rfl (.called true some_ free behaviour ?_ ?_ ?_)
      · dsimp only
        rw [jobs]
        rfl
      · dsimp only
        rw [Function.update_self, behaviour]
        rfl
      · simp [log]
  | waiting some_ free behaviour jobs returned log =>
    have last := started_last log started running
    obtain rfl : call = k := by simpa using last
    refine ⟨.adopting, ?_, by simp [work, some_, Phase.left]⟩
    rw [Heap.settle_pending returned]
    refine stage.returned rfl rfl rfl rfl (.adopting some_ free ?_ ?_)
    · dsimp only
      rw [jobs]
      rfl
    · simp [log]

/-! ## Runs -/

theorem perform_calls (s : State ε β) (job : Job Reaction Nat (Outcome ε β)) :
    (s.perform fn job).calls = s.calls := by
  unfold State.perform
  split <;> try rfl
  split <;> rfl

theorem Stage.step {event : Event} (stage : Stage fn s k phase) (done : s.step fn event = some s') :
    ∃ k' phase', Stage fn s' k' phase' ∧
      (event ≠ .call → s'.calls = s.calls ∧ work s'.calls k' phase' < work s.calls k phase) := by
  cases event with
  | call =>
    cases done
    exact ⟨k, phase, stage.call, fun other => absurd rfl other⟩
  | job =>
    rw [State.step] at done
    split at done
    · cases done
    next job jobs queued =>
      cases done
      obtain ⟨k', phase', after, less⟩ := stage.job queued
      refine ⟨k', phase', after, fun _ => ⟨perform_calls .., ?_⟩⟩
      rw [perform_calls]
      exact less
  | settle call =>
    rw [State.step] at done
    split at done
    next running =>
      cases done
      obtain ⟨phase', after, less⟩ := stage.settle running.1 running.2
      exact ⟨k, phase', after, fun _ => ⟨rfl, less⟩⟩
    next => cases done

theorem Stage.run {events : List Event} (stage : Stage fn s k phase)
    (done : s.run fn events = some s') : ∃ k' phase', Stage fn s' k' phase' := by
  induction events generalizing s k phase with
  | nil =>
    cases done
    exact ⟨k, phase, stage⟩
  | cons event events ih =>
    obtain ⟨next, first, rest⟩ := Option.bind_eq_some_iff.mp done
    obtain ⟨k', phase', after, _⟩ := stage.step first
    exact ih after rest

/-- Without more calls the queue comes to rest. -/
theorem Stage.run_length {events : List Event} (stage : Stage fn s k phase)
    (calm : ∀ event ∈ events, event ≠ .call) (done : s.run fn events = some s') :
    events.length ≤ work s.calls k phase := by
  induction events generalizing s k phase with
  | nil => exact Nat.zero_le _
  | cons event events ih =>
    rw [List.forall_mem_cons] at calm
    obtain ⟨next, first, rest⟩ := Option.bind_eq_some_iff.mp done
    obtain ⟨k', phase', after, less⟩ := stage.step first
    have later := ih after calm.2 rest
    have less := (less calm.1).2
    rw [List.length_cons]
    omega

theorem work_le (calls k : Nat) (phase : Phase) : work calls k phase ≤ 5 * calls := by
  have left : phase.left ≤ 5 := by
    cases phase with
    | called settled => cases settled <;> decide
    | ready | waiting | adopting | done => decide
  rw [work]
  split_ifs <;> omega

end Queue

end Pomade.Core
