import Pomade.Core.Queue

/-! # Transactions of the in-memory storage

The functions are run in order and one at a time in every run.  But a rejection passes by the
functions of all later calls, so that each gets its turn and its own outcome only as long as
no function but the last has failed.
-/

namespace Pomade.Core

open Pomade.Lib

section Transactions

variable {ε β : Type} {fn : Nat → Behaviour ε β} {s : State ε β} {k : Nat} {phase : Phase}

/-! ## Logs -/

/-- A function starts only when all that started before it are done. -/
def Alone (log : List Mark) : Prop :=
  ∀ before call after, log = before ++ .started call :: after →
    ∀ other, .started other ∈ before → .finished other ∈ before

/-- Whatever has started is done. -/
def Closed (log : List Mark) : Prop := ∀ call, .started call ∈ log → .finished call ∈ log

theorem Alone.finished {log : List Mark} (alone : Alone log) (call : Nat) :
    Alone (log ++ [.finished call]) := by
  intro before next after split
  rcases List.eq_nil_or_concat after with rfl | ⟨after, last, rfl⟩
  · cases (List.append_inj' split rfl).2
  · rw [List.concat_eq_append, ← List.cons_append, ← List.append_assoc] at split
    exact alone before next after (List.append_inj' split rfl).1

theorem Alone.started {log : List Mark} (alone : Alone log) (closed : Closed log) (call : Nat) :
    Alone (log ++ [.started call]) := by
  intro before next after split
  rcases List.eq_nil_or_concat after with rfl | ⟨after, last, rfl⟩
  · cases (List.append_inj' split rfl).1
    exact closed
  · rw [List.concat_eq_append, ← List.cons_append, ← List.append_assoc] at split
    exact alone before next after (List.append_inj' split rfl).1

theorem mem_turn {call j : Nat} {mark : Mark} (which : mark = .started call ∨ mark = .finished call) :
    mark ∈ turn fn j ↔ j = call ∧ (chain fn j).isOk := by
  rw [turn]
  cases free : chain fn j with
  | ok value => rcases which with rfl | rfl <;> simp [Except.isOk, Except.toBool, eq_comm]
  | error reason => simp [Except.isOk, Except.toBool]

theorem mem_history {call : Nat} {mark : Mark} (which : mark = .started call ∨ mark = .finished call) :
    mark ∈ history fn k ↔ call < k ∧ (chain fn call).isOk := by
  rw [history, List.mem_flatMap]
  simp only [List.mem_range, mem_turn which]
  constructor
  · rintro ⟨j, earlier, rfl, free⟩
    exact ⟨earlier, free⟩
  · rintro ⟨earlier, free⟩
    exact ⟨call, earlier, rfl, free⟩

theorem closed_history (k : Nat) : Closed (history fn k) := by
  intro call started
  exact (mem_history (.inr rfl)).mpr ((mem_history (.inl rfl)).mp started)

theorem alone_pair {log : List Mark} (alone : Alone log) (closed : Closed log) (call : Nat) :
    Alone (log ++ [.started call, .finished call]) := by
  have both := (alone.started closed call).finished call
  rwa [List.append_assoc] at both

theorem alone_history (k : Nat) : Alone (history fn k) := by
  induction k with
  | zero =>
    intro before call after split
    simp [history] at split
  | succ k ih =>
    rw [history_succ, turn]
    split
    · exact alone_pair ih (closed_history k) k
    · rwa [List.append_nil]

/-- No two functions run at the same time, in any run. -/
theorem Stage.alone (stage : Stage fn s k phase) : Alone s.log := by
  have before : Alone (history fn k) := alone_history k
  have closed : Closed (history fn k) := closed_history k
  cases stage.here with
  | ready _ _ log =>
    rw [log]
    exact before
  | called settled _ _ _ _ _ log =>
    rw [log]
    cases settled with
    | false => exact before.started closed k
    | true => exact alone_pair before closed k
  | waiting _ _ _ _ _ log =>
    rw [log]
    exact before.started closed k
  | adopting _ _ _ log =>
    rw [log]
    exact alone_pair before closed k
  | done _ _ log =>
    rw [log, ← history_succ]
    exact alone_history (k + 1)

/-- At rest every call is settled. -/
theorem Stage.quiet (stage : Stage fn s k phase) (quiet : s.Quiet) :
    k = s.calls ∧ s.log = history fn s.calls ∧
      ∀ call < s.calls, s.heap.promise (.tx call) = .settled (received fn call) := by
  obtain ⟨empty, ended⟩ := quiet
  cases stage.here with
  | ready jobs _ log =>
    have all : k = s.calls := by
      by_contra other
      have busy : k < s.calls := Nat.lt_of_le_of_ne stage.bound other
      rw [empty, if_pos busy] at jobs
      cases jobs
    refine ⟨all, all ▸ log, ?_⟩
    intro call inside
    have reached : call < Phase.ready.settled k := by
      show call < k
      omega
    rw [stage.txs, if_pos reached]
  | called _ _ _ _ jobs => cases empty.symm.trans jobs
  | adopting _ _ jobs => cases empty.symm.trans jobs
  | done _ jobs => cases empty.symm.trans jobs
  | waiting _ _ _ _ _ log =>
    -- The function that is awaited is still running.
    have finished := ended k (by simp [log])
    rw [log, List.mem_append, mem_history (.inr rfl)] at finished
    simp at finished

/-! ## Undisturbed runs -/

theorem chain_isOk {calls : Nat} (undisturbed : Undisturbed fn calls) {k : Nat} (inside : k < calls) :
    ∃ value, chain fn k = .ok value := by
  induction k with
  | zero => exact ⟨none, rfl⟩
  | succ k ih =>
    obtain ⟨value, free⟩ := ih (Nat.lt_of_succ_lt inside)
    rw [chain_succ, received_ok free]
    cases outcome : (fn k).outcome with
    | ok value => exact ⟨none, rfl⟩
    | error reason =>
      have succeeds := undisturbed k inside
      rw [outcome] at succeeds
      cases succeeds

theorem history_starts {calls : Nat} (undisturbed : Undisturbed fn calls) (bound : k ≤ calls) :
    (history fn k).filterMap Mark.start? = List.range k := by
  induction k with
  | zero => rfl
  | succ k ih =>
    obtain ⟨value, free⟩ := chain_isOk undisturbed bound
    rw [history_succ, List.filterMap_append, ih (Nat.le_of_succ_le bound), turn, free, List.range_succ]
    rfl

/-- Where no call but the last has failed, the functions started are those of the first
calls. -/
theorem Stage.inOrder (stage : Stage fn s k phase) (undisturbed : Undisturbed fn s.calls) :
    ∃ k' ≤ s.calls, s.log.filterMap Mark.start? = List.range k' := by
  have before := history_starts undisturbed stage.bound
  have one : ∀ ended : List Mark, ended.filterMap Mark.start? = [] →
      (history fn k ++ .started k :: ended).filterMap Mark.start? = List.range (k + 1) := by
    intro ended none_
    have first : Mark.start? (.started k) = some k := rfl
    rw [List.filterMap_append, before, List.filterMap_cons_some first, none_, List.range_succ]
  cases stage.here with
  | ready _ _ log => exact ⟨k, stage.bound, log ▸ before⟩
  | called settled some_ _ _ _ _ log =>
    refine ⟨k + 1, some_, log ▸ one _ ?_⟩
    cases settled <;> rfl
  | waiting some_ _ _ _ _ log => exact ⟨k + 1, some_, log ▸ one [] rfl⟩
  | adopting some_ _ _ log => exact ⟨k + 1, some_, log ▸ one [.finished k] rfl⟩
  | done some_ _ log =>
    rw [← history_succ] at log
    exact ⟨k + 1, some_, log ▸ history_starts undisturbed some_⟩

theorem Stage.lawful (stage : Stage fn s k phase) (undisturbed : Undisturbed fn s.calls) :
    s.Lawful fn := by
  have free : ∀ call < s.calls, (chain fn call).isOk ∧ received fn call = (fn call).outcome := by
    intro call inside
    obtain ⟨value, ok⟩ := chain_isOk undisturbed inside
    exact ⟨by rw [ok]; rfl, received_ok ok⟩
  refine ⟨stage.inOrder undisturbed, stage.alone, ?_, ?_⟩
  · intro call outcome settled
    rw [stage.txs] at settled
    split at settled
    next reached =>
      cases settled
      have inside : call < s.calls := Nat.lt_of_lt_of_le reached stage.settled_le
      refine ⟨?_, (free call inside).2⟩
      have noted : .finished call ∈ history fn (phase.settled k) :=
        (mem_history (.inr rfl)).mpr ⟨reached, (free call inside).1⟩
      cases stage.here with
      | done _ _ log => rwa [log, ← history_succ]
      | ready _ _ log => rwa [log]
      | called _ _ _ _ _ _ log | waiting _ _ _ _ _ log | adopting _ _ _ log =>
        rw [log]
        exact List.mem_append_left _ noted
    next => cases settled
  · intro quiet call inside
    obtain ⟨_, log, settled⟩ := stage.quiet quiet
    rw [log, settled call inside, (free call inside).2]
    exact ⟨(mem_history (.inl rfl)).mpr ⟨inside, (free call inside).1⟩, rfl⟩

/-- Where every function has been run, no call but the last has failed. -/
theorem Stage.undisturbed (stage : Stage fn s k phase) (quiet : s.Quiet) (lawful : s.Lawful fn) :
    Undisturbed fn s.calls := by
  obtain ⟨_, log, settled⟩ := stage.quiet quiet
  intro call next
  have inside : call < s.calls := Nat.lt_of_succ_lt next
  -- The function of the next call was run, so this one did not reject.
  have run := (lawful.all quiet (call + 1) next).1
  rw [log, mem_history (.inl rfl), chain_succ] at run
  have same : received fn call = (fn call).outcome :=
    Promise.settled.inj ((settled call inside).symm.trans (lawful.all quiet call inside).2)
  rw [same] at run
  cases outcome : (fn call).outcome with
  | ok value => rfl
  | error reason =>
    rw [outcome] at run
    exact absurd run.2 Bool.noConfusion

/-- In every run in which only the last call may fail, the queue does what it is for; and once
it is at rest it has done so only then.  It comes to rest by itself. -/
theorem tx_lawful {events : List Event} (ran : initial.run fn events = some s) :
    (Undisturbed fn s.calls → s.Lawful fn) ∧
      (s.Quiet → (s.Lawful fn ↔ Undisturbed fn s.calls)) ∧
      (¬ s.Quiet → ∃ event, event ≠ .call ∧ (s.step fn event).isSome) ∧
      ∀ more s', (∀ event ∈ more, event ≠ .call) → s.run fn more = some s' →
        more.length ≤ 5 * s.calls := by
  obtain ⟨k, phase, stage⟩ := stage_initial.run ran
  refine ⟨stage.lawful, fun quiet => ⟨stage.undisturbed quiet, stage.lawful⟩, ?_, ?_⟩
  · intro busy
    cases queued : s.heap.jobs with
    | cons job jobs =>
      refine ⟨.job, Event.noConfusion, ?_⟩
      rw [State.step, queued]
      rfl
    | nil =>
      have running : ¬ ∀ call, .started call ∈ s.log → .finished call ∈ s.log :=
        fun ended => busy ⟨queued, ended⟩
      push Not at running
      obtain ⟨call, started, unfinished⟩ := running
      refine ⟨.settle call, Event.noConfusion, ?_⟩
      rw [State.step, if_pos ⟨started, unfinished⟩]
      rfl
  · intro more s' calm done
    exact Nat.le_trans (stage.run_length calm done) (work_le ..)

/-- The first function returns a promise that is settled later, and the second, called
meanwhile, throws. -/
theorem tx_lawful_two :
    ∃ s : State Unit Unit,
      initial.run (fun call => if call = 0 then .returns (.ok (some ())) else .throws ())
        [.call, .job, .call, .job, .settle 0, .job, .job, .job, .job] = some s ∧
      s.Lawful fun call => if call = 0 then .returns (.ok (some ())) else .throws () := by
  let events : List Event := [.call, .job, .call, .job, .settle 0, .job, .job, .job, .job]
  refine ⟨_, rfl, (@tx_lawful _ _ _ _ events rfl).1 ?_⟩
  intro call next
  have first : call = 0 := by
    have two : call + 1 < 2 := next
    omega
  subst first
  rfl

/-- A function that throws keeps the one behind it from being run. -/
theorem throw_blocks_queue :
    ¬ ∀ (fn : Nat → Behaviour Unit Unit) (events : List Event) (s : State Unit Unit),
      initial.run fn events = some s → s.Lawful fn := by
  intro all
  have lawful := all (fun call => if call = 0 then .throws () else .returns (.ok (some ())))
    [.call, .call, .job, .job, .job, .job] _ rfl
  have own := (lawful.own 1 (.error ()) rfl).1
  revert own
  decide

end Transactions

end Pomade.Core
