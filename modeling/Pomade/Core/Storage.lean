import Mathlib.Data.List.Basic
import Pomade.Lib.Promise

/-! # The transaction queue of the in-memory storage

`inMemoryStorage.tx` of `core/src/storage.ts`.  Every call hangs its function on the promise
`lock` and replaces `lock` by a promise that follows the call's own.  The functions belong to
the callers: what each does, and when the promise it returns is settled, is given.
-/

namespace Pomade.Core

open Pomade.Lib

/-- How a promise is settled.  `none` is `undefined`. -/
abbrev Outcome (ε β : Type) := Except ε (Option β)

/-- What the function of a call does when it is run: it throws, or it returns a promise that
is settled some time. -/
inductive Behaviour (ε β : Type) where
  | throws (reason : ε)
  | returns (outcome : Outcome ε β)

def Behaviour.outcome {ε β : Type} : Behaviour ε β → Outcome ε β
  | .throws reason => .error reason
  | .returns outcome => outcome

/-- The promises: `lock` as it was before each call, what `tx` returns, and what the function
returns. -/
inductive Ref where
  | lock (n : Nat)
  | tx (call : Nat)
  | returned (call : Nat)
deriving DecidableEq

inductive Reaction where
  /-- `lock.then(f)` -/
  | run (call : Nat)
  /-- `p.then(() => undefined)` -/
  | release (call : Nat)
  /-- `p` takes over the outcome of the promise that `f` returned. -/
  | adopt (call : Nat)

/-- When a function is run, and when it is done. -/
inductive Mark where
  | started (call : Nat)
  | finished (call : Nat)
deriving DecidableEq

section Queue

variable {ε β : Type}

structure State (ε β : Type) where
  calls : Nat
  lock : Ref
  heap : Heap Ref Reaction Nat (Outcome ε β)
  log : List Mark

/-- `let lock = Promise.resolve()` -/
def initial : State ε β where
  calls := 0
  lock := .lock 0
  heap := ⟨fun
    | .lock 0 => .settled (.ok none)
    | _ => .pending [], []⟩
  log := []

def State.tx (s : State ε β) : State ε β :=
  { s with
    calls := s.calls + 1
    lock := .lock (s.calls + 1)
    heap := (s.heap.await s.lock (.run s.calls)).await (.tx s.calls) (.release s.calls) }

/-- The outcome of `p.then(() => undefined)`. -/
def relay : Outcome ε β → Outcome ε β
  | .ok _ => .ok none
  | .error reason => .error reason

variable (fn : Nat → Behaviour ε β)

/-- A function that is run throws, or a job is queued that awaits its promise.  A rejection
passes by a `then` that has no second function. -/
def State.perform (s : State ε β) : Job Reaction Nat (Outcome ε β) → State ε β
  | .react (.run call) (.ok _) =>
    match fn call with
    | .throws reason =>
      { s with
        heap := s.heap.settle (.tx call) (.error reason)
        log := s.log ++ [.started call, .finished call] }
    | .returns _ => { s with heap := s.heap.enqueue call, log := s.log ++ [.started call] }
  | .react (.run call) (.error reason) =>
    { s with heap := s.heap.settle (.tx call) (.error reason) }
  | .react (.release call) outcome =>
    { s with heap := s.heap.settle (.lock (call + 1)) (relay outcome) }
  | .react (.adopt call) outcome => { s with heap := s.heap.settle (.tx call) outcome }
  | .task call => { s with heap := s.heap.await (.returned call) (.adopt call) }

/-- A call of `tx`, the next job, or a promise that a function returned being settled. -/
inductive Event where
  | call
  | job
  | settle (call : Nat)

def State.step (s : State ε β) : Event → Option (State ε β)
  | .call => some s.tx
  | .job =>
    match s.heap.jobs with
    | [] => none
    | job :: jobs => some ({ s with heap := ⟨s.heap.promise, jobs⟩ }.perform fn job)
  | .settle call =>
    if .started call ∈ s.log ∧ .finished call ∉ s.log then
      some { s with
        heap := s.heap.settle (.returned call) (fn call).outcome
        log := s.log ++ [.finished call] }
    else none

def State.run (s : State ε β) : List Event → Option (State ε β)
  | [] => some s
  | event :: events => (s.step fn event).bind fun s' => s'.run events

/-! ## What the queue is for -/

/-- No job is left and no function is running. -/
def State.Quiet (s : State ε β) : Prop :=
  s.heap.jobs = [] ∧ ∀ call, .started call ∈ s.log → .finished call ∈ s.log

def Mark.start? : Mark → Option Nat
  | .started call => some call
  | .finished _ => none

/-- Every function is run once, in the order of the calls, none while another is running, and
the outcome of a call is that of its function. -/
structure State.Lawful (s : State ε β) : Prop where
  inOrder : ∃ k ≤ s.calls, s.log.filterMap Mark.start? = List.range k
  alone : ∀ before call after, s.log = before ++ .started call :: after →
    ∀ other, .started other ∈ before → .finished other ∈ before
  own : ∀ call outcome, s.heap.promise (.tx call) = .settled outcome →
    .finished call ∈ s.log ∧ outcome = (fn call).outcome
  all : s.Quiet → ∀ call < s.calls,
    .started call ∈ s.log ∧ s.heap.promise (.tx call) = .settled (fn call).outcome

/-- Only the function of the last call may fail. -/
def Undisturbed (calls : Nat) : Prop := ∀ call, call + 1 < calls → (fn call).outcome.isOk

end Queue

end Pomade.Core
