import Pomade.Lib.Pool

/-! # Transactions of the SQLite storage

`sqliteStorage.tx` of `signer/src/storage.ts`.  All handlers share one connection.  A function
that is passed to `tx` waits for its turn and runs between `BEGIN` and `COMMIT` or `ROLLBACK`;
a collection operation goes to the connection at once, whoever makes it.

SQLite is given by what it does to the tables: `ROLLBACK` brings back the tables as they were at
`BEGIN`.  A statement may fail and then does nothing, `ROLLBACK` only where no transaction is open.
-/

namespace Pomade.Core.Sqlite

open Pomade.Lib

/-- The operations of the collections: what they answer, and what they do to the tables. -/
structure Storage (A : Type) (Answer : A → Type) (ε σ : Type) where
  answer : (a : A) → ε → σ → Answer a
  apply : A → σ → σ

/-- `enqueue` is the push to `txQueue`, `finish` the `finally` of the function that was pushed. -/
inductive Op (A : Type) where
  | access (a : A)
  | enqueue
  | begin (ticket : Nat)
  | commit
  | rollback
  | finish

section Connection

variable {A E R ε σ : Type} {Answer : A → Type}

abbrev Ans (E : Type) (Answer : A → Type) : Op A → Type
  | .access a => Except E (Answer a)
  | .enqueue => Nat
  | .begin _ => Except E Unit
  | .commit => Except E Unit
  | .rollback => Except E Unit
  | .finish => Unit

/-- The connection with the queue in front of it.  A function of the queue is known by its
ticket; `txRunning` also says whose turn it is. -/
structure Conn (σ : Type) where
  tables : σ
  /-- The tables at `BEGIN`, while a transaction is open. -/
  saved : Option σ
  issued : Nat
  txQueue : List Nat
  txRunning : Option Nat

def Conn.opened (tables : σ) : Conn σ where
  tables := tables
  saved := none
  issued := 0
  txQueue := []
  txRunning := none

/-- What another connection would read: without the writes of an open transaction. -/
def Conn.durable (s : Conn σ) : σ := s.saved.getD s.tables

def Conn.processTxQueue (s : Conn σ) : Conn σ :=
  match s.txRunning, s.txQueue with
  | none, next :: rest => { s with txRunning := some next, txQueue := rest }
  | _, _ => s

/-- What a call takes from outside: whether the statement fails, and why. -/
structure Env (E ε : Type) where
  fails : Bool
  reason : E
  outer : ε

def exec (storage : Storage A Answer ε σ) : (o : Op A) → Env E ε → Conn σ → Ans E Answer o × Conn σ
  | .access a, e, s =>
    if e.fails then (.error e.reason, s)
    else (.ok (storage.answer a e.outer s.tables), { s with tables := storage.apply a s.tables })
  | .enqueue, _, s =>
    (s.issued, { s with issued := s.issued + 1, txQueue := s.txQueue ++ [s.issued] }.processTxQueue)
  | .begin _, e, s =>
    if e.fails || s.saved.isSome then (.error e.reason, s)
    else (.ok (), { s with saved := some s.tables })
  | .commit, e, s =>
    if e.fails || s.saved.isNone then (.error e.reason, s) else (.ok (), { s with saved := none })
  | .rollback, e, s =>
    match s.saved with
    | some tables => (.ok (), { s with tables, saved := none })
    | none => (.error e.reason, s)
  | .finish, _, s => ((), { s with txRunning := none }.processTxQueue)

/-- A function of the queue is called when its turn comes.  With `faults` false no statement
fails. -/
def permit (faults : Bool) : Op A → Env E ε → Conn σ → Prop
  | .begin ticket, e, s => s.txRunning = some ticket ∧ (e.fails = true → faults = true)
  | _, e, _ => e.fails = true → faults = true

instance (faults : Bool) : (o : Op A) → (e : Env E ε) → (s : Conn σ) → Decidable (permit faults o e s)
  | .begin _, _, _ => inferInstanceAs (Decidable (_ ∧ _))
  | .access _, _, _ | .enqueue, _, _ | .commit, _, _ | .rollback, _, _ | .finish, _, _ =>
    inferInstanceAs (Decidable (_ → _))

/-- The world of the connection. -/
def world (E : Type) (storage : Storage A Answer ε σ) (faults : Bool) :
    World (Op A) (Ans E Answer) (Conn σ) :=
  World.ofExec (exec (E := E) storage) (permit faults)

/-! ## What a call does -/

section Steps

variable {storage : Storage A Answer ε σ} {faults : Bool} {s s' : Conn σ}

theorem step_access {a : A} {answer : Except E (Answer a)}
    (step : (world E storage faults).step (.access a) s answer s') :
    (s' = s ∧ ∃ reason, answer = .error reason) ∨
      (∃ value, answer = .ok value) ∧ s' = { s with tables := storage.apply a s.tables } := by
  obtain ⟨e, _, outcome⟩ := step
  simp only [exec] at outcome
  split at outcome
  · cases outcome
    exact .inl ⟨rfl, _, rfl⟩
  · cases outcome
    exact .inr ⟨⟨_, rfl⟩, rfl⟩

theorem step_enqueue {answer : Nat} (step : (world E storage faults).step .enqueue s answer s') :
    answer = s.issued ∧
      s' = { s with issued := s.issued + 1, txQueue := s.txQueue ++ [s.issued] }.processTxQueue := by
  obtain ⟨e, _, outcome⟩ := step
  cases outcome
  exact ⟨rfl, rfl⟩

theorem step_begin {ticket : Nat} {answer : Except E Unit}
    (step : (world E storage faults).step (.begin ticket) s answer s') :
    s.txRunning = some ticket ∧ ((s' = s ∧ ∃ reason, answer = .error reason) ∨
      answer = .ok () ∧ s.saved = none ∧ s' = { s with saved := some s.tables }) := by
  obtain ⟨e, permitted, outcome⟩ := step
  refine ⟨permitted.1, ?_⟩
  simp only [exec] at outcome
  split at outcome
  · cases outcome
    exact .inl ⟨rfl, _, rfl⟩
  next free =>
    cases outcome
    simp only [Bool.or_eq_true, not_or, Bool.not_eq_true, Option.isSome_eq_false_iff,
      Option.isNone_iff_eq_none] at free
    exact .inr ⟨rfl, free.2, rfl⟩

theorem step_commit {answer : Except E Unit} (step : (world E storage faults).step .commit s answer s') :
    (s' = s ∧ ∃ reason, answer = .error reason) ∨ answer = .ok () ∧ s' = { s with saved := none } := by
  obtain ⟨e, _, outcome⟩ := step
  simp only [exec] at outcome
  split at outcome
  · cases outcome
    exact .inl ⟨rfl, _, rfl⟩
  · cases outcome
    exact .inr ⟨rfl, rfl⟩

theorem step_rollback {answer : Except E Unit}
    (step : (world E storage faults).step .rollback s answer s') :
    (s.saved = none ∧ s' = s ∧ ∃ reason, answer = .error reason) ∨
      ∃ tables, s.saved = some tables ∧ answer = .ok () ∧ s' = { s with tables, saved := none } := by
  obtain ⟨e, _, outcome⟩ := step
  simp only [exec] at outcome
  split at outcome
  next tables open_ =>
    cases outcome
    exact .inr ⟨tables, open_, rfl, rfl⟩
  next closed =>
    cases outcome
    exact .inl ⟨closed, rfl, _, rfl⟩

theorem step_finish {answer : Unit} (step : (world E storage faults).step .finish s answer s') :
    s' = { s with txRunning := none }.processTxQueue := by
  obtain ⟨e, _, outcome⟩ := step
  cases outcome
  rfl

end Steps

/-! ## Handlers -/

abbrev ConnProg (A E : Type) (Answer : A → Type) : Type → Type := Prog (Op A) (Ans E Answer)

abbrev access (a : A) : ConnProg A E Answer (Except E (Answer a)) := Prog.op (Op.access a)

abbrev enqueue : ConnProg A E Answer Nat := Prog.op Op.enqueue

abbrev begin (ticket : Nat) : ConnProg A E Answer (Except E Unit) := Prog.op (Op.begin ticket)

abbrev commit : ConnProg A E Answer (Except E Unit) := Prog.op Op.commit

abbrev rollback : ConnProg A E Answer (Except E Unit) := Prog.op Op.rollback

abbrev finish : ConnProg A E Answer Unit := Prog.op Op.finish

def undo (reason : E) : ConnProg A E Answer (Except E R) := do
  match ← rollback with
  | .ok _ => return .error reason
  | .error reason => return .error reason

/-- What follows the function: it has returned, or it has thrown. -/
def settle : Except E R → ConnProg A E Answer (Except E R)
  | .ok result => do
    match ← commit with
    | .ok _ => return .ok result
    | .error reason => undo reason
  | .error reason => undo reason

def transaction (ticket : Nat) (f : ConnProg A E Answer (Except E R)) :
    ConnProg A E Answer (Except E R) := do
  match ← begin ticket with
  | .ok _ => f >>= settle
  | .error reason => return .error reason

def closing (result : Except E R) : ConnProg A E Answer (Except E R) := do
  finish
  return result

def tx (f : ConnProg A E Answer (Except E R)) : ConnProg A E Answer (Except E R) := do
  let ticket ← enqueue
  transaction ticket f >>= closing

def Op.IsAccess : Op A → Prop
  | .access _ => True
  | _ => False

/-- A handler, or a function for `tx`: it makes collection operations and nothing else. -/
structure Body (A E R : Type) (Answer : A → Type) where
  run : ConnProg A E Answer (Except E R)
  only : run.Only Op.IsAccess

/-- A handler runs outside `tx`, or is a call of `tx`. -/
inductive Handler (A E R : Type) (Answer : A → Type) where
  | plain (body : Body A E R Answer)
  | tx (body : Body A E R Answer)

def Handler.program : Handler A E R Answer → ConnProg A E Answer (Except E R)
  | .plain body => body.run
  | .tx body => Sqlite.tx body.run

abbrev ConnCall (A E : Type) (Answer : A → Type) : Type := Call (Op A) (Ans E Answer)

abbrev ConnThread (A E R : Type) (Answer : A → Type) : Type :=
  Thread (Handler A E R Answer) (Op A) (Ans E Answer) (Except E R)

abbrev ConnEntry (A E R σ : Type) (Answer : A → Type) : Type :=
  Entry (Handler A E R Answer) (Op A) (Ans E Answer) (Conn σ)

abbrev ConnPool (A E R σ : Type) (Answer : A → Type) : Type :=
  Pool (Handler A E R Answer) (Op A) (Ans E Answer) (Except E R) (Conn σ)

abbrev ConnAction (A E R σ : Type) (Answer : A → Type) : Type :=
  Action (Handler A E R Answer) (Op A) (Ans E Answer) (Conn σ)

/-- The pools of handlers on a connection whose tables are `tables` at first. -/
abbrev ConnReach (storage : Storage A Answer ε σ) (faults : Bool) (tables : σ)
    (ok : ConnPool A E R σ Answer → ConnAction A E R σ Answer → Prop) :
    ConnPool A E R σ Answer → Prop :=
  Pool.Reach (world E storage faults) Handler.program (fun _ _ => False)
    (fun s => s = Conn.opened tables) ok

end Connection

end Pomade.Core.Sqlite
