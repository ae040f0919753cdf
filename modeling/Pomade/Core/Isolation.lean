import Mathlib.Data.List.Infix
import Pomade.Core.Signer

/-! # When the transactions of the SQLite storage are isolated

The queue takes the functions one by one in the order of the calls, in every run.  But a handler
that runs outside `tx` writes on the same connection, so that its write is committed or undone
with the transaction that happens to be open.
-/

namespace Pomade.Core.Sqlite

open Pomade.Lib

/-! ## What isolation means -/

section Meaning

variable {A E R ε σ : Type} {Answer : A → Type}

/-- What a call has done to the tables, apart from undoing. -/
def effect (storage : Storage A Answer ε σ) : ConnCall A E Answer → σ → σ
  | ⟨.access a, .ok _⟩, tables => storage.apply a tables
  | _, tables => tables

/-- The tables after the calls of a history, newest first. -/
def replay (storage : Storage A Answer ε σ) (tables : σ) (history : List (ConnEntry A E R σ Answer)) : σ :=
  history.foldr (fun e => effect storage e.call) tables

def isCommit : ConnCall A E Answer → Bool
  | ⟨.commit, .ok _⟩ => true
  | _ => false

def isRollback : ConnCall A E Answer → Bool
  | ⟨.rollback, .ok _⟩ => true
  | _ => false

def turnOf : ConnCall A E Answer → Option Nat
  | ⟨.begin ticket, _⟩ => some ticket
  | _ => none

/-- The tickets of the functions whose turn has come, oldest first. -/
def turns (history : List (ConnEntry A E R σ Answer)) : List Nat :=
  history.reverse.filterMap fun e => turnOf e.call

/-- The thread has committed. -/
def committed (history : List (ConnEntry A E R σ Answer)) (tid : Nat) : Bool :=
  history.any fun e => e.tid == tid && isCommit e.call

/-- The thread has rolled back. -/
def rolledBack (history : List (ConnEntry A E R σ Answer)) (tid : Nat) : Bool :=
  history.any fun e => e.tid == tid && isRollback e.call

/-- A thread is in its turn: `BEGIN` was tried, and the next function is not called yet. -/
def InTurn (seen : List (ConnCall A E Answer)) : Prop :=
  (∃ ticket result, ⟨.begin ticket, result⟩ ∈ seen) ∧ ⟨.finish, ()⟩ ∉ seen

def Handler.isPlain : Handler A E R Answer → Bool
  | .plain _ => true
  | .tx _ => false

/-- The functions are called one at a time in the order of the calls of `tx`; the connection has
every write except those of the transactions that were rolled back; and what is durable are the
writes of the handlers outside `tx` and of the transactions that were committed. -/
structure Isolated (storage : Storage A Answer ε σ) (first : σ) (p : ConnPool A E R σ Answer) :
    Prop where
  inOrder : ∃ n ≤ p.state.issued, turns p.history = List.range n
  alone : ∀ (i j : Nat) (thread thread' : ConnThread A E R Answer), p.threads[i]? = some thread →
    p.threads[j]? = some thread' → InTurn thread.seen → InTurn thread'.seen → i = j
  written : p.state.tables = replay storage first
    (p.history.filter fun e => !rolledBack p.history e.tid)
  durable : p.state.durable = replay storage first
    (p.history.filter fun e => e.job.isPlain || committed p.history e.tid)

/-- A handler outside `tx` writes only while no transaction is open. -/
def Apart (storage : Storage A Answer ε σ) (p : ConnPool A E R σ Answer) :
    ConnAction A E R σ Answer → Prop
  | .call _ job call => job.isPlain = true → p.state.saved.isSome = true →
      ∀ tables, effect storage call tables = tables
  | _ => True

end Meaning

/-! ## How far a thread is -/

section Stages

variable {A E R ε σ : Type} {Answer : A → Type}

/-- How far a handler is.  The numbers are tickets. -/
inductive Stage where
  | outside
  | fresh
  | waiting (ticket : Nat)
  /-- The transaction is open. -/
  | inside (ticket : Nat)
  /-- There is no transaction any more, and the next function is still to be called. -/
  | leaving (ticket : Nat)
  | done (ticket : Nat)

def Stage.ticket : Stage → Option Nat
  | .outside | .fresh => none
  | .waiting ticket | .inside ticket | .leaving ticket | .done ticket => some ticket

/-- A thread at a stage: what it has called, and what is left of its program. -/
inductive At : Stage → ConnThread A E R Answer → Prop where
  | outside {body seen rest} (only : rest.Only Op.IsAccess)
      (accesses : ∀ call ∈ seen, call.op.IsAccess) : At .outside ⟨.plain body, seen, rest⟩
  | fresh {body} : At .fresh ⟨.tx body, [], tx body.run⟩
  | waiting {body ticket} :
      At (.waiting ticket) ⟨.tx body, [⟨.enqueue, ticket⟩], transaction ticket body.run >>= closing⟩
  | inside {body ticket rest seen} (only : rest.Only Op.IsAccess)
      (accesses : ∀ call ∈ seen, call.op.IsAccess) :
      At (.inside ticket) ⟨.tx body, seen ++ [⟨.begin ticket, .ok ()⟩, ⟨.enqueue, ticket⟩],
        rest >>= settle >>= closing⟩
  | undoing {body ticket seen reason reason'} (accesses : ∀ call ∈ seen, call.op.IsAccess) :
      At (.inside ticket) ⟨.tx body,
        ⟨.commit, .error reason⟩ :: (seen ++ [⟨.begin ticket, .ok ()⟩, ⟨.enqueue, ticket⟩]),
        undo reason' >>= closing⟩
  | refused {body ticket reason result} :
      At (.leaving ticket) ⟨.tx body, [⟨.begin ticket, .error reason⟩, ⟨.enqueue, ticket⟩],
        closing result⟩
  | ended {body ticket seen result} {call : ConnCall A E Answer} (ends : isCommit call ∨ isRollback call)
      (past : ∀ call ∈ seen, ¬ isCommit call ∧ ¬ isRollback call ∧ call.op ≠ .finish) :
      At (.leaving ticket) ⟨.tx body,
        call :: (seen ++ [⟨.begin ticket, .ok ()⟩, ⟨.enqueue, ticket⟩]), closing result⟩
  | done {body ticket seen result} (left : At (.leaving ticket) ⟨.tx body, seen, closing result⟩) :
      At (.done ticket) ⟨.tx body, ⟨.finish, ()⟩ :: seen, pure result⟩

/-- What a call does to the stage of its thread. -/
inductive Moves : Stage → ConnCall A E Answer → Stage → Prop where
  | outside {a : A} {result} : Moves .outside ⟨.access a, result⟩ .outside
  | access {a : A} {ticket result} : Moves (.inside ticket) ⟨.access a, result⟩ (.inside ticket)
  | enqueue {ticket} : Moves .fresh ⟨.enqueue, ticket⟩ (.waiting ticket)
  | begin {ticket} : Moves (.waiting ticket) ⟨.begin ticket, .ok ()⟩ (.inside ticket)
  | refuse {ticket reason} : Moves (.waiting ticket) ⟨.begin ticket, .error reason⟩ (.leaving ticket)
  | commit {ticket} : Moves (.inside ticket) ⟨.commit, .ok ()⟩ (.leaving ticket)
  | uncommitted {ticket reason} : Moves (.inside ticket) ⟨.commit, .error reason⟩ (.inside ticket)
  | rollback {ticket} : Moves (.inside ticket) ⟨.rollback, .ok ()⟩ (.leaving ticket)
  | finish {ticket} : Moves (.leaving ticket) ⟨.finish, ()⟩ (.done ticket)

theorem access_past {call : ConnCall A E Answer} (access : call.op.IsAccess) :
    ¬ isCommit call ∧ ¬ isRollback call ∧ call.op ≠ .finish := by
  obtain ⟨o, answer⟩ := call
  cases o with
  | access a => exact ⟨nofun, nofun, nofun⟩
  | _ => exact access.elim

/-- A call of a thread: the stage it moves to is the one the thread is at afterwards.  A
`ROLLBACK` that fails is not considered. -/
theorem At.moves {stage : Stage} {job : Handler A E R Answer} {seen : List (ConnCall A E Answer)}
    {program : ConnProg A E Answer (Except E R)} (at_ : At stage ⟨job, seen, program⟩) {o : Op A}
    {next : Ans E Answer o → ConnProg A E Answer (Except E R)} (found : program = .call o next)
    (answer : Ans E Answer o)
    (undone : ∀ ticket reason, stage = .inside ticket →
      (⟨o, answer⟩ : ConnCall A E Answer) ≠ ⟨.rollback, .error reason⟩) :
    ∃ stage', Moves stage ⟨o, answer⟩ stage' ∧ At stage' ⟨job, ⟨o, answer⟩ :: seen, next answer⟩ := by
  -- A `ROLLBACK`, after whatever made it necessary.
  have undoes : ∀ {body : Body A E R Answer} {ticket : Nat} {seen : List (ConnCall A E Answer)} {reason : E},
      stage = .inside ticket →
      (∀ call ∈ seen, ¬ isCommit call ∧ ¬ isRollback call ∧ call.op ≠ .finish) →
      undo reason >>= closing = .call o next →
      ∃ stage', Moves (.inside ticket) ⟨o, answer⟩ stage' ∧ At stage' ⟨.tx body, ⟨o, answer⟩ ::
        (seen ++ [⟨.begin ticket, .ok ()⟩, ⟨.enqueue, ticket⟩]), next answer⟩ := by
    intro body ticket seen reason here past found
    cases found
    cases answer with
    | error reason => exact absurd rfl (undone ticket reason here)
    | ok done => exact ⟨.leaving ticket, .rollback, .ended (.inr rfl) past⟩
  cases at_ with
  | outside only accesses =>
    subst found
    cases o with
    | access a =>
      refine ⟨.outside, .outside, .outside (only.2 answer) ?_⟩
      exact List.forall_mem_cons.mpr ⟨trivial, accesses⟩
    | _ => exact only.1.elim
  | fresh =>
    cases found
    exact ⟨.waiting answer, .enqueue, .waiting⟩
  | @waiting body ticket =>
    cases found
    cases answer with
    | ok done =>
      have opened : At (.inside ticket) ⟨.tx body,
          [] ++ [⟨.begin ticket, .ok ()⟩, ⟨.enqueue, ticket⟩], body.run >>= settle >>= closing⟩ :=
        .inside body.only nofun
      exact ⟨.inside ticket, .begin, opened⟩
    | error reason => exact ⟨.leaving ticket, .refuse, .refused⟩
  | @inside body ticket rest seen only accesses =>
    cases rest with
    | abort => cases found
    | call o' next' =>
      cases found
      cases o with
      | access a =>
        have continued : At (.inside ticket) ⟨.tx body,
            (⟨.access a, answer⟩ :: seen) ++ [⟨.begin ticket, .ok ()⟩, ⟨.enqueue, ticket⟩],
            next' answer >>= settle >>= closing⟩ :=
          .inside (only.2 answer) (List.forall_mem_cons.mpr ⟨trivial, accesses⟩)
        exact ⟨.inside ticket, .access, continued⟩
      | _ => exact only.1.elim
    | pure result =>
      cases result with
      | ok result =>
        cases found
        cases answer with
        | ok done =>
          exact ⟨.leaving ticket, .commit, .ended (.inl rfl) fun call member =>
            access_past (accesses call member)⟩
        | error reason => exact ⟨.inside ticket, .uncommitted, .undoing accesses⟩
      | error reason =>
        exact undoes rfl (fun call member => access_past (accesses call member)) found
  | undoing accesses =>
    refine undoes rfl (List.forall_mem_cons.mpr ⟨?_, ?_⟩) found
    · exact ⟨nofun, nofun, nofun⟩
    · exact fun call member => access_past (accesses call member)
  | @refused body ticket reason result =>
    cases found
    exact ⟨.done ticket, .finish, .done .refused⟩
  | @ended body ticket seen result call ends past =>
    cases found
    exact ⟨.done ticket, .finish, .done (.ended ends past)⟩
  | done left => cases found

end Stages

/-! ## The queue -/

section Queue

variable {A E R ε σ : Type} {Answer : A → Type} {storage : Storage A Answer ε σ} {faults : Bool}

/-- The queue holds the tickets after the one whose turn it is; `k` functions have had theirs. -/
inductive Line (s : Conn σ) (k : Nat) : Prop where
  | idle (running : s.txRunning = none) (queue : s.txQueue = []) (all : k = s.issued)
  | busy {n : Nat} (running : s.txRunning = some n) (issued : n < s.issued)
      (queue : s.txQueue = List.range' (n + 1) (s.issued - (n + 1))) (turn : k = n ∨ k = n + 1)

/-- What the state is like while a thread is at a stage. -/
def Fits (s : Conn σ) (k : Nat) : Stage → Prop
  | .outside | .fresh => True
  | .waiting n => n < s.issued ∧ (s.txRunning = some n ∧ k = n ∨ n ∈ s.txQueue)
  | .inside n => s.txRunning = some n ∧ k = n + 1 ∧ s.saved.isSome = true
  | .leaving n => s.txRunning = some n ∧ k = n + 1 ∧ s.saved = none
  | .done n => n < s.issued

structure Orderly (p : ConnPool A E R σ Answer) (stages : Nat → Stage) (k : Nat) : Prop where
  place : ∀ (tid : Nat) (thread : ConnThread A E R Answer), p.threads[tid]? = some thread →
    At (stages tid) thread
  fits : ∀ tid < p.threads.length, Fits p.state k (stages tid)
  distinct : ∀ i < p.threads.length, ∀ j < p.threads.length, ∀ n,
    (stages i).ticket = some n → (stages j).ticket = some n → i = j
  served : turns p.history = List.range k
  line : Line p.state k
  holder : p.state.saved.isSome = true → ∃ tid < p.threads.length, ∃ n, stages tid = .inside n

variable {s : Conn σ} {k : Nat} {stage : Stage}

theorem Line.bound (line : Line s k) : k ≤ s.issued := by
  cases line with
  | idle _ _ all => omega
  | busy _ issued _ turn => omega

theorem Fits.issued (line : Line s k) (fits : Fits s k stage) {n : Nat} (ticket : stage.ticket = some n) :
    n < s.issued := by
  have running : s.txRunning = some n → n < s.issued := by
    intro running
    cases line with
    | idle none_ => rw [none_] at running; cases running
    | busy some_ issued =>
      rw [some_] at running
      cases running
      exact issued
  cases stage with
  | outside => cases ticket
  | fresh => cases ticket
  | waiting m =>
    cases ticket
    exact fits.1
  | inside m =>
    cases ticket
    exact running fits.1
  | leaving m =>
    cases ticket
    exact running fits.1
  | done m =>
    cases ticket
    exact fits

/-- The next function is called, if there is one. -/
theorem Line.next {issued n : Nat} {tables : σ} {saved : Option σ} (inside : n < issued)
    (queue : s = ⟨tables, saved, issued, List.range' (n + 1) (issued - (n + 1)), none⟩) :
    Line s.processTxQueue (n + 1) ∧ s.processTxQueue.tables = tables ∧
      s.processTxQueue.saved = saved ∧ s.processTxQueue.issued = issued ∧
      ∀ m, n < m → m < issued → s.processTxQueue.txRunning = some m ∧ n + 1 = m ∨
        m ∈ s.processTxQueue.txQueue := by
  subst queue
  cases more : issued - (n + 1) with
  | zero =>
    have last : issued = n + 1 := by omega
    refine ⟨?_, rfl, rfl, rfl, ?_⟩
    · exact .idle rfl rfl last.symm
    · intro m above below
      omega
  | succ count =>
    refine ⟨?_, rfl, rfl, rfl, ?_⟩
    · refine .busy rfl (n := n + 1) ?_ ?_ (.inl rfl)
      · show n + 1 < issued
        omega
      · show List.range' (n + 1 + 1) count = List.range' (n + 1 + 1) (issued - (n + 1 + 1))
        congr 1
        omega
    · intro m above below
      by_cases first : m = n + 1
      · exact .inl ⟨by rw [first]; rfl, first.symm⟩
      · refine .inr ?_
        show m ∈ List.range' (n + 1 + 1) count
        rw [List.mem_range'_1]
        omega

variable {p : ConnPool A E R σ Answer} {stages : Nat → Stage}

theorem turns_cons (e : ConnEntry A E R σ Answer) (history : List (ConnEntry A E R σ Answer)) :
    turns (e :: history) = turns history ++ (turnOf e.call).toList := by
  rw [turns, List.reverse_cons, List.filterMap_append, turns]
  cases turned : turnOf e.call <;> simp [turned]

/-- While a thread has its turn, no other is in its own. -/
theorem Orderly.apart (orderly : Orderly p stages k) {tid n : Nat} (place : tid < p.threads.length)
    (ticket : (stages tid).ticket = some n) (running : p.state.txRunning = some n) {i : Nat}
    (here : i < p.threads.length) (other : i ≠ tid) :
    ∀ m, stages i ≠ .inside m ∧ stages i ≠ .leaving m := by
  have differs : ∀ m, p.state.txRunning = some m → (stages i).ticket ≠ some m := by
    intro m running' theirs
    rw [Option.some.inj (running'.symm.trans running)] at theirs
    exact other (orderly.distinct i here tid place n theirs ticket)
  intro m
  have fits := orderly.fits i here
  constructor
  · intro inside
    rw [inside] at fits
    exact differs m fits.1 (by rw [inside]; rfl)
  · intro leaving
    rw [leaving] at fits
    exact differs m fits.1 (by rw [leaving]; rfl)

/-- Two threads in their turn are one. -/
theorem Orderly.alone (orderly : Orderly p stages k) {i j n m : Nat} (here : i < p.threads.length)
    (there : j < p.threads.length) (mine : stages i = .inside n ∨ stages i = .leaving n)
    (theirs : stages j = .inside m ∨ stages j = .leaving m) : i = j := by
  have turn : p.state.txRunning = some n ∧ (stages i).ticket = some n := by
    have fits := orderly.fits i here
    obtain stage | stage := mine
    · rw [stage] at fits ⊢
      exact ⟨fits.1, rfl⟩
    · rw [stage] at fits ⊢
      exact ⟨fits.1, rfl⟩
  by_contra other
  obtain ⟨outside, unsettled⟩ := orderly.apart here turn.2 turn.1 there (Ne.symm other) m
  cases theirs with
  | inl stage => exact outside stage
  | inr stage => exact unsettled stage

theorem orderly_opened (tables : σ) :
    Orderly (⟨Conn.opened tables, [], []⟩ : ConnPool A E R σ Answer) (fun _ => .fresh) 0 where
  place := nofun
  fits := nofun
  distinct := nofun
  served := rfl
  line := .idle rfl rfl rfl
  holder := nofun

theorem Orderly.spawn (orderly : Orderly p stages k) (job : Handler A E R Answer) :
    ∃ stages, Orderly (p.spawn Handler.program job) stages k := by
  -- A new thread has taken no ticket, so it stands outside the queue.
  have start : ∃ stage, At stage ⟨job, [], job.program⟩ ∧ Fits p.state k stage ∧ stage.ticket = none := by
    cases job with
    | plain body => exact ⟨.outside, .outside body.only nofun, trivial, rfl⟩
    | tx body => exact ⟨.fresh, .fresh, trivial, rfl⟩
  obtain ⟨stage, at_, fits, unticketed⟩ := start
  let stages' := Function.update stages p.threads.length stage
  have new : stages' p.threads.length = stage := Function.update_self _ _ _
  have old : ∀ tid < p.threads.length, stages' tid = stages tid :=
    fun tid place => Function.update_of_ne (Nat.ne_of_lt place) _ _
  have split : ∀ tid < (p.spawn Handler.program job).threads.length,
      tid < p.threads.length ∨ tid = p.threads.length := by
    intro tid place
    rw [Pool.spawn, List.length_append, List.length_singleton] at place
    omega
  refine ⟨stages', ?_, ?_, ?_, orderly.served, orderly.line, ?_⟩
  · intro tid thread found
    obtain older | newest := split tid (List.getElem?_eq_some_iff.mp found).1
    · rw [Pool.spawn, List.getElem?_append_left older] at found
      rw [old tid older]
      exact orderly.place tid thread found
    · subst newest
      rw [Pool.spawn, List.getElem?_append_right (Nat.le_refl _), Nat.sub_self] at found
      cases found
      rw [new]
      exact at_
  · intro tid place
    obtain older | rfl := split tid place
    · rw [old tid older]
      exact orderly.fits tid older
    · rw [new]
      exact fits
  · intro i here j there n ticket ticket'
    obtain older | rfl := split i here
    · obtain older' | rfl := split j there
      · rw [old i older] at ticket
        rw [old j older'] at ticket'
        exact orderly.distinct i older j older' n ticket ticket'
      · rw [new, unticketed] at ticket'
        cases ticket'
    · rw [new, unticketed] at ticket
      cases ticket
  · intro open_
    obtain ⟨tid, place, n, inside⟩ := orderly.holder open_
    refine ⟨tid, ?_, n, (old tid place).trans inside⟩
    rw [Pool.spawn, List.length_append]
    omega

/-- The stage of the thread that makes a call, and what the call does to the others. -/
theorem Orderly.update (orderly : Orderly p stages k) {tid : Nat} {job : Handler A E R Answer}
    {seen : List (ConnCall A E Answer)} {rest : ConnProg A E Answer (Except E R)}
    {call : ConnCall A E Answer} {next : ConnProg A E Answer (Except E R)} {s' : Conn σ} {k' : Nat}
    {stage : Stage} (found : p.threads[tid]? = some ⟨job, seen, rest⟩)
    (at_ : At stage ⟨job, call :: seen, next⟩)
    (others : ∀ i < p.threads.length, i ≠ tid → Fits s' k' (stages i)) (own : Fits s' k' stage)
    (ticket : ∀ n, stage.ticket = some n → (stages tid).ticket = some n ∨ n = p.state.issued)
    (served : turns p.history ++ (turnOf call).toList = List.range k') (line : Line s' k')
    (holder : s'.saved.isSome = true → (∃ n, stage = .inside n) ∨
      ∃ i < p.threads.length, i ≠ tid ∧ ∃ n, stages i = .inside n) :
    Orderly (p.called tid job seen call next s') (Function.update stages tid stage) k' := by
  have place : tid < p.threads.length := (List.getElem?_eq_some_iff.mp found).1
  have length : (p.called tid job seen call next s').threads.length = p.threads.length :=
    List.length_set
  have new : Function.update stages tid stage tid = stage := Function.update_self _ _ _
  have old : ∀ i, i ≠ tid → Function.update stages tid stage i = stages i :=
    fun i other => Function.update_of_ne other _ _
  -- A ticket that the thread does not have yet is new.
  have apart : ∀ i < p.threads.length, i ≠ tid → ∀ n, stage.ticket = some n →
      (stages i).ticket ≠ some n := by
    intro i here other n mine theirs
    obtain kept | fresh := ticket n mine
    · exact other (orderly.distinct i here tid place n theirs kept)
    · have below := (orderly.fits i here).issued orderly.line theirs
      omega
  refine ⟨?_, ?_, ?_, ?_, line, ?_⟩
  · intro i thread found'
    by_cases same : i = tid
    · subst same
      rw [Pool.called, List.getElem?_set_self place] at found'
      cases found'
      rw [new]
      exact at_
    · rw [Pool.called, List.getElem?_set_ne (Ne.symm same)] at found'
      rw [old i same]
      exact orderly.place i thread found'
  · intro i here
    rw [length] at here
    by_cases same : i = tid
    · rw [same, new]
      exact own
    · rw [old i same]
      exact others i here same
  · intro i here j there n
    rw [length] at here there
    by_cases first : i = tid
    · by_cases second : j = tid
      · exact fun _ _ => first.trans second.symm
      · rw [first, new, old j second]
        exact fun mine theirs => absurd theirs (apart j there second n mine)
    · by_cases second : j = tid
      · rw [second, new, old i first]
        exact fun theirs mine => absurd theirs (apart i here first n mine)
      · rw [old i first, old j second]
        exact orderly.distinct i here j there n
  · rw [Pool.called, turns_cons]
    exact served
  · intro open_
    rw [length]
    obtain ⟨n, inside⟩ | ⟨i, here, other, n, inside⟩ := holder open_
    · exact ⟨tid, place, n, new.trans inside⟩
    · exact ⟨i, here, n, (old i other).trans inside⟩

/-- A thread does not see a call that keeps its place in the queue and the transaction. -/
theorem Fits.congr {s' : Conn σ} (fits : Fits s k stage) (running : s'.txRunning = s.txRunning)
    (queue : s.txQueue ⊆ s'.txQueue) (issued : s.issued ≤ s'.issued)
    (saved : s'.saved.isSome = s.saved.isSome) : Fits s' k stage := by
  cases stage with
  | outside => trivial
  | fresh => trivial
  | waiting n =>
    obtain ⟨below, turn | queued⟩ := fits
    · exact ⟨Nat.lt_of_lt_of_le below issued, .inl ⟨running.trans turn.1, turn.2⟩⟩
    · exact ⟨Nat.lt_of_lt_of_le below issued, .inr (queue queued)⟩
  | inside n =>
    obtain ⟨turn, count, open_⟩ := fits
    exact ⟨running.trans turn, count, saved.trans open_⟩
  | leaving n =>
    obtain ⟨turn, count, closed⟩ := fits
    refine ⟨running.trans turn, count, ?_⟩
    rw [closed] at saved
    exact Option.not_isSome_iff_eq_none.mp (by simp [saved])
  | done n => exact Nat.lt_of_lt_of_le fits issued

/-- A thread that is not in its turn only needs its place in the queue. -/
theorem Fits.wait {s' : Conn σ} {k' : Nat} (fits : Fits s k stage)
    (apart : ∀ n, stage ≠ .inside n ∧ stage ≠ .leaving n) (issued : s.issued ≤ s'.issued)
    (waits : ∀ n, stage = .waiting n → s.txRunning = some n ∧ k = n ∨ n ∈ s.txQueue →
      s'.txRunning = some n ∧ k' = n ∨ n ∈ s'.txQueue) : Fits s' k' stage := by
  cases stage with
  | outside => trivial
  | fresh => trivial
  | waiting n => exact ⟨Nat.lt_of_lt_of_le fits.1 issued, waits n rfl fits.2⟩
  | inside n => exact absurd rfl (apart n).1
  | leaving n => exact absurd rfl (apart n).2
  | done n => exact Nat.lt_of_lt_of_le fits issued

theorem Line.congr {s' : Conn σ} (line : Line s k) (running : s'.txRunning = s.txRunning)
    (queue : s'.txQueue = s.txQueue) (issued : s'.issued = s.issued) : Line s' k := by
  cases line with
  | idle running₀ queue₀ all =>
    exact .idle (running.trans running₀) (queue.trans queue₀) (all.trans issued.symm)
  | busy running₀ issued₀ queue₀ turn =>
    refine .busy (running.trans running₀) (issued ▸ issued₀) ?_ turn
    rw [queue, queue₀, issued]

theorem Orderly.call (orderly : Orderly p stages k) {tid : Nat} {job : Handler A E R Answer}
    {seen : List (ConnCall A E Answer)} {o : Op A}
    {next : Ans E Answer o → ConnProg A E Answer (Except E R)} {answer : Ans E Answer o} {s' : Conn σ}
    (found : p.threads[tid]? = some ⟨job, seen, .call o next⟩)
    (step : (world E storage faults).step o p.state answer s') :
    ∃ stage k', Moves (stages tid) ⟨o, answer⟩ stage ∧
      Orderly (p.called tid job seen ⟨o, answer⟩ (next answer) s') (Function.update stages tid stage) k' := by
  have place : tid < p.threads.length := (List.getElem?_eq_some_iff.mp found).1
  have fits := orderly.fits tid place
  have undone : ∀ ticket reason, stages tid = .inside ticket →
      (⟨o, answer⟩ : ConnCall A E Answer) ≠ ⟨.rollback, .error reason⟩ := by
    rintro ticket reason inside same
    cases same
    rw [inside] at fits
    obtain ⟨closed, _⟩ | ⟨_, _, impossible, _⟩ := step_rollback step
    · have open_ := fits.2.2
      rw [closed] at open_
      cases open_
    · cases impossible
  obtain ⟨stage, moves, at_⟩ := (orderly.place tid _ found).moves rfl answer undone
  have stays : turns p.history ++ [] = List.range k := by
    rw [List.append_nil]
    exact orderly.served
  refine ⟨stage, ?_⟩
  generalize mine : stages tid = before at moves fits
  -- A call that changes neither the queue nor whether a transaction is open.
  have quiet : before = stage → turnOf (⟨o, answer⟩ : ConnCall A E Answer) = none →
      s'.txRunning = p.state.txRunning → s'.txQueue = p.state.txQueue → s'.issued = p.state.issued →
      s'.saved.isSome = p.state.saved.isSome →
      Orderly (p.called tid job seen ⟨o, answer⟩ (next answer) s') (Function.update stages tid stage) k := by
    rintro rfl unturned running queue issued saved
    refine orderly.update found at_ ?_ ?_ ?_ ?_ (orderly.line.congr running queue issued) ?_
    · exact fun i here _ => (orderly.fits i here).congr running (queue ▸ List.Subset.refl _) issued.ge saved
    · exact fits.congr running (queue ▸ List.Subset.refl _) issued.ge saved
    · exact fun n ticket => .inl (mine ▸ ticket)
    · rw [unturned]
      exact stays
    · intro open_
      rw [saved] at open_
      obtain ⟨i, here, n, inside⟩ := orderly.holder open_
      by_cases same : i = tid
      · exact .inl ⟨n, mine.symm.trans (same ▸ inside)⟩
      · exact .inr ⟨i, here, same, n, inside⟩
  -- The turn of this thread has come: `k` is its ticket, and the others go on waiting.
  have turned : ∀ {n}, before = .waiting n → p.state.txRunning = some n → k = n ∧
      Line p.state (k + 1) ∧ ∀ i < p.threads.length, i ≠ tid → ∀ {s' : Conn σ},
        s'.txRunning = p.state.txRunning → s'.txQueue = p.state.txQueue → s'.issued = p.state.issued →
        Fits s' (k + 1) (stages i) := by
    rintro n rfl running
    have ticket : (stages tid).ticket = some n := by rw [mine]; rfl
    obtain ⟨none_, _, _⟩ | ⟨some_, issued, queue, _⟩ := orderly.line
    · exact absurd (none_.symm.trans running) nofun
    cases some_.symm.trans running
    have count : k = n := by
      obtain ⟨_, turn | queued⟩ := fits
      · exact turn.2
      · rw [queue, List.mem_range'_1] at queued
        omega
    refine ⟨count, .busy running issued queue (.inr (by omega)), ?_⟩
    intro i here other s' running' queue' issued'
    refine (orderly.fits i here).wait (orderly.apart place ticket running here other) issued'.ge ?_
    rintro m waiting (turn | queued)
    · cases turn.1.symm.trans running
      exact absurd (orderly.distinct i here tid place n (by rw [waiting]; rfl) ticket) other
    · exact .inr (queue' ▸ queued)
  -- The transaction of this thread ends.
  have ended : ∀ {n}, before = .inside n → stage = .leaving n →
      turnOf (⟨o, answer⟩ : ConnCall A E Answer) = none → s'.txRunning = p.state.txRunning →
      s'.txQueue = p.state.txQueue → s'.issued = p.state.issued → s'.saved = none →
      Orderly (p.called tid job seen ⟨o, answer⟩ (next answer) s') (Function.update stages tid stage) k := by
    rintro n rfl rfl unturned running queue issued closed
    obtain ⟨turn, rfl, _⟩ := fits
    have ticket : (stages tid).ticket = some n := by rw [mine]; rfl
    refine orderly.update found at_ ?_ ⟨running.trans turn, rfl, closed⟩ ?_ ?_
      (orderly.line.congr running queue issued) ?_
    · intro i here other
      refine (orderly.fits i here).wait (orderly.apart place ticket turn here other) issued.ge ?_
      rintro m waiting (turn' | queued)
      · have first := Option.some.inj (turn'.1.symm.trans turn)
        have second := turn'.2
        omega
      · exact .inr (queue ▸ queued)
    · exact fun m ticket => .inl (mine ▸ ticket)
    · rw [unturned]
      exact stays
    · intro open_
      rw [closed] at open_
      cases open_
  cases moves with
  | outside =>
    refine ⟨k, .outside, ?_⟩
    obtain ⟨rfl, _⟩ | ⟨_, rfl⟩ := step_access step
    · exact quiet rfl rfl rfl rfl rfl rfl
    · exact quiet rfl rfl rfl rfl rfl rfl
  | access =>
    refine ⟨k, .access, ?_⟩
    obtain ⟨rfl, _⟩ | ⟨_, rfl⟩ := step_access step
    · exact quiet rfl rfl rfl rfl rfl rfl
    · exact quiet rfl rfl rfl rfl rfl rfl
  | uncommitted =>
    refine ⟨k, .uncommitted, ?_⟩
    obtain ⟨rfl, _⟩ | ⟨impossible, _⟩ := step_commit step
    · exact quiet rfl rfl rfl rfl rfl rfl
    · cases impossible
  | enqueue =>
    refine ⟨k, .enqueue, ?_⟩
    obtain ⟨rfl, rfl⟩ := step_enqueue step
    have elsewhere : ∀ {saved : Option σ}, saved = p.state.saved → saved.isSome = true →
        ∃ i < p.threads.length, i ≠ tid ∧ ∃ n, stages i = .inside n := by
      rintro _ rfl open_
      obtain ⟨i, here, n, inside⟩ := orderly.holder open_
      refine ⟨i, here, ?_, n, inside⟩
      rintro rfl
      rw [mine] at inside
      cases inside
    cases orderly.line with
    | idle running queue all =>
      -- Nobody waits and nobody is in its turn, so the turn comes at once.
      have next : ({ p.state with issued := p.state.issued + 1, txQueue := p.state.txQueue ++ [p.state.issued] } :
          Conn σ).processTxQueue = { p.state with
            issued := p.state.issued + 1, txQueue := [], txRunning := some p.state.issued } := by
        simp only [Conn.processTxQueue, running, queue, List.nil_append]
      rw [next]
      refine orderly.update found at_ ?_ ⟨Nat.lt_succ_self _, .inl ⟨rfl, all⟩⟩ ?_ stays ?_ ?_
      · intro i here other
        refine (orderly.fits i here).wait (fun n => ?_) (Nat.le_succ _) ?_
        · have fits := orderly.fits i here
          refine ⟨fun inside => ?_, fun leaving => ?_⟩
          · rw [inside] at fits
            exact absurd (running.symm.trans fits.1) nofun
          · rw [leaving] at fits
            exact absurd (running.symm.trans fits.1) nofun
        · rintro n _ (turn | queued)
          · exact absurd (running.symm.trans turn.1) nofun
          · rw [queue] at queued
            cases queued
      · exact fun n ticket => .inr (Option.some.inj ticket).symm
      · exact .busy rfl (Nat.lt_succ_self _) (by simp) (.inl all)
      · exact fun open_ => .inr (elsewhere rfl open_)
    | @busy n running issued queue turn =>
      have next : ({ p.state with issued := p.state.issued + 1, txQueue := p.state.txQueue ++ [p.state.issued] } :
          Conn σ).processTxQueue = { p.state with
            issued := p.state.issued + 1, txQueue := p.state.txQueue ++ [p.state.issued] } := by
        simp only [Conn.processTxQueue, running]
      rw [next]
      refine orderly.update found at_ ?_ ⟨Nat.lt_succ_self _, .inr (by simp)⟩ ?_ stays ?_ ?_
      · exact fun i here _ => (orderly.fits i here).congr rfl (List.subset_append_left _ _)
          (Nat.le_succ _) rfl
      · exact fun n ticket => .inr (Option.some.inj ticket).symm
      · refine .busy running (Nat.lt_succ_of_lt issued) ?_ turn
        have count : p.state.issued + 1 - (n + 1) = p.state.issued - (n + 1) + 1 := by omega
        have last : n + 1 + (p.state.issued - (n + 1)) = p.state.issued := by omega
        show p.state.txQueue ++ [p.state.issued] = List.range' (n + 1) (p.state.issued + 1 - (n + 1))
        rw [count, List.range'_1_concat, queue, last]
      · exact fun open_ => .inr (elsewhere rfl open_)
  | @begin n =>
    obtain ⟨running, ⟨_, _, impossible⟩ | ⟨_, closed, rfl⟩⟩ := step_begin step
    · cases impossible
    obtain ⟨rfl, line, others⟩ := turned rfl running
    refine ⟨k + 1, .begin, ?_⟩
    refine orderly.update found at_ ?_ ⟨running, rfl, rfl⟩ ?_ ?_ ?_ fun _ => .inl ⟨k, rfl⟩
    · exact fun i here other => others i here other rfl rfl rfl
    · exact fun m ticket => .inl (mine ▸ ticket)
    · rw [orderly.served, List.range_succ]
      rfl
    · exact line.congr rfl rfl rfl
  | @refuse n reason =>
    obtain ⟨running, ⟨rfl, _⟩ | ⟨impossible, _⟩⟩ := step_begin step
    · obtain ⟨rfl, line, others⟩ := turned rfl running
      have closed : p.state.saved = none := by
        rw [← Option.not_isSome_iff_eq_none]
        intro open_
        obtain ⟨i, here, m, inside⟩ := orderly.holder open_
        have other : i ≠ tid := by
          rintro rfl
          rw [mine] at inside
          cases inside
        exact (orderly.apart place (by rw [mine]; rfl) running here other m).1 inside
      refine ⟨k + 1, .refuse, ?_⟩
      refine orderly.update found at_ ?_ ⟨running, rfl, closed⟩ ?_ ?_ line ?_
      · exact fun i here other => others i here other rfl rfl rfl
      · exact fun m ticket => .inl (mine ▸ ticket)
      · rw [orderly.served, List.range_succ]
        rfl
      · intro open_
        rw [closed] at open_
        cases open_
    · cases impossible
  | @commit n =>
    obtain ⟨_, _, impossible⟩ | ⟨_, rfl⟩ := step_commit step
    · cases impossible
    exact ⟨k, .commit, ended rfl rfl rfl rfl rfl rfl rfl⟩
  | @rollback n =>
    obtain ⟨_, _, _, impossible⟩ | ⟨tables, _, _, rfl⟩ := step_rollback step
    · cases impossible
    exact ⟨k, .rollback, ended rfl rfl rfl rfl rfl rfl rfl⟩
  | @finish n =>
    refine ⟨k, .finish, ?_⟩
    obtain ⟨running, rfl, closed⟩ := fits
    have ticket : (stages tid).ticket = some n := by rw [mine]; rfl
    obtain ⟨none_, _, _⟩ | ⟨some_, issued, queue, _⟩ := orderly.line
    · exact absurd (none_.symm.trans running) nofun
    cases some_.symm.trans running
    have after : ({ p.state with txRunning := none } : Conn σ) = ⟨p.state.tables, p.state.saved,
        p.state.issued, List.range' (n + 1) (p.state.issued - (n + 1)), none⟩ := by rw [← queue]
    obtain ⟨line, _, saved, kept, turns⟩ := Line.next issued after
    rw [← step_finish step] at line saved kept turns
    refine orderly.update found at_ ?_ (Nat.lt_of_lt_of_le issued kept.ge) ?_ stays line ?_
    · intro i here other
      refine (orderly.fits i here).wait (orderly.apart place ticket running here other) kept.ge ?_
      rintro m waiting (turn | queued)
      · have first := Option.some.inj (turn.1.symm.trans running)
        have second := turn.2
        omega
      · rw [queue, List.mem_range'_1] at queued
        obtain turn | queued := turns m (by omega) (by omega)
        · exact .inl turn
        · exact .inr queued
    · exact fun m ticket => .inl (mine ▸ ticket)
    · intro open_
      rw [saved, closed] at open_
      cases open_

variable {first : σ} {ok : ConnPool A E R σ Answer → ConnAction A E R σ Answer → Prop}

theorem ConnReach.orderly (reach : ConnReach storage faults first ok p) :
    ∃ stages k, Orderly p stages k := by
  induction reach with
  | start s initial =>
    subst initial
    exact ⟨_, _, orderly_opened first⟩
  | spawn job _ _ ih =>
    obtain ⟨stages, k, orderly⟩ := ih
    obtain ⟨stages', spawned⟩ := orderly.spawn job
    exact ⟨stages', k, spawned⟩
  | pass _ passed => exact passed.elim
  | call _ found step _ ih =>
    obtain ⟨stages, k, orderly⟩ := ih
    obtain ⟨stage, k', _, called⟩ := orderly.call found step
    exact ⟨_, k', called⟩

end Queue

/-! ## The tables -/

section Tables

variable {A E R ε σ : Type} {Answer : A → Type} {storage : Storage A Answer ε σ} {faults : Bool}
variable {p : ConnPool A E R σ Answer} {stages : Nat → Stage} {k : Nat}

theorem effect_of_other {call : ConnCall A E Answer} (other : ¬ call.op.IsAccess) (tables : σ) :
    effect storage call tables = tables := by
  obtain ⟨o, answer⟩ := call
  cases o with
  | access a => exact absurd trivial other
  | _ => rfl

theorem replay_filter_other {f : ConnEntry A E R σ Answer → Bool} {e : ConnEntry A E R σ Answer}
    (other : ¬ e.call.op.IsAccess) (history : List (ConnEntry A E R σ Answer)) (tables : σ) :
    replay storage tables ((e :: history).filter f) = replay storage tables (history.filter f) := by
  rw [List.filter_cons]
  split
  · exact effect_of_other other _
  · rfl

/-- Only the accesses of a history matter. -/
theorem replay_congr {f g : ConnEntry A E R σ Answer → Bool} {history : List (ConnEntry A E R σ Answer)}
    (agree : ∀ e ∈ history, e.call.op.IsAccess → f e = g e) (tables : σ) :
    replay storage tables (history.filter f) = replay storage tables (history.filter g) := by
  induction history with
  | nil => rfl
  | cons e history ih =>
    have rest := ih fun x member => agree x (List.mem_cons_of_mem _ member)
    by_cases access : e.call.op.IsAccess
    · rw [List.filter_cons, List.filter_cons, agree e List.mem_cons_self access]
      split
      · exact congrArg (effect storage e.call) rest
      · exact rest
    · rw [replay_filter_other access, replay_filter_other access, rest]

theorem committed_eq (history : List (ConnEntry A E R σ Answer)) (tid : Nat) :
    committed history tid = (Pool.callsOf tid history).any isCommit := by
  rw [committed, Pool.callsOf, List.any_map, List.any_filter]
  rfl

theorem rolledBack_eq (history : List (ConnEntry A E R σ Answer)) (tid : Nat) :
    rolledBack history tid = (Pool.callsOf tid history).any isRollback := by
  rw [rolledBack, Pool.callsOf, List.any_map, List.any_filter]
  rfl

/-- What a thread has ended its transaction with, if it has ended one. -/
structure Ended (stage : Stage) (thread : ConnThread A E R Answer) : Prop where
  plain : thread.job.isPlain = true → stage = .outside
  open_ : (∃ n, stage = .inside n) ∨ stage = .outside →
    thread.seen.any isCommit = false ∧ thread.seen.any isRollback = false
  settled : (∀ n, stage ≠ .inside n) → ∀ call ∈ thread.seen, call.op.IsAccess →
    (!thread.seen.any isRollback) = (thread.job.isPlain || thread.seen.any isCommit)

theorem isRollback_of_isCommit {call : ConnCall A E Answer} (commits : isCommit call = true) :
    isRollback call = false := by
  obtain ⟨o, answer⟩ := call
  cases o with
  | commit => rfl
  | _ => cases commits

theorem isCommit_of_isRollback {call : ConnCall A E Answer} (undoes : isRollback call = true) :
    isCommit call = false := by
  obtain ⟨o, answer⟩ := call
  cases o with
  | rollback => rfl
  | _ => cases undoes

theorem At.ended_of_leaving {thread : ConnThread A E R Answer} {n : Nat}
    (at_ : At (.leaving n) thread) : thread.job.isPlain = false ∧
      ∀ call ∈ thread.seen, call.op.IsAccess →
        (!thread.seen.any isRollback) = thread.seen.any isCommit := by
  cases at_ with
  | refused =>
    refine ⟨rfl, fun call member access => ?_⟩
    simp only [List.mem_cons, List.not_mem_nil, or_false] at member
    obtain rfl | rfl := member
    · exact access.elim
    · exact access.elim
  | @ended body ticket seen result call ends past =>
    refine ⟨rfl, fun _ _ _ => ?_⟩
    have none_ : seen.any isCommit = false ∧ seen.any isRollback = false := by
      simp only [List.any_eq_false]
      exact ⟨fun call member => (past call member).1, fun call member => (past call member).2.1⟩
    have here : ∀ {f : ConnCall A E Answer → Bool}, seen.any f = false →
        f ⟨.begin n, .ok ()⟩ = false → f ⟨.enqueue, n⟩ = false →
        (call :: (seen ++ [⟨.begin n, .ok ()⟩, ⟨.enqueue, n⟩])).any f = f call := by
      intro f earlier second first
      simp [earlier, second, first]
    rw [here none_.1 rfl rfl, here none_.2 rfl rfl]
    obtain commits | undoes := ends
    · rw [commits, isRollback_of_isCommit commits]
      rfl
    · rw [undoes, isCommit_of_isRollback undoes]
      rfl

theorem At.ended_ {stage : Stage} {thread : ConnThread A E R Answer} (at_ : At stage thread) :
    Ended stage thread := by
  -- A plain statement is neither a commit nor a rollback.
  have quiet : ∀ {seen : List (ConnCall A E Answer)}, (∀ call ∈ seen, call.op.IsAccess) →
      seen.any isCommit = false ∧ seen.any isRollback = false := by
    intro seen accesses
    simp only [List.any_eq_false]
    exact ⟨fun call member => (access_past (accesses call member)).1,
      fun call member => (access_past (accesses call member)).2.1⟩
  cases stage with
  | outside =>
    cases at_ with
    | outside only accesses =>
      have none_ := quiet accesses
      refine ⟨fun _ => rfl, fun _ => none_, fun _ _ _ _ => ?_⟩
      rw [none_.2]
      rfl
  | fresh =>
    cases at_
    exact ⟨nofun, fun _ => ⟨rfl, rfl⟩, nofun⟩
  | waiting n =>
    cases at_
    refine ⟨nofun, fun _ => ⟨rfl, rfl⟩, fun _ call member access => ?_⟩
    rw [List.mem_singleton.mp member] at access
    exact access.elim
  | inside n =>
    cases at_ with
    | @inside body _ rest seen only accesses =>
      obtain ⟨uncommitted, kept⟩ := quiet accesses
      refine ⟨nofun, fun _ => ?_, fun apart => absurd rfl (apart n)⟩
      simp [uncommitted, kept, isCommit, isRollback]
    | @undoing body _ seen reason reason' accesses =>
      obtain ⟨uncommitted, kept⟩ := quiet accesses
      refine ⟨nofun, fun _ => ?_, fun apart => absurd rfl (apart n)⟩
      simp [uncommitted, kept, isCommit, isRollback]
  | leaving n =>
    -- The commit or the rollback says how the transaction has ended.
    obtain ⟨inner, settled⟩ := at_.ended_of_leaving
    refine ⟨fun plain => ?_, ?_, fun _ call member access => ?_⟩
    · rw [inner] at plain
      cases plain
    · rintro (⟨_, impossible⟩ | impossible) <;> cases impossible
    · rw [settled call member access, inner]
      rfl
  | done n =>
    cases at_ with
    | done left =>
      obtain ⟨inner, settled⟩ := left.ended_of_leaving
      refine ⟨fun plain => ?_, ?_, fun _ call member access => ?_⟩
      · rw [inner] at plain
        cases plain
      · rintro (⟨_, impossible⟩ | impossible) <;> cases impossible
      · obtain rfl | earlier := List.mem_cons.mp member
        · exact access.elim
        · exact (settled call earlier access).trans (by rw [inner]; rfl)

variable (storage) in
/-- Where no transaction is open, every transaction that has written was committed or rolled
back, and not both. -/
theorem Orderly.settled (orderly : Orderly p stages k) (coherent : p.Coherent)
    (closed : p.state.saved = none) (first : σ) :
    replay storage first (p.history.filter fun e => !rolledBack p.history e.tid) =
      replay storage first
        (p.history.filter fun e => e.job.isPlain || committed p.history e.tid) := by
  refine replay_congr (fun e member access => ?_) first
  obtain ⟨thread, found, job⟩ := coherent.job e member
  have place : e.tid < p.threads.length := (List.getElem?_eq_some_iff.mp found).1
  have apart : ∀ n, stages e.tid ≠ .inside n := by
    intro n inside
    have fits := orderly.fits e.tid place
    rw [inside] at fits
    have open_ := fits.2.2
    rw [closed] at open_
    cases open_
  have seen : e.call ∈ thread.seen := by
    rw [coherent.seen e.tid thread found]
    exact Pool.mem_callsOf.mpr ⟨e, member, rfl, rfl⟩
  have settled := (orderly.place e.tid thread found).ended_.settled apart e.call seen access
  rwa [rolledBack_eq, committed_eq, ← coherent.seen e.tid thread found, ← job]

variable {s s' : Conn σ} {o : Op A} {answer : Ans E Answer o}

/-- Every call but a `ROLLBACK` does its own effect to the tables. -/
theorem tables_of_step (step : (world E storage faults).step o s answer s')
    (kept : isRollback (⟨o, answer⟩ : ConnCall A E Answer) = false) :
    s'.tables = effect storage ⟨o, answer⟩ s.tables := by
  have process : ∀ s : Conn σ, s.processTxQueue.tables = s.tables := by
    intro s
    unfold Conn.processTxQueue
    split <;> rfl
  cases o with
  | access a =>
    obtain ⟨rfl, reason, rfl⟩ | ⟨⟨value, rfl⟩, rfl⟩ := step_access step
    · rfl
    · rfl
  | enqueue =>
    rw [(step_enqueue step).2]
    exact process _
  | begin ticket =>
    obtain ⟨_, ⟨rfl, _⟩ | ⟨_, _, rfl⟩⟩ := step_begin step
    · rfl
    · rfl
  | commit =>
    obtain ⟨rfl, _⟩ | ⟨_, rfl⟩ := step_commit step
    · rfl
    · rfl
  | rollback =>
    obtain ⟨_, rfl, reason, rfl⟩ | ⟨_, _, rfl, _⟩ := step_rollback step
    · rfl
    · cases kept
  | finish =>
    rw [step_finish step]
    exact process _

/-- A transaction is opened with the tables as they are, or none is opened. -/
theorem saved_of_step (step : (world E storage faults).step o s answer s') :
    s'.saved = s.saved ∨ s'.saved = none ∨ s.saved = none ∧ s'.saved = some s.tables := by
  have process : ∀ s : Conn σ, s.processTxQueue.saved = s.saved := by
    intro s
    unfold Conn.processTxQueue
    split <;> rfl
  cases o with
  | access a =>
    obtain ⟨rfl, _⟩ | ⟨_, rfl⟩ := step_access step
    · exact .inl rfl
    · exact .inl rfl
  | enqueue =>
    rw [(step_enqueue step).2]
    exact .inl (process _)
  | begin ticket =>
    obtain ⟨_, ⟨rfl, _⟩ | ⟨_, closed, rfl⟩⟩ := step_begin step
    · exact .inl rfl
    · exact .inr (.inr ⟨closed, rfl⟩)
  | commit =>
    obtain ⟨rfl, _⟩ | ⟨_, rfl⟩ := step_commit step
    · exact .inl rfl
    · exact .inr (.inl rfl)
  | rollback =>
    obtain ⟨_, rfl, _⟩ | ⟨_, _, _, rfl⟩ := step_rollback step
    · exact .inl rfl
    · exact .inr (.inl rfl)
  | finish =>
    rw [step_finish step]
    exact .inl (process _)

theorem committed_cons (e : ConnEntry A E R σ Answer) (history : List (ConnEntry A E R σ Answer))
    (tid : Nat) : committed (e :: history) tid =
      (e.tid == tid && isCommit e.call || committed history tid) := rfl

theorem rolledBack_cons (e : ConnEntry A E R σ Answer) (history : List (ConnEntry A E R σ Answer))
    (tid : Nat) :
    rolledBack (e :: history) tid = (e.tid == tid && isRollback e.call || rolledBack history tid) := rfl

/-- The tables are those that the writes of a history leave, without what was rolled back; and
what is durable is what was written outside or committed. -/
def Accounted (storage : Storage A Answer ε σ) (first : σ) (p : ConnPool A E R σ Answer) : Prop :=
  p.state.tables = replay storage first (p.history.filter fun e => !rolledBack p.history e.tid) ∧
    p.state.durable = replay storage first
      (p.history.filter fun e => e.job.isPlain || committed p.history e.tid)

theorem Accounted.call {first : σ} {tid : Nat} {job : Handler A E R Answer}
    {seen : List (ConnCall A E Answer)} {next : Ans E Answer o → ConnProg A E Answer (Except E R)}
    (accounted : Accounted storage first p) (orderly : Orderly p stages k) (coherent : p.Coherent)
    (after : (p.called tid job seen ⟨o, answer⟩ (next answer) s').Coherent)
    (found : p.threads[tid]? = some ⟨job, seen, .call o next⟩)
    (step : (world E storage faults).step o p.state answer s')
    (apart : Apart storage p (.call tid job ⟨o, answer⟩)) :
    Accounted storage first (p.called tid job seen ⟨o, answer⟩ (next answer) s') := by
  have place : tid < p.threads.length := (List.getElem?_eq_some_iff.mp found).1
  obtain ⟨stage, k', moves, orderly'⟩ := orderly.call found step
  have flags := (orderly.place tid _ found).ended_
  have seen_eq : seen = Pool.callsOf tid p.history := coherent.seen tid _ found
  -- A thread that makes an access has ended nothing.
  have going : o.IsAccess → (∃ n, stages tid = .inside n) ∨ stages tid = .outside := by
    generalize stages tid = before at moves
    intro access
    cases moves with
    | outside => exact .inr rfl
    | access => exact .inl ⟨_, rfl⟩
    | _ => exact access.elim
  let e : ConnEntry A E R σ Answer := ⟨tid, job, ⟨o, answer⟩, p.state⟩
  -- Unless the call is a `COMMIT`, what was settled before is settled, and nothing else.
  have settles : isCommit (⟨o, answer⟩ : ConnCall A E Answer) = false →
      (job.isPlain = true → ∀ tables, effect storage (⟨o, answer⟩ : ConnCall A E Answer) tables = tables) →
      replay storage first ((e :: p.history).filter fun x =>
        x.job.isPlain || committed (e :: p.history) x.tid) = p.state.durable := by
    intro uncommitted silent
    have same : ∀ i, committed (e :: p.history) i = committed p.history i := by
      intro i
      rw [committed_cons, uncommitted, Bool.and_false, Bool.false_or]
    simp only [same]
    rw [accounted.2]
    by_cases access : o.IsAccess
    · have unsettled : committed p.history tid = false := by
        rw [committed_eq, ← seen_eq]
        exact (flags.open_ (going access)).1
      rw [List.filter_cons]
      cases plain : job.isPlain with
      | true =>
        rw [if_pos (by simp [e])]
        exact silent plain _
      | false => rw [if_neg (by simp [e, unsettled])]
    · exact replay_filter_other access _ first
  have written : s'.tables = replay storage first ((e :: p.history).filter fun x =>
      !rolledBack (e :: p.history) x.tid) := by
    cases undoes : isRollback (⟨o, answer⟩ : ConnCall A E Answer) with
    | true =>
      cases o with
      | rollback =>
        obtain ⟨_, _, _, rfl⟩ | ⟨tables, saved, rfl, rfl⟩ := step_rollback step
        · cases undoes
        · have closed := orderly'.settled storage after rfl first
          refine Eq.trans ?_ (closed.trans rfl).symm
          refine Eq.trans ?_ (settles rfl fun _ _ => rfl).symm
          rw [Conn.durable, saved]
          rfl
      | _ => cases undoes
    | false =>
      have same : ∀ i, rolledBack (e :: p.history) i = rolledBack p.history i := by
        intro i
        rw [rolledBack_cons, undoes, Bool.and_false, Bool.false_or]
      simp only [same]
      rw [tables_of_step step undoes, accounted.1]
      by_cases access : o.IsAccess
      · have kept : rolledBack p.history tid = false := by
          rw [rolledBack_eq, ← seen_eq]
          exact (flags.open_ (going access)).2
        rw [List.filter_cons, if_pos (by simp [e, kept])]
        rfl
      · rw [replay_filter_other access]
        exact effect_of_other access _
  refine ⟨written, ?_⟩
  cases saved' : s'.saved with
  | none =>
    have closed := orderly'.settled storage after saved' first
    show s'.durable = _
    rw [Conn.durable, saved']
    exact written.trans closed
  | some tables =>
    have uncommitted : isCommit (⟨o, answer⟩ : ConnCall A E Answer) = false := by
      cases o with
      | commit =>
        obtain ⟨_, reason, rfl⟩ | ⟨_, rfl⟩ := step_commit step
        · rfl
        · cases saved'
      | _ => rfl
    refine Eq.trans ?_ (settles uncommitted fun plain tables => ?_).symm
    · show s'.durable = _
      rw [Conn.durable, Conn.durable, saved']
      obtain kept | closed | ⟨closed, opened⟩ := saved_of_step step
      · rw [← kept, saved']
        rfl
      · rw [closed] at saved'
        cases saved'
      · rw [opened] at saved'
        cases saved'
        rw [closed]
        rfl
    · by_cases access : o.IsAccess
      · refine apart plain ?_ tables
        cases o with
        | access a =>
          obtain ⟨rfl, _⟩ | ⟨_, rfl⟩ := step_access step
          · rw [saved']
            rfl
          · exact Option.isSome_iff_exists.mpr ⟨_, saved'⟩
        | _ => exact access.elim
      · exact effect_of_other access _

theorem At.inTurn {stage : Stage} {thread : ConnThread A E R Answer} (at_ : At stage thread)
    (turn : InTurn thread.seen) : ∃ n, stage = .inside n ∨ stage = .leaving n := by
  obtain ⟨⟨ticket, result, begun⟩, unfinished⟩ := turn
  cases at_ with
  | outside only accesses => exact (accesses _ begun).elim
  | fresh => cases begun
  | waiting => cases List.mem_singleton.mp begun
  | inside only accesses => exact ⟨_, .inl rfl⟩
  | undoing accesses => exact ⟨_, .inl rfl⟩
  | refused => exact ⟨_, .inr rfl⟩
  | ended ends past => exact ⟨_, .inr rfl⟩
  | done left => exact absurd List.mem_cons_self unfinished

end Tables

/-! ## Isolation -/

section Isolation

variable {A E R ε σ : Type} {Answer : A → Type} {storage : Storage A Answer ε σ} {faults : Bool}
variable {p : ConnPool A E R σ Answer} {first : σ}

theorem ConnReach.accounted (reach : ConnReach storage faults first (Apart storage) p) :
    Accounted storage first p := by
  induction reach with
  | start s initial =>
    subst initial
    exact ⟨rfl, rfl⟩
  | spawn job earlier _ ih => exact ih
  | pass _ passed => exact passed.elim
  | call earlier found step apart ih =>
    obtain ⟨stages, k, orderly⟩ := ConnReach.orderly earlier
    have after := (Pool.Reach.call earlier found step apart).coherent
    exact ih.call orderly earlier.coherent after found step apart

/-- If the handlers outside `tx` write only while no transaction is open, then in every run the
functions are called one at a time and in order, and every transaction commits or undoes its own
writes and no others. -/
theorem transactions_isolated (reach : ConnReach storage faults first (Apart storage) p) :
    Isolated storage first p := by
  obtain ⟨stages, k, orderly⟩ := ConnReach.orderly reach
  obtain ⟨written, durable⟩ := ConnReach.accounted reach
  refine ⟨⟨k, orderly.line.bound, orderly.served⟩, ?_, written, durable⟩
  intro i j thread thread' found found' turn turn'
  obtain ⟨n, mine⟩ := (orderly.place i thread found).inTurn turn
  obtain ⟨m, theirs⟩ := (orderly.place j thread' found').inTurn turn'
  exact orderly.alone (List.getElem?_eq_some_iff.mp found).1 (List.getElem?_eq_some_iff.mp found').1
    mine theirs

end Isolation

/-! ## A handler that runs while a transaction is open -/

namespace Sample

/-- A secret key of zeros is refused with an error. -/
@[reducible] def packages : Packages where
  getPow _ := 0
  between bounds n := bounds.1 ≤ n && n ≤ bounds.2
  uniq := List.dedup
  append x xs := xs ++ [x]
  remove x xs := xs.filter (· ≠ x)
  isGroupMember _ share := if share.seckey.all (· = '0') then .error .group else .ok true
  origin url := .ok url
  argonImpl value _ _ := value
  argonOptions := { t := 3, m := 64 * 1024, p := 2 }

attribute [local instance] packages

def options : SignerOptions where
  url := "https://signer.example".toList
  registerPow := 0

def event (pubkey : Str) : SignedEvent := { id := [], pubkey }

def group : GroupPackage where
  commits := [{ idx := 1, pubkey := [], hiddenPn := [], binderPn := [] }]
  groupPk := "02aa".toList
  threshold := 1

def session (client : Str) (emailHash : Option Str) : SignerSession where
  client := client
  share := { idx := 1, seckey := ['1'] }
  group := group
  recovery := true
  createdAt := 0
  deactivatedAt := none
  lastActivity := 0
  email := emailHash
  emailHash := emailHash
  passwordHash := none

def oldClient : Str := "old".toList

def newClient : Str := "new".toList

/-- The client `old` has a session and `new` may copy it. -/
def tables : Tables
  | .logins => (∅ : Table SignerLogin).set newClient { createdAt := 0, clients := [oldClient] }
  | .sessions => (∅ : Table SignerSession).set oldClient (session oldClient none)
  | .recoveries => (∅ : Table SignerRecovery)
  | .sessionsByEmailHash => (∅ : Table SignerSessionIndex)

def failing : Handler Access Fault Response Answer :=
  Request.handler options (event "other".toList)
    (.register { share := { idx := 1, seckey := ['0'] }, group, recovery := true })

def select : Handler Access Fault Response Answer :=
  Request.handler options (event newClient) (.loginSelect { client := oldClient })

/-- A statement that does not fail. -/
def smooth : Env Fault Nat := { fails := false, reason := .storage, outer := 0 }

abbrev Pick : Type := Pool.Choice (Handler Access Fault Response Answer) Empty (Env Fault Nat)

def steps (tid n : Nat) : List Pick := List.replicate n (.step tid smooth)

def play (choices : List Pick) : ConnPool Access Fault Response Tables Answer :=
  Pool.play (exec collections) Handler.program (fun t : Empty => t.elim) choices
    ⟨Conn.opened tables, [], []⟩

theorem reach_play {ok : ConnPool Access Fault Response Tables Answer →
      ConnAction Access Fault Response Tables Answer → Prop} (choices : List Pick)
    (plays : Pool.Plays (exec collections) (permit false) Handler.program (fun _ _ => True)
      (fun t : Empty => t.elim) ok choices ⟨Conn.opened tables, [], []⟩) :
    ConnReach collections false tables ok (play choices) := by
  have start : Pool.Reach (world Fault collections false) Handler.program
      (Pool.Elapses (fun _ _ => True) fun t : Empty => t.elim) (fun s => s = Conn.opened tables) ok
      ⟨Conn.opened tables, [], []⟩ := .start _ rfl
  refine (Pool.Reach.play choices start plays).passing ?_
  rintro s s' ⟨t, _⟩
  exact t.elim

/-- The registration has begun when the login runs, and fails when it has ended. -/
def undone : List Pick :=
  .spawn failing :: .spawn select :: (steps 0 5 ++ steps 1 6 ++ steps 0 2)

/-- A failing registration undoes a login that has been answered with ok. -/
theorem rollback_undoes_login :
    ∃ p, ConnReach collections false tables (fun _ _ => True) p ∧ ¬ Isolated collections tables p ∧
      (∃ (thread : ConnThread Access Fault Response Answer) (response : Response),
        p.threads[1]? = some thread ∧ thread.rest = .pure (.ok response) ∧ response.ok = true) ∧
      (p.state.tables .sessions).get newClient = none := by
  refine ⟨play undone, reach_play undone (by decide +kernel), ?_, ?_, by decide +kernel⟩
  · intro isolated
    have written := congrArg (fun t : Tables => ((t .sessions).get newClient).isSome) isolated.written
    revert written
    decide +kernel
  · exact ⟨_, _, rfl, rfl, rfl⟩

/-- The login runs first. -/
def apart : List Pick :=
  .spawn failing :: .spawn select :: (steps 1 6 ++ steps 0 7)

/-- Nothing is called outside `tx` while a transaction is open. -/
def shut (p : ConnPool Access Fault Response Tables Answer) :
    ConnAction Access Fault Response Tables Answer → Bool
  | .call _ job _ => !job.isPlain || !p.state.saved.isSome
  | _ => true

theorem apart_of_shut (p : ConnPool Access Fault Response Tables Answer)
    (action : ConnAction Access Fault Response Tables Answer) (meets : shut p action = true) :
    Apart collections p action := by
  cases action with
  | call tid job call =>
    intro plain open_
    simp [shut, plain, open_] at meets
  | _ => trivial

theorem reach_shut (choices : List Pick)
    (plays : Pool.Plays (exec collections) (permit false) Handler.program (fun _ _ => True)
      (fun t : Empty => t.elim) (fun p action => shut p action = true) choices
      ⟨Conn.opened tables, [], []⟩) :
    ConnReach collections false tables (Apart collections) (play choices) :=
  (reach_play choices plays).weaken apart_of_shut

theorem login_before_rollback : Isolated collections tables (play apart) :=
  transactions_isolated (reach_shut apart (by decide +kernel))

end Sample

end Pomade.Core.Sqlite
