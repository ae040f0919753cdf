import Pomade.Lib.Prog
import Pomade.Lib.Table
import Pomade.Frost.Signing
import Pomade.Signer.Schema

/-! # The signer's store

The collections of `storage.rs` that the signer opens, the in-memory commitments,
and the clock.  A handler reaches them only through the calls `Op`; `exec` says
what a call does.  The Rust and the Go signer share the store and differ in the
programs that use it.
-/

namespace Pomade.Signer

open Pomade.Lib Pomade.Frost

structure RateLimitBucket where
  attempts : UInt32
  firstAttempt : Nat
  lastAttempt : Nat
deriving DecidableEq

/-- A pending round-1 commitment. -/
structure CommitEntry where
  commitId : Str
  members : List UInt32
  secret : SecretNonce
  createdAt : Nat
deriving DecidableEq

/-! ## Collections -/

inductive Coll where
  | logins
  | sessions
  | recoveries
  | challenges
  | sessionsByEmailHash
  | rateLimitByEmailHash
  | rateLimitByClient
deriving DecidableEq

abbrev Coll.Val : Coll → Type
  | .logins => SignerLogin
  | .sessions => SignerSession
  | .recoveries => SignerRecovery
  | .challenges => SignerChallenge
  | .sessionsByEmailHash => SessionIndex
  | .rateLimitByEmailHash => RateLimitBucket
  | .rateLimitByClient => RateLimitBucket

/-- Everything a handler can observe.  `clock` is the last time that was read. -/
structure State where
  logins : Table SignerLogin
  sessions : Table SignerSession
  recoveries : Table SignerRecovery
  challenges : Table SignerChallenge
  sessionsByEmailHash : Table SessionIndex
  rateLimitByEmailHash : Table RateLimitBucket
  rateLimitByClient : Table RateLimitBucket
  commitsByClient : Table (List CommitEntry)
  clock : Nat

/-- An empty store at a given time. -/
def State.opened (clock : Nat) : State where
  logins := ∅
  sessions := ∅
  recoveries := ∅
  challenges := ∅
  sessionsByEmailHash := ∅
  rateLimitByEmailHash := ∅
  rateLimitByClient := ∅
  commitsByClient := ∅
  clock := clock

@[simp] def State.table (s : State) : (c : Coll) → Table c.Val
  | .logins => s.logins
  | .sessions => s.sessions
  | .recoveries => s.recoveries
  | .challenges => s.challenges
  | .sessionsByEmailHash => s.sessionsByEmailHash
  | .rateLimitByEmailHash => s.rateLimitByEmailHash
  | .rateLimitByClient => s.rateLimitByClient

@[simp] def State.setTable (s : State) : (c : Coll) → Table c.Val → State
  | .logins, t => { s with logins := t }
  | .sessions, t => { s with sessions := t }
  | .recoveries, t => { s with recoveries := t }
  | .challenges, t => { s with challenges := t }
  | .sessionsByEmailHash, t => { s with sessionsByEmailHash := t }
  | .rateLimitByEmailHash, t => { s with rateLimitByEmailHash := t }
  | .rateLimitByClient, t => { s with rateLimitByClient := t }

/-! ## Pending commitments -/

/-- `Vec::swap_remove`: the last element takes the place of the removed one. -/
def swapRemove {α : Type} (items : List α) (pos : Nat) : List α :=
  match items.getLast? with
  | some last => (items.set pos last).dropLast
  | none => []

/-- A client without pending commitments has no entry. -/
def putPending (commits : Table (List CommitEntry)) (client : Str) (pending : List CommitEntry) :
    Table (List CommitEntry) :=
  if pending.isEmpty then commits.delete client else commits.set client pending

def State.pending (s : State) (client : Str) : List CommitEntry :=
  (s.commitsByClient.get client).getD []

/-- The entry named `commitId` among a client's pending ones, taken out with `remove`. -/
def State.takeCommit (s : State) (remove : List CommitEntry → Nat → List CommitEntry)
    (client commitId : Str) : Option CommitEntry × State :=
  let pending := s.pending client
  match pending.find? fun e => e.commitId == commitId with
  | none => (none, s)
  | some entry =>
    let pos := pending.findIdx fun e => e.commitId == commitId
    (some entry, { s with commitsByClient := putPending s.commitsByClient client (remove pending pos) })

/-- Taking a commitment changes the pending commitments only. -/
theorem takeCommit_state (s : State) (remove : List CommitEntry → Nat → List CommitEntry)
    (client commitId : Str) :
    ∃ commits, (s.takeCommit remove client commitId).2 = { s with commitsByClient := commits } := by
  unfold State.takeCommit
  dsimp only
  split
  · exact ⟨s.commitsByClient, rfl⟩
  · exact ⟨_, rfl⟩

/-- Keep the entries created at `cutoff` or later. -/
def State.reapCommits (s : State) (cutoff : Nat) : State :=
  { s with
    commitsByClient :=
      (s.commitsByClient.keys).foldl
        (fun commits client =>
          putPending commits client
            ((s.pending client).filter fun e => decide (cutoff ≤ e.createdAt)))
        s.commitsByClient }

/-! ## Calls -/

/-- What a partial signature is computed from. -/
structure SigningInput where
  group : Group
  request : SignCompleteRequestInner
  share : Share
  secret : SecretNonce
  pnonces : List PublicNonceItem
deriving DecidableEq

inductive Op where
  | get (c : Coll) (key : Str)
  | set (c : Coll) (key : Str) (value : c.Val)
  | delete (c : Coll) (key : Str)
  | entries (c : Coll)
  | mapEntries (c : Coll)
  | now
  | randomBytes32
  | randomU32
  | pushCommit (client : Str) (entry : CommitEntry)
  | takeCommit (client commitId : Str)
  | takeCommitInOrder (client commitId : Str)
  | reapCommits (cutoff : Nat)
  | sendMail (recipient otp : Str)
  | sign (input : SigningInput)

abbrev Ans : Op → Type
  | .get c _ => Option c.Val
  | .set _ _ _ => Unit
  | .delete _ _ => Bool
  | .entries c => List (Str × c.Val)
  | .mapEntries c => List (Str × c.Val)
  | .now => Nat
  | .randomBytes32 => Bytes 32
  | .randomU32 => UInt32
  | .pushCommit _ _ => Unit
  | .takeCommit _ _ => Option CommitEntry
  | .takeCommitInOrder _ _ => Option CommitEntry
  | .reapCommits _ => Unit
  | .sendMail _ _ => Unit
  | .sign _ => Result SignCompleteResult

/-- What a call takes from outside: the time, randomness, and the order in which a
Go map is walked. -/
structure Env where
  now : Nat
  bytes : Bytes 32
  word : UInt32
  rank : Str → Nat

instance : Inhabited Env := ⟨⟨0, Bytes.ofNat 32 0, 0, fun _ => 0⟩⟩

/-- Byte order of the keys, the order of a sled tree. -/
def keyBefore (a b : Str) : Bool := !List.lex b a fun x y => Nat.blt x.toNat y.toNat

abbrev SigningFn : Type := SigningInput → Result SignCompleteResult

/-- One call.  `signing` computes partial signatures and is the only thing the two
signers do differently here. -/
def exec (signing : SigningFn) : (o : Op) → Env → State → Ans o × State
  | .get c key, _, s => ((s.table c).get key, s)
  | .set c key value, _, s => ((), s.setTable c ((s.table c).set key value))
  | .delete c key, _, s =>
    (((s.table c).get key).isSome, s.setTable c ((s.table c).delete key))
  | .entries c, _, s => ((s.table c).entries keyBefore, s)
  | .mapEntries c, e, s => ((s.table c).entries fun a b => decide (e.rank a ≤ e.rank b), s)
  | .now, e, s => (e.now, { s with clock := e.now })
  | .randomBytes32, e, s => (e.bytes, s)
  | .randomU32, e, s => (e.word, s)
  | .pushCommit client entry, _, s =>
    ((), { s with commitsByClient := s.commitsByClient.set client (s.pending client ++ [entry]) })
  | .takeCommit client commitId, _, s => s.takeCommit swapRemove client commitId
  | .takeCommitInOrder client commitId, _, s => s.takeCommit List.eraseIdx client commitId
  | .reapCommits cutoff, _, s => ((), s.reapCommits cutoff)
  | .sendMail _ _, _, s => ((), s)
  | .sign input, _, s => (signing input, s)

abbrev SignerProg : Type → Type := Prog Op Ans

abbrev SignerCall : Type := Call Op Ans

abbrev Coll.get (c : Coll) (key : Str) : SignerProg (Option c.Val) := Prog.op (Op.get c key)

abbrev Coll.set (c : Coll) (key : Str) (value : c.Val) : SignerProg Unit :=
  Prog.op (Op.set c key value)

abbrev Coll.delete (c : Coll) (key : Str) : SignerProg Bool := Prog.op (Op.delete c key)

abbrev Coll.entries (c : Coll) : SignerProg (List (Str × c.Val)) := Prog.op (Op.entries c)

abbrev Coll.mapEntries (c : Coll) : SignerProg (List (Str × c.Val)) := Prog.op (Op.mapEntries c)

abbrev now : SignerProg Nat := Prog.op Op.now

abbrev randomBytes32 : SignerProg (Bytes 32) := Prog.op Op.randomBytes32

abbrev randomU32 : SignerProg UInt32 := Prog.op Op.randomU32

abbrev pushCommit (client : Str) (entry : CommitEntry) : SignerProg Unit :=
  Prog.op (Op.pushCommit client entry)

abbrev takePending (client commitId : Str) : SignerProg (Option CommitEntry) :=
  Prog.op (Op.takeCommit client commitId)

abbrev takePendingInOrder (client commitId : Str) : SignerProg (Option CommitEntry) :=
  Prog.op (Op.takeCommitInOrder client commitId)

abbrev reapCommits (cutoff : Nat) : SignerProg Unit := Prog.op (Op.reapCommits cutoff)

abbrev sendMail (recipient otp : Str) : SignerProg Unit := Prog.op (Op.sendMail recipient otp)

abbrev sign (input : SigningInput) : SignerProg (Result SignCompleteResult) :=
  Prog.op (Op.sign input)

/-- A value computed with `Result`: an error is passed on, a panic stops the request. -/
def ofResult {α : Type} : Result α → SignerProg (Except Error α)
  | .ok value => pure (.ok value)
  | .error (.err e) => pure (.error e)
  | .error (.panic _) => .abort

/-! ## The world of a request

`R` relates two successive readings of the clock.  With `R` the order on numbers
the clock never goes back; with `R` always true it may do anything.
-/

/-- Only a clock reading is restricted. -/
def permit (R : Nat → Nat → Prop) : Op → Env → State → Prop
  | .now, e, s => R s.clock e.now
  | _, _, _ => True

instance (R : Nat → Nat → Prop) [DecidableRel R] :
    (o : Op) → (e : Env) → (s : State) → Decidable (permit R o e s)
  | .now, e, s => inferInstanceAs (Decidable (R s.clock e.now))
  | .get _ _, _, _ | .set _ _ _, _, _ | .delete _ _, _, _ | .entries _, _, _
  | .mapEntries _, _, _ | .randomBytes32, _, _ | .randomU32, _, _ | .pushCommit _ _, _, _
  | .takeCommit _ _, _, _ | .takeCommitInOrder _ _, _, _ | .reapCommits _, _, _
  | .sendMail _ _, _, _ | .sign _, _, _ => .isTrue trivial

def world (signing : SigningFn) (R : Nat → Nat → Prop) : World Op Ans State :=
  World.ofExec (exec signing) (permit R)

section Steps

variable {signing : SigningFn} {R : Nat → Nat → Prop} {s s' : State}

@[simp] theorem allowed_world (o : Op) : (world signing R).allowed o s := trivial

/-- A call whose outcome does not depend on the environment. -/
theorem step_of_exec {o : Op} {answer expected : Ans o} {after : State}
    (admitted : ∀ e, permit R o e s) (outcome : ∀ e, exec signing o e s = (expected, after)) :
    (world signing R).step o s answer s' ↔ answer = expected ∧ s' = after := by
  constructor
  · rintro ⟨e, _, same⟩
    rw [outcome e] at same
    cases same
    exact ⟨rfl, rfl⟩
  · rintro ⟨rfl, rfl⟩
    exact ⟨default, admitted default, outcome default⟩

theorem step_get {c : Coll} {key : Str} {answer : Option c.Val} :
    (world signing R).step (.get c key) s answer s' ↔
      answer = (s.table c).get key ∧ s' = s :=
  step_of_exec (fun _ => trivial) fun _ => rfl

theorem step_set {c : Coll} {key : Str} {value : c.Val} {answer : Unit} :
    (world signing R).step (.set c key value) s answer s' ↔
      answer = () ∧ s' = s.setTable c ((s.table c).set key value) :=
  step_of_exec (fun _ => trivial) fun _ => rfl

theorem step_delete {c : Coll} {key : Str} {answer : Bool} :
    (world signing R).step (.delete c key) s answer s' ↔
      answer = ((s.table c).get key).isSome ∧ s' = s.setTable c ((s.table c).delete key) :=
  step_of_exec (fun _ => trivial) fun _ => rfl

theorem step_entries {c : Coll} {answer : List (Str × c.Val)} :
    (world signing R).step (.entries c) s answer s' ↔
      answer = (s.table c).entries keyBefore ∧ s' = s :=
  step_of_exec (fun _ => trivial) fun _ => rfl

theorem step_mapEntries {c : Coll} {answer : List (Str × c.Val)} :
    (world signing R).step (.mapEntries c) s answer s' ↔
      (∃ rank : Str → Nat,
        answer = (s.table c).entries fun a b => decide (rank a ≤ rank b)) ∧ s' = s := by
  constructor
  · rintro ⟨e, _, same⟩
    cases same
    exact ⟨⟨e.rank, rfl⟩, rfl⟩
  · rintro ⟨⟨rank, rfl⟩, rfl⟩
    exact ⟨{ (default : Env) with rank }, trivial, rfl⟩

theorem step_now {answer : Nat} :
    (world signing R).step .now s answer s' ↔
      R s.clock answer ∧ s' = { s with clock := answer } := by
  constructor
  · rintro ⟨e, related, same⟩
    cases same
    exact ⟨related, rfl⟩
  · rintro ⟨related, rfl⟩
    exact ⟨{ (default : Env) with now := answer }, related, rfl⟩

theorem step_randomBytes32 {answer : Bytes 32} :
    (world signing R).step .randomBytes32 s answer s' ↔ s' = s := by
  constructor
  · rintro ⟨_, _, same⟩
    cases same
    rfl
  · rintro rfl
    exact ⟨{ (default : Env) with bytes := answer }, trivial, rfl⟩

theorem step_randomU32 {answer : UInt32} :
    (world signing R).step .randomU32 s answer s' ↔ s' = s := by
  constructor
  · rintro ⟨_, _, same⟩
    cases same
    rfl
  · rintro rfl
    exact ⟨{ (default : Env) with word := answer }, trivial, rfl⟩

theorem step_pushCommit {client : Str} {entry : CommitEntry} {answer : Unit} :
    (world signing R).step (.pushCommit client entry) s answer s' ↔
      answer = () ∧ s' = { s with
        commitsByClient := s.commitsByClient.set client (s.pending client ++ [entry]) } :=
  step_of_exec (fun _ => trivial) fun _ => rfl

theorem step_takeCommit {client commitId : Str} {answer : Option CommitEntry} :
    (world signing R).step (.takeCommit client commitId) s answer s' ↔
      answer = (s.takeCommit swapRemove client commitId).1 ∧
        s' = (s.takeCommit swapRemove client commitId).2 :=
  step_of_exec (fun _ => trivial) fun _ => rfl

theorem step_takeCommitInOrder {client commitId : Str} {answer : Option CommitEntry} :
    (world signing R).step (.takeCommitInOrder client commitId) s answer s' ↔
      answer = (s.takeCommit List.eraseIdx client commitId).1 ∧
        s' = (s.takeCommit List.eraseIdx client commitId).2 :=
  step_of_exec (fun _ => trivial) fun _ => rfl

theorem step_reapCommits {cutoff : Nat} {answer : Unit} :
    (world signing R).step (.reapCommits cutoff) s answer s' ↔
      answer = () ∧ s' = s.reapCommits cutoff :=
  step_of_exec (fun _ => trivial) fun _ => rfl

theorem step_sendMail {recipient otp : Str} {answer : Unit} :
    (world signing R).step (.sendMail recipient otp) s answer s' ↔ answer = () ∧ s' = s :=
  step_of_exec (fun _ => trivial) fun _ => rfl

theorem step_sign {input : SigningInput} {answer : Result SignCompleteResult} :
    (world signing R).step (.sign input) s answer s' ↔ answer = signing input ∧ s' = s :=
  step_of_exec (fun _ => trivial) fun _ => rfl

end Steps

/-! ## Symbolic execution

A goal about a program that starts with a call turns into the goal about the rest.
The calls made so far are carried along, newest first.
-/

/-- The world that also collects the calls. -/
abbrev traced (signing : SigningFn) (R : Nat → Nat → Prop) :
    World Op Ans (State × List SignerCall) := (world signing R).traced

section Execution

variable {signing : SigningFn} {R : Nat → Nat → Prop} {s : State} {calls : List SignerCall}
variable {α : Type} {Q : Option α → State × List SignerCall → Prop}

/-- Symbolic execution of a call with one possible outcome. -/
theorem wp_of_step {o : Op} {expected : Ans o} {after : State}
    (outcome : ∀ answer s',
      (world signing R).step o s answer s' ↔ answer = expected ∧ s' = after)
    (f : Ans o → SignerProg α) :
    Prog.wp (traced signing R) (Prog.op o >>= f) Q (s, calls) ↔
      Prog.wp (traced signing R) (f expected) Q (after, ⟨o, expected⟩ :: calls) := by
  rw [Prog.wp_traced]
  simp only [allowed_world, true_and, outcome, and_imp]
  exact ⟨fun holds => holds _ _ rfl rfl, by rintro holds _ _ rfl rfl; exact holds⟩

@[simp] theorem wp_get {c : Coll} {key : Str} {f : Option c.Val → SignerProg α} :
    Prog.wp (traced signing R) (c.get key >>= f) Q (s, calls) ↔
      Prog.wp (traced signing R) (f ((s.table c).get key)) Q
        (s, ⟨.get c key, (s.table c).get key⟩ :: calls) :=
  wp_of_step (fun _ _ => step_get) f

@[simp] theorem wp_set {c : Coll} {key : Str} {value : c.Val} {f : Unit → SignerProg α} :
    Prog.wp (traced signing R) (c.set key value >>= f) Q (s, calls) ↔
      Prog.wp (traced signing R) (f ()) Q
        (s.setTable c ((s.table c).set key value), ⟨.set c key value, ()⟩ :: calls) :=
  wp_of_step (fun _ _ => step_set) f

@[simp] theorem wp_delete {c : Coll} {key : Str} {f : Bool → SignerProg α} :
    Prog.wp (traced signing R) (c.delete key >>= f) Q (s, calls) ↔
      Prog.wp (traced signing R) (f ((s.table c).get key).isSome) Q
        (s.setTable c ((s.table c).delete key),
          ⟨.delete c key, ((s.table c).get key).isSome⟩ :: calls) :=
  wp_of_step (fun _ _ => step_delete) f

@[simp] theorem wp_entries {c : Coll} {f : List (Str × c.Val) → SignerProg α} :
    Prog.wp (traced signing R) (c.entries >>= f) Q (s, calls) ↔
      Prog.wp (traced signing R) (f ((s.table c).entries keyBefore)) Q
        (s, ⟨.entries c, (s.table c).entries keyBefore⟩ :: calls) :=
  wp_of_step (fun _ _ => step_entries) f

@[simp] theorem wp_now {f : Nat → SignerProg α} :
    Prog.wp (traced signing R) (now >>= f) Q (s, calls) ↔
      ∀ time, R s.clock time →
        Prog.wp (traced signing R) (f time) Q ({ s with clock := time }, ⟨.now, time⟩ :: calls) := by
  rw [Prog.wp_traced]
  simp only [allowed_world, true_and, step_now, and_imp]
  exact ⟨fun holds time related => holds time _ related rfl,
    by rintro holds time _ related rfl; exact holds time related⟩

@[simp] theorem wp_randomBytes32 {f : Bytes 32 → SignerProg α} :
    Prog.wp (traced signing R) (randomBytes32 >>= f) Q (s, calls) ↔
      ∀ bytes, Prog.wp (traced signing R) (f bytes) Q (s, ⟨.randomBytes32, bytes⟩ :: calls) := by
  rw [Prog.wp_traced]
  simp only [allowed_world, true_and, step_randomBytes32, forall_eq]

@[simp] theorem wp_randomU32 {f : UInt32 → SignerProg α} :
    Prog.wp (traced signing R) (randomU32 >>= f) Q (s, calls) ↔
      ∀ word, Prog.wp (traced signing R) (f word) Q (s, ⟨.randomU32, word⟩ :: calls) := by
  rw [Prog.wp_traced]
  simp only [allowed_world, true_and, step_randomU32, forall_eq]

@[simp] theorem wp_pushCommit {client : Str} {entry : CommitEntry} {f : Unit → SignerProg α} :
    Prog.wp (traced signing R) (pushCommit client entry >>= f) Q (s, calls) ↔
      Prog.wp (traced signing R) (f ()) Q
        ({ s with
          commitsByClient := s.commitsByClient.set client (s.pending client ++ [entry]) },
          ⟨.pushCommit client entry, ()⟩ :: calls) :=
  wp_of_step (fun _ _ => step_pushCommit) f

@[simp] theorem wp_takePending {client commitId : Str}
    {f : Option CommitEntry → SignerProg α} :
    Prog.wp (traced signing R) (takePending client commitId >>= f) Q (s, calls) ↔
      Prog.wp (traced signing R) (f (s.takeCommit swapRemove client commitId).1) Q
        ((s.takeCommit swapRemove client commitId).2,
          ⟨.takeCommit client commitId, (s.takeCommit swapRemove client commitId).1⟩ :: calls) :=
  wp_of_step (fun _ _ => step_takeCommit) f

@[simp] theorem wp_takePendingInOrder {client commitId : Str}
    {f : Option CommitEntry → SignerProg α} :
    Prog.wp (traced signing R) (takePendingInOrder client commitId >>= f) Q (s, calls) ↔
      Prog.wp (traced signing R) (f (s.takeCommit List.eraseIdx client commitId).1) Q
        ((s.takeCommit List.eraseIdx client commitId).2,
          ⟨.takeCommitInOrder client commitId,
            (s.takeCommit List.eraseIdx client commitId).1⟩ :: calls) :=
  wp_of_step (fun _ _ => step_takeCommitInOrder) f

@[simp] theorem wp_reapCommits {cutoff : Nat} {f : Unit → SignerProg α} :
    Prog.wp (traced signing R) (reapCommits cutoff >>= f) Q (s, calls) ↔
      Prog.wp (traced signing R) (f ()) Q
        (s.reapCommits cutoff, ⟨.reapCommits cutoff, ()⟩ :: calls) :=
  wp_of_step (fun _ _ => step_reapCommits) f

@[simp] theorem wp_sendMail {recipient otp : Str} {f : Unit → SignerProg α} :
    Prog.wp (traced signing R) (sendMail recipient otp >>= f) Q (s, calls) ↔
      Prog.wp (traced signing R) (f ()) Q (s, ⟨.sendMail recipient otp, ()⟩ :: calls) :=
  wp_of_step (fun _ _ => step_sendMail) f

@[simp] theorem wp_sign {input : SigningInput} {f : Result SignCompleteResult → SignerProg α} :
    Prog.wp (traced signing R) (sign input >>= f) Q (s, calls) ↔
      Prog.wp (traced signing R) (f (signing input)) Q
        (s, ⟨.sign input, signing input⟩ :: calls) :=
  wp_of_step (fun _ _ => step_sign) f

/-- A computed result: an error is passed on and a panic ends the request. -/
theorem wp_ofResult {β : Type} {result : Result β} {f : Except Error β → SignerProg α}
    (returned : ∀ value, result = .ok value →
      Prog.wp (traced signing R) (f (.ok value)) Q (s, calls))
    (failed : ∀ e, result = .error (.err e) →
      Prog.wp (traced signing R) (f (.error e)) Q (s, calls))
    (stopped : Q none (s, calls)) :
    Prog.wp (traced signing R) (ofResult result >>= f) Q (s, calls) := by
  match result with
  | .ok value => exact returned value rfl
  | .error (.err e) => exact failed e rfl
  | .error (.panic _) => exact stopped

end Execution

end Pomade.Signer
