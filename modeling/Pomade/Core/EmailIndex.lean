import Pomade.Core.Isolation

/-! # The email index

A session with an email hash is listed in `sessionsByEmailHash` under that hash.  `_addSession`
stores the session, reads the index entry and writes it back; `_deleteSession` reads the session
and the entry, writes the entry back and deletes the session.  Other handlers may run between any
two of these calls.
-/

namespace Pomade.Core

open Pomade.Lib Sqlite

/-! ## What is wanted -/

/-- The email hash of the session a client has.  An empty one is not used. -/
def hashOf (tables : Tables) (client : Str) : Option Str :=
  ((tables .sessions).get client).bind fun session => truthy session.emailHash

def clientsOf (tables : Tables) (emailHash : Str) : List Str :=
  (((tables .sessionsByEmailHash).get emailHash).getD { clients := [] }).clients

/-- The clients that are listed under a hash are those whose session has it. -/
def IndexConsistent (tables : Tables) : Prop :=
  ∀ client emailHash, hashOf tables client = some emailHash ↔ client ∈ clientsOf tables emailHash

/-- The calls of a handler, newest first. -/
abbrev Seen : Type := List (ConnCall Access Fault Answer)

/-- The entry of a hash is still what the last call has read. -/
def AsRead (tables : Tables) (emailHash : Str) (seen : Seen) : Prop :=
  ∀ found, seen.head? = some ⟨.access (.get .sessionsByEmailHash emailHash), .ok found⟩ →
    (tables .sessionsByEmailHash).get emailHash = found

/-- What a call needs of the tables it finds.

* An entry is written only if it is as the handler has read it, and a client is added to it only
  if its session has the hash.
* A session is stored only for a client that is not listed under another hash.
* A session is deleted only if its client is not listed.
* `ROLLBACK` takes back no hash of a session and no client of an entry. -/
def CarefulCall (s : Conn Tables) (seen : Seen) : Op Access → Prop
  | .access (.set .sessionsByEmailHash emailHash index) =>
    AsRead s.tables emailHash seen ∧ ∀ client ∈ index.clients,
      client ∉ clientsOf s.tables emailHash → hashOf s.tables client = some emailHash
  | .access (.delete .sessionsByEmailHash emailHash) => AsRead s.tables emailHash seen
  | .access (.set .sessions client session) =>
    ∀ emailHash, client ∈ clientsOf s.tables emailHash → truthy session.emailHash = some emailHash
  | .access (.delete .sessions client) => ∀ emailHash, client ∉ clientsOf s.tables emailHash
  | .rollback => ∀ tables ∈ s.saved,
    (∀ client, hashOf tables client = hashOf s.tables client) ∧
      ∀ emailHash, clientsOf tables emailHash = clientsOf s.tables emailHash
  | _ => True

section EmailIndex

variable [Packages]

/-- The handlers of the four requests run, and nothing else. -/
def Serves : ConnPool Access Fault Response Tables Answer →
    ConnAction Access Fault Response Tables Answer → Prop
  | _, .spawn job => ∃ options auth request, job = Request.handler options auth request
  | _, _ => True

/-- The handlers of the four requests run, and each call is careful. -/
def Careful (p : ConnPool Access Fault Response Tables Answer) :
    ConnAction Access Fault Response Tables Answer → Prop
  | .call tid _ call => ∀ thread ∈ p.threads[tid]?, CarefulCall p.state thread.seen call.op
  | action => Serves p action

/-! ## What a handler owes -/

/-- A session that is stored and not listed, or no longer: what the handler has done last. -/
def debt : Seen → Option (Str × Str)
  | ⟨.access (.set .sessions client session), .ok _⟩ :: _ =>
    (truthy session.emailHash).map (client, ·)
  | ⟨.access (.get .sessionsByEmailHash _), .ok _⟩ ::
      ⟨.access (.set .sessions client session), .ok _⟩ :: _ =>
    (truthy session.emailHash).map (client, ·)
  | ⟨.access (.set .sessionsByEmailHash _ _), .ok _⟩ ::
      ⟨.access (.get .sessionsByEmailHash _), _⟩ ::
      ⟨.access (.get .sessions client), .ok (some session)⟩ :: _ =>
    (truthy session.emailHash).map (client, ·)
  | ⟨.access (.delete .sessionsByEmailHash _), .ok _⟩ ::
      ⟨.access (.get .sessionsByEmailHash _), _⟩ ::
      ⟨.access (.get .sessions client), .ok (some session)⟩ :: _ =>
    (truthy session.emailHash).map (client, ·)
  | _ => none

/-- Where an entry is written: the handler has just read it, and adds the client it has stored a
session for or takes out the one whose session it has read. -/
inductive Entering (emailHash : Str) : Seen → List Str → Prop where
  | add {client session found older} (hashed : truthy session.emailHash = some emailHash) :
      Entering emailHash
        (⟨.access (.get .sessionsByEmailHash emailHash), .ok found⟩ ::
          ⟨.access (.set .sessions client session), .ok ()⟩ :: older)
        (append client (found.getD { clients := [] }).clients)
  | remove {client session older} {index : SignerSessionIndex}
      (hashed : truthy session.emailHash = some emailHash) :
      Entering emailHash
        (⟨.access (.get .sessionsByEmailHash emailHash), .ok (some index)⟩ ::
          ⟨.access (.get .sessions client), .ok (some session)⟩ :: older)
        (remove client index.clients)

/-- What a handler may call after the calls it has made. -/
def Allowed : Op Access → Seen → Prop
  | .access (.set .sessionsByEmailHash emailHash index), seen =>
    Entering emailHash seen index.clients
  | .access (.delete .sessionsByEmailHash emailHash), seen => Entering emailHash seen []
  | .access (.get .sessionsByEmailHash emailHash), seen => ∀ found,
    debt (⟨.access (.get .sessionsByEmailHash emailHash), .ok found⟩ :: seen) = debt seen
  | .access (.delete .sessions client), seen => ∀ owed ∈ debt seen, owed.1 = client
  | _, seen => debt seen = none

omit [Packages] in
theorem debt_error (a : Access) (fault : Fault) (seen : Seen) :
    debt (⟨.access a, .error fault⟩ :: seen) = none := by
  cases a with
  | get c key => cases c <;> rfl
  | set c key item => cases c <;> rfl
  | delete c key => cases c <;> rfl
  | now => rfl

/-! ## One handler by itself -/

section Alone

variable {α β : Type} {seen : Seen}

/-- After a program that threw, nothing is owed. -/
def Ends (post : α → Seen → Prop) : Option (Except Fault α) → Seen → Prop
  | some (.ok value), seen => post value seen
  | some (.error _), seen => debt seen = none
  | none, _ => False

/-- Whatever the answers are, a program calls what it may, and ends with `post`. -/
def Settles (program : Handling α) (post : α → Seen → Prop) (seen : Seen) : Prop :=
  program.run.wp (World.thread Allowed) (Ends post) seen

theorem settles_pure {value : α} {post : α → Seen → Prop} (holds : post value seen) :
    Settles (pure value) post seen := holds

theorem settles_bind {first : Handling α} {rest : α → Handling β} {middle : α → Seen → Prop}
    {post : β → Seen → Prop} (settles : Settles first middle seen)
    (settles' : ∀ value seen', middle value seen' → Settles (rest value) post seen') :
    Settles (first >>= rest) post seen := by
  refine Prog.wp_seq settles ?_ fun _ impossible => impossible
  intro result seen' outcome
  cases result with
  | ok value => exact settles' value seen' outcome
  | error fault => exact outcome

theorem settles_access {a : Access} {post : Answer a → Seen → Prop}
    (allowed : Allowed (.access a) seen)
    (each : ∀ answer, post answer (⟨.access a, .ok answer⟩ :: seen)) :
    Settles (ExceptT.mk (access a)) post seen := by
  refine ⟨allowed, fun answer seen' step => ?_⟩
  cases step
  cases answer with
  | ok answer => exact each answer
  | error fault => exact debt_error a fault seen

/-- A call, and what follows it. -/
theorem settles_call {a : Access} {rest : Answer a → Handling β} {post : β → Seen → Prop}
    (allowed : Allowed (.access a) seen)
    (each : ∀ answer, Settles (rest answer) post (⟨.access a, .ok answer⟩ :: seen)) :
    Settles (ExceptT.mk (access a) >>= rest) post seen := by
  have first : Settles (ExceptT.mk (access a))
      (fun answer seen' => seen' = ⟨.access a, .ok answer⟩ :: seen) seen :=
    settles_access allowed fun _ => rfl
  refine settles_bind first fun answer seen' same => ?_
  rw [same]
  exact each answer

/-- A program that owes nothing at its end if it owes nothing when it starts. -/
def Quiet (program : Handling α) : Prop :=
  ∀ seen, debt seen = none → Settles program (fun _ seen' => debt seen' = none) seen

theorem quiet_bind {first : Handling α} {rest : α → Handling β} (quiet : Quiet first)
    (quiet' : ∀ value, Quiet (rest value)) : Quiet (first >>= rest) :=
  fun seen free => settles_bind (quiet seen free) fun value => quiet' value

theorem quiet_pure (value : α) : Quiet (pure value : Handling α) := fun _ free => free

theorem quiet_lift (result : Except Fault α) : Quiet (liftM result) := by
  intro seen free
  cases result <;> exact free

theorem quiet_get (c : Coll) (key : Str) (other : c ≠ .sessionsByEmailHash) :
    Quiet (get c key) := by
  intro seen free
  cases c with
  | sessionsByEmailHash => exact absurd rfl other
  | logins => exact settles_access free fun _ => rfl
  | sessions => exact settles_access free fun _ => rfl
  | recoveries => exact settles_access free fun _ => rfl

theorem quiet_now : Quiet now := fun _ free => settles_access free fun _ => rfl

theorem quiet_deleteLogin (key : Str) : Quiet (delete .logins key) :=
  fun _ free => settles_access free fun _ => rfl

theorem quiet_addSession (client : Str) (session : SignerSession) :
    Quiet (addSession client session) := by
  intro seen free
  -- The session is stored, and owed to the index from then on.
  refine settles_call free fun _ => ?_
  cases hashed : truthy session.emailHash with
  | none =>
    refine settles_pure ?_
    simp [debt, hashed]
  | some emailHash =>
    refine settles_call (fun _ => rfl) fun found => ?_
    exact settles_access (Entering.add hashed) fun _ => rfl

/-- The last call of `_deleteSession`, where at most the session of its client is owed. -/
theorem settles_delete {client : Str} (owed : ∀ pair ∈ debt seen, pair.1 = client) :
    Settles (do let _ ← delete .sessions client : Handling Unit)
      (fun _ seen' => debt seen' = none) seen :=
  settles_call owed fun _ => settles_pure rfl

theorem quiet_deleteSession (client : Str) : Quiet (deleteSession client) := by
  intro seen free
  refine settles_call free fun found => ?_
  cases found with
  | none => exact settles_pure rfl
  | some session =>
    cases hashed : truthy session.emailHash with
    | none =>
      simp only [hashed]
      exact settles_delete nofun
    | some emailHash =>
      simp only [hashed]
      refine settles_call (fun _ => rfl) fun entry => ?_
      cases entry with
      | none => exact settles_delete nofun
      | some index =>
        have own : ∀ pair ∈ (truthy session.emailHash).map (client, ·), pair.1 = client := by
          simp [hashed]
        dsimp only
        split
        next empty =>
          refine settles_call ?_ fun _ => settles_delete own
          rw [Allowed, ← List.eq_nil_of_length_eq_zero empty]
          exact Entering.remove hashed
        next => exact settles_call (Entering.remove hashed) fun _ => settles_delete own

theorem quiet_handlers : Pervades fun program => Quiet program where
  pure := quiet_pure
  bind := quiet_bind
  lift := quiet_lift
  get := quiet_get
  now := quiet_now
  deleteLogin := quiet_deleteLogin
  addSession := quiet_addSession
  deleteSession := quiet_deleteSession

end Alone

/-! ## The program of a handler -/

abbrev IndexThread : Type := ConnThread Access Fault Response Answer

/-- What is left of a thread calls what it may, and nothing is owed when it has ended. -/
def Owing (thread : IndexThread) : Prop :=
  thread.rest.wp (World.thread Allowed) (fun _ seen => debt seen = none) thread.seen

omit [Packages] in
theorem settled_of_ends {α : Type} {result : Option (Except Fault α)} {seen : Seen}
    (ends : Ends (fun _ seen => debt seen = none) result seen) : debt seen = none := by
  cases result with
  | none => exact ends.elim
  | some result => cases result <;> exact ends

/-- A call of the transaction, after which nothing is owed. -/
theorem owing_op {α : Type} {o : Op Access} {next : Ans Fault Answer o → ConnProg Access Fault Answer α}
    {seen : Seen} (allowed : Allowed o seen)
    (rest : ∀ answer, (next answer).wp (World.thread Allowed) (fun _ seen => debt seen = none)
      (⟨o, answer⟩ :: seen)) :
    (Prog.call o next).wp (World.thread Allowed) (fun _ seen => debt seen = none) seen := by
  refine ⟨allowed, fun answer seen' step => ?_⟩
  cases step
  exact rest answer

theorem owing_closing {seen : Seen} (free : debt seen = none) (result : Except Fault Response) :
    (closing result : ConnProg Access Fault Answer _).wp (World.thread Allowed)
      (fun _ seen => debt seen = none) seen :=
  owing_op free fun _ => rfl

theorem owing_undo {seen : Seen} (free : debt seen = none) (fault : Fault) :
    (undo fault >>= closing : ConnProg Access Fault Answer (Except Fault Response)).wp
      (World.thread Allowed) (fun _ seen => debt seen = none) seen := by
  refine owing_op free fun answer => ?_
  cases answer <;> exact owing_closing rfl _

theorem owing_settle {seen : Seen} (free : debt seen = none) (result : Except Fault Response) :
    (settle result >>= closing : ConnProg Access Fault Answer (Except Fault Response)).wp
      (World.thread Allowed) (fun _ seen => debt seen = none) seen := by
  cases result with
  | error fault => exact owing_undo free fault
  | ok response =>
    refine owing_op free fun answer => ?_
    cases answer with
    | ok _ => exact owing_closing rfl _
    | error fault => exact owing_undo rfl fault

theorem owing_tx {program : Handling Response} (quiet : Quiet program) :
    (tx program.run).wp (World.thread Allowed) (fun _ seen => debt seen = none) [] := by
  refine owing_op rfl fun ticket => owing_op rfl fun answer => ?_
  cases answer with
  | error fault => exact owing_closing rfl _
  | ok _ =>
    show (program.run >>= settle >>= closing).wp _ _ _
    rw [Prog.bind_assoc]
    refine Prog.wp_seq (quiet _ rfl) ?_ fun _ impossible => impossible.elim
    intro result seen' ends
    exact owing_settle (settled_of_ends ends) result

theorem owing_plain {program : Handling Response} (quiet : Quiet program) :
    program.run.wp (World.thread Allowed) (fun _ seen => debt seen = none) [] :=
  Prog.wp_mono (fun _ _ ends => settled_of_ends ends) _ _ (quiet [] rfl)

/-- A thread that runs the handler of a request. -/
theorem owing_handler (options : SignerOptions) (auth : SignedEvent) (request : Request) :
    Owing ⟨request.handler options auth, [], (request.handler options auth).program⟩ := by
  cases request with
  | register data => exact owing_tx (quiet_handlers.handleRegister options auth data)
  | recoverySetup data => exact owing_tx (quiet_handlers.handleRecoverySetup options auth data)
  | loginSelect data => exact owing_plain (quiet_handlers.handleLoginSelect auth data)
  | sessionDelete data => exact owing_tx (quiet_handlers.handleSessionDelete auth data)

/-! ## What a call does to the index -/

section Tables

variable {tables : Tables}

omit [Packages] in
theorem hashOf_set (client client' : Str) (session : SignerSession) :
    hashOf (collections.apply (.set .sessions client session) tables) client' =
      if client' = client then truthy session.emailHash else hashOf tables client' := by
  simp only [hashOf, collections, Function.update_self, Table.get_set]
  split <;> rfl

omit [Packages] in
theorem hashOf_delete (client client' : Str) :
    hashOf (collections.apply (.delete .sessions client) tables) client' =
      if client' = client then none else hashOf tables client' := by
  simp only [hashOf, collections, Function.update_self, Table.get_delete]
  split <;> rfl

omit [Packages] in
theorem clientsOf_set (emailHash emailHash' : Str) (index : SignerSessionIndex) :
    clientsOf (collections.apply (.set .sessionsByEmailHash emailHash index) tables) emailHash' =
      if emailHash' = emailHash then index.clients else clientsOf tables emailHash' := by
  simp only [clientsOf, collections, Function.update_self, Table.get_set]
  split <;> rfl

omit [Packages] in
theorem clientsOf_delete (emailHash emailHash' : Str) :
    clientsOf (collections.apply (.delete .sessionsByEmailHash emailHash) tables) emailHash' =
      if emailHash' = emailHash then [] else clientsOf tables emailHash' := by
  simp only [clientsOf, collections, Function.update_self, Table.get_delete]
  split <;> rfl

end Tables

/-- Every client that is listed has a session with the hash. -/
def Stored (tables : Tables) : Prop :=
  ∀ client emailHash, client ∈ clientsOf tables emailHash → hashOf tables client = some emailHash

/-- What a call does: a session that is not listed afterwards is owed by the handler that made the
call, or it was not listed before either, and owed by another one. -/
structure Keeps (tables tables' : Tables) (seen seen' : Seen) : Prop where
  stored : Stored tables'
  owed (client emailHash : Str) : hashOf tables' client = some emailHash →
    client ∈ clientsOf tables' emailHash ∨ debt seen' = some (client, emailHash) ∨
      hashOf tables client = some emailHash ∧ client ∉ clientsOf tables emailHash ∧
        debt seen ≠ some (client, emailHash)

section Steps

variable {tables tables' : Tables} {seen seen' : Seen}

omit [Packages] in
/-- A call that does nothing to the sessions and the index. -/
theorem keeps_of_same (stored : Stored tables)
    (hashes : ∀ client, hashOf tables' client = hashOf tables client)
    (clients : ∀ emailHash, clientsOf tables' emailHash = clientsOf tables emailHash)
    (debts : debt seen = none ∨ debt seen' = debt seen) : Keeps tables tables' seen seen' := by
  refine ⟨fun client emailHash => ?_, fun client emailHash hashed => ?_⟩
  · rw [clients, hashes]
    exact stored client emailHash
  · rw [hashes] at hashed
    rw [clients]
    by_cases listed : client ∈ clientsOf tables emailHash
    · exact .inl listed
    · cases debts with
      | inl free => exact .inr (.inr ⟨hashed, listed, by simp [free]⟩)
      | inr same =>
        by_cases owed : debt seen = some (client, emailHash)
        · exact .inr (.inl (same.trans owed))
        · exact .inr (.inr ⟨hashed, listed, owed⟩)

omit [Packages] in
theorem keeps_set_session {client : Str} {session : SignerSession} (stored : Stored tables)
    (same : ∀ emailHash, client ∈ clientsOf tables emailHash →
      truthy session.emailHash = some emailHash)
    (free : debt seen = none) :
    Keeps tables (collections.apply (.set .sessions client session) tables) seen
      (⟨.access (.set .sessions client session), .ok ()⟩ :: seen) := by
  refine ⟨fun client' emailHash listed => ?_, fun client' emailHash hashed => ?_⟩
  · rw [hashOf_set]
    by_cases here : client' = client
    · rw [if_pos here]
      exact same emailHash (here ▸ listed)
    · rw [if_neg here]
      exact stored client' emailHash listed
  · rw [hashOf_set] at hashed
    by_cases here : client' = client
    · -- The new session is owed.
      rw [if_pos here] at hashed
      refine .inr (.inl ?_)
      simp [debt, hashed, here]
    · rw [if_neg here] at hashed
      by_cases listed : client' ∈ clientsOf tables emailHash
      · exact .inl listed
      · exact .inr (.inr ⟨hashed, listed, by simp [free]⟩)

omit [Packages] in
theorem keeps_delete_session {client : Str} {answer : Bool} (stored : Stored tables)
    (unlisted : ∀ emailHash, client ∉ clientsOf tables emailHash)
    (own : ∀ pair ∈ debt seen, pair.1 = client) :
    Keeps tables (collections.apply (.delete .sessions client) tables) seen
      (⟨.access (.delete .sessions client), .ok answer⟩ :: seen) := by
  refine ⟨fun client' emailHash listed => ?_, fun client' emailHash hashed => ?_⟩
  · have other : client' ≠ client := fun here => unlisted emailHash (here ▸ listed)
    rw [hashOf_delete, if_neg other]
    exact stored client' emailHash listed
  · rw [hashOf_delete] at hashed
    by_cases here : client' = client
    · simp [here] at hashed
    · rw [if_neg here] at hashed
      by_cases listed : client' ∈ clientsOf tables emailHash
      · exact .inl listed
      · exact .inr (.inr ⟨hashed, listed, fun owed => here (own _ owed)⟩)

/-- An entry is written. -/
theorem keeps_entry [LawfulPackages] {emailHash : Str} {clients : List Str}
    (stored : Stored tables) (entering : Entering emailHash seen clients)
    (asRead : AsRead tables emailHash seen)
    (new : ∀ client ∈ clients, client ∉ clientsOf tables emailHash →
      hashOf tables client = some emailHash)
    (hashes : ∀ client, hashOf tables' client = hashOf tables client)
    (entry : ∀ emailHash', clientsOf tables' emailHash' =
      if emailHash' = emailHash then clients else clientsOf tables emailHash')
    (owes : ∀ client session found older,
      seen = ⟨.access (.get .sessionsByEmailHash emailHash), found⟩ ::
        ⟨.access (.get .sessions client), .ok (some session)⟩ :: older →
      debt seen' = (truthy session.emailHash).map (client, ·)) :
    Keeps tables tables' seen seen' := by
  refine ⟨fun client' emailHash' listed => ?_, fun client' emailHash' hashed => ?_⟩
  · rw [hashes]
    rw [entry] at listed
    by_cases here : emailHash' = emailHash
    · subst here
      rw [if_pos rfl] at listed
      by_cases before : client' ∈ clientsOf tables emailHash'
      · exact stored client' emailHash' before
      · exact new client' listed before
    · rw [if_neg here] at listed
      exact stored client' emailHash' listed
  · rw [hashes] at hashed
    rw [entry]
    by_cases here : emailHash' = emailHash
    · subst here
      rw [if_pos rfl]
      cases entering with
      | @add client session found older own =>
        -- The client that was owed is in the entry now.
        have read : clientsOf tables emailHash' = (found.getD { clients := [] }).clients := by
          rw [clientsOf, asRead found rfl]
        rw [LawfulPackages.mem_append, ← read]
        by_cases before : client' ∈ clientsOf tables emailHash'
        · exact .inl (.inl before)
        · by_cases same : client' = client
          · exact .inl (.inr same)
          · refine .inr (.inr ⟨hashed, before, fun owed => same ?_⟩)
            simp only [debt, own, Option.map_some, Option.some.injEq, Prod.mk.injEq] at owed
            exact owed.1.symm
      | @remove client session older index own =>
        have read : clientsOf tables emailHash' = index.clients := by
          rw [clientsOf, asRead (some index) rfl]
          rfl
        rw [LawfulPackages.mem_remove, ← read]
        by_cases before : client' ∈ clientsOf tables emailHash'
        · by_cases same : client' = client
          · refine .inr (.inl ?_)
            rw [owes client session _ older rfl, own, same]
            rfl
          · exact .inl ⟨before, same⟩
        · exact .inr (.inr ⟨hashed, before, fun owed => nomatch owed⟩)
    · rw [if_neg here]
      by_cases before : client' ∈ clientsOf tables emailHash'
      · exact .inl before
      · refine .inr (.inr ⟨hashed, before, fun owed => here ?_⟩)
        cases entering with
        | @add client session found older own =>
          simp only [debt, own, Option.map_some, Option.some.injEq, Prod.mk.injEq] at owed
          exact owed.2.symm
        | remove own => cases owed

/-- A statement that does not fail. -/
theorem keeps_access [LawfulPackages] {s : Conn Tables} {a : Access} {value : Answer a}
    (stored : Stored s.tables) (allowed : Allowed (.access a) seen)
    (careful : CarefulCall s seen (.access a)) :
    Keeps s.tables (collections.apply a s.tables) seen (⟨.access a, .ok value⟩ :: seen) := by
  cases a with
  | now => exact keeps_of_same stored (fun _ => rfl) (fun _ => rfl) (.inl allowed)
  | get c key =>
    cases c with
    | sessionsByEmailHash =>
      exact keeps_of_same stored (fun _ => rfl) (fun _ => rfl) (.inr (allowed value))
    | logins => exact keeps_of_same stored (fun _ => rfl) (fun _ => rfl) (.inl allowed)
    | sessions => exact keeps_of_same stored (fun _ => rfl) (fun _ => rfl) (.inl allowed)
    | recoveries => exact keeps_of_same stored (fun _ => rfl) (fun _ => rfl) (.inl allowed)
  | set c key item =>
    cases c with
    | sessions => exact keeps_set_session stored careful allowed
    | sessionsByEmailHash =>
      refine keeps_entry stored allowed careful.1 careful.2 (fun _ => rfl)
        (fun _ => clientsOf_set _ _ _) ?_
      rintro client session found older rfl
      rfl
    | logins => exact keeps_of_same stored (fun _ => rfl) (fun _ => rfl) (.inl allowed)
    | recoveries => exact keeps_of_same stored (fun _ => rfl) (fun _ => rfl) (.inl allowed)
  | delete c key =>
    cases c with
    | sessions => exact keeps_delete_session stored careful allowed
    | sessionsByEmailHash =>
      refine keeps_entry stored allowed careful (fun _ none => nomatch none) (fun _ => rfl)
        (fun _ => clientsOf_delete _ _) ?_
      rintro client session found older rfl
      rfl
    | logins => exact keeps_of_same stored (fun _ => rfl) (fun _ => rfl) (.inl allowed)
    | recoveries => exact keeps_of_same stored (fun _ => rfl) (fun _ => rfl) (.inl allowed)

omit [Packages] in
/-- Where no statement fails, a collection operation is answered. -/
theorem answered {s s' : Conn Tables} {a : Access} {answer : Except Fault (Answer a)}
    (step : (world Fault collections false).step (.access a) s answer s') :
    (∃ value, answer = .ok value) ∧ s'.tables = collections.apply a s.tables := by
  obtain ⟨e, permitted, outcome⟩ := step
  have smooth : e.fails = false := by
    cases fails : e.fails with
    | false => rfl
    | true => exact absurd (permitted fails) Bool.false_ne_true
  simp only [exec, smooth, Bool.false_eq_true, if_false, Prod.mk.injEq] at outcome
  obtain ⟨rfl, rfl⟩ := outcome
  exact ⟨⟨_, rfl⟩, rfl⟩

/-- A careful call of a handler. -/
theorem keeps_step [LawfulPackages] {s s' : Conn Tables} {o : Op Access}
    {answer : Ans Fault Answer o} (step : (world Fault collections false).step o s answer s')
    (stored : Stored s.tables) (allowed : Allowed o seen) (careful : CarefulCall s seen o) :
    Keeps s.tables s'.tables seen (⟨o, answer⟩ :: seen) := by
  cases o with
  | access a =>
    obtain ⟨⟨value, rfl⟩, tables⟩ := answered step
    rw [tables]
    exact keeps_access stored allowed careful
  | rollback =>
    obtain ⟨_, rfl, _⟩ | ⟨tables, saved, _, rfl⟩ := step_rollback step
    · exact keeps_of_same stored (fun _ => rfl) (fun _ => rfl) (.inl allowed)
    · -- What comes back is, of the sessions and the index, what is there.
      obtain ⟨hashes, clients⟩ := careful tables saved
      exact keeps_of_same stored hashes clients (.inl allowed)
  | enqueue =>
    rw [show s'.tables = s.tables from tables_of_step step rfl]
    exact keeps_of_same stored (fun _ => rfl) (fun _ => rfl) (.inl allowed)
  | begin ticket =>
    rw [show s'.tables = s.tables from tables_of_step step rfl]
    exact keeps_of_same stored (fun _ => rfl) (fun _ => rfl) (.inl allowed)
  | commit =>
    rw [show s'.tables = s.tables from tables_of_step step rfl]
    exact keeps_of_same stored (fun _ => rfl) (fun _ => rfl) (.inl allowed)
  | finish =>
    rw [show s'.tables = s.tables from tables_of_step step rfl]
    exact keeps_of_same stored (fun _ => rfl) (fun _ => rfl) (.inl allowed)

end Steps

/-! ## Runs -/

/-- The invariant: what is listed is stored, and what is stored is listed or owed. -/
structure Indexed (p : ConnPool Access Fault Response Tables Answer) : Prop where
  threads : ∀ thread ∈ p.threads, Owing thread
  stored : Stored p.state.tables
  owed (client emailHash : Str) : hashOf p.state.tables client = some emailHash →
    client ∈ clientsOf p.state.tables emailHash ∨
      ∃ thread ∈ p.threads, debt thread.seen = some (client, emailHash)

theorem indexed_opened {tables : Tables} (consistent : IndexConsistent tables) :
    Indexed ⟨Conn.opened tables, [], []⟩ :=
  ⟨nofun, fun client emailHash => (consistent client emailHash).2,
    fun client emailHash hashed => .inl ((consistent client emailHash).1 hashed)⟩

theorem Indexed.spawn {p : ConnPool Access Fault Response Tables Answer} (indexed : Indexed p)
    (options : SignerOptions) (auth : SignedEvent) (request : Request) :
    Indexed (p.spawn Handler.program (request.handler options auth)) := by
  refine ⟨fun thread member => ?_, indexed.stored, fun client emailHash hashed => ?_⟩
  · cases List.mem_append.1 member with
    | inl old => exact indexed.threads thread old
    | inr new =>
      rw [List.mem_singleton.1 new]
      exact owing_handler options auth request
  · obtain listed | ⟨thread, member, owes⟩ := indexed.owed client emailHash hashed
    · exact .inl listed
    · exact .inr ⟨thread, List.mem_append_left _ member, owes⟩

theorem Indexed.call [LawfulPackages] {p : ConnPool Access Fault Response Tables Answer}
    (indexed : Indexed p) {tid : Nat} {job : Handler Access Fault Response Answer} {seen : Seen}
    {o : Op Access} {next : Ans Fault Answer o → ConnProg Access Fault Answer _}
    {answer : Ans Fault Answer o} {s' : Conn Tables}
    (found : p.threads[tid]? = some ⟨job, seen, .call o next⟩)
    (step : (world Fault collections false).step o p.state answer s')
    (careful : CarefulCall p.state seen o) :
    Indexed (p.called tid job seen ⟨o, answer⟩ (next answer) s') := by
  have owing := indexed.threads _ (List.mem_of_getElem? found)
  have keeps := keeps_step step indexed.stored owing.1 careful
  have place := (List.getElem?_eq_some_iff.1 found).1
  have self : (⟨job, ⟨o, answer⟩ :: seen, next answer⟩ : IndexThread) ∈
      (p.called tid job seen ⟨o, answer⟩ (next answer) s').threads :=
    List.mem_of_getElem? (List.getElem?_set_self place)
  refine ⟨fun thread member => ?_, keeps.stored, fun client emailHash hashed => ?_⟩
  · cases List.mem_or_eq_of_mem_set member with
    | inl old => exact indexed.threads thread old
    | inr new =>
      rw [new]
      exact owing.2 answer _ rfl
  · obtain listed | owes | ⟨before, unlisted, other⟩ := keeps.owed client emailHash hashed
    · exact .inl listed
    · exact .inr ⟨_, self, owes⟩
    · -- It was owed by another thread, which is still there.
      obtain listed | ⟨thread, member, owes⟩ := indexed.owed client emailHash before
      · exact absurd listed unlisted
      · obtain ⟨tid', found'⟩ := List.mem_iff_getElem?.1 member
        have apart : tid' ≠ tid := by
          rintro rfl
          rw [found] at found'
          cases found'
          exact other owes
        have kept : (p.called tid job seen ⟨o, answer⟩ (next answer) s').threads[tid']? =
            some thread := by
          rw [Pool.called, List.getElem?_set_ne apart.symm]
          exact found'
        exact .inr ⟨thread, List.mem_of_getElem? kept, owes⟩

/-- A thread that has ended. -/
def HasEnded (thread : IndexThread) : Prop := ∃ result, thread.rest = .pure result

theorem index_consistent [LawfulPackages] {tables : Tables}
    {p : ConnPool Access Fault Response Tables Answer} (consistent : IndexConsistent tables)
    (reach : ConnReach collections false tables Careful p)
    (ended : ∀ thread ∈ p.threads, HasEnded thread) : IndexConsistent p.state.tables := by
  have indexed : Indexed p := by
    clear ended
    induction reach with
    | start s initial =>
      cases initial
      exact indexed_opened consistent
    | spawn job _ meets ih =>
      obtain ⟨options, auth, request, rfl⟩ := meets
      exact ih.spawn options auth request
    | pass _ passed _ _ => exact passed.elim
    | call _ found step meets ih => exact ih.call found step (meets _ found)
  intro client emailHash
  refine ⟨fun hashed => ?_, indexed.stored client emailHash⟩
  obtain listed | ⟨thread, member, owes⟩ := indexed.owed client emailHash hashed
  · exact listed
  · -- A thread that has ended owes nothing.
    obtain ⟨result, rest⟩ := ended thread member
    have owing := indexed.threads thread member
    rw [Owing, rest] at owing
    rw [show debt thread.seen = none from owing] at owes
    cases owes

end EmailIndex

/-! ## Two logins for one email -/

namespace Sample

open Sqlite.Sample

attribute [local instance] packages

theorem packages_lawful : LawfulPackages where
  mem_append x y xs := by
    show y ∈ xs ++ [x] ↔ _
    simp
  mem_remove x y xs := by
    show y ∈ xs.filter (· ≠ x) ↔ _
    simp

attribute [local instance] packages_lawful

def emailHash : Str := "hash".toList

def otherClient : Str := "other".toList

/-- The client `old` has a session with an email, and two clients may copy it. -/
def emailTables : Tables
  | .logins => ((∅ : Table SignerLogin).set newClient { createdAt := 0, clients := [oldClient] }).set
      otherClient { createdAt := 0, clients := [oldClient] }
  | .sessions => (∅ : Table SignerSession).set oldClient (session oldClient (some emailHash))
  | .recoveries => (∅ : Table SignerRecovery)
  | .sessionsByEmailHash =>
    (∅ : Table SignerSessionIndex).set emailHash { clients := [oldClient] }

theorem emailTables_consistent : IndexConsistent emailTables := by
  intro client hash
  have own : truthy (session oldClient (some emailHash)).emailHash = some emailHash := rfl
  simp only [hashOf, clientsOf, emailTables, Table.get_set, Table.get_empty]
  by_cases here : client = oldClient
  · by_cases same : hash = emailHash
    · simp [here, same, own]
    · simp [here, same, own, Ne.symm same]
  · by_cases same : hash = emailHash
    · simp [here, same]
    · simp [here, same]

def loginSelect (client : Str) : Handler Access Fault Response Answer :=
  Request.handler options (event client) (.loginSelect { client := oldClient })

/-- Both handlers have started. -/
def started : ConnPool Access Fault Response Tables Answer :=
  (Pool.spawn ⟨Conn.opened emailTables, [], []⟩ Handler.program (loginSelect newClient)).spawn
    Handler.program (loginSelect otherClient)

def playOn (choices : List Pick) : ConnPool Access Fault Response Tables Answer :=
  Pool.play (exec collections) Handler.program (fun t : Empty => t.elim) choices started

/-- What meets `ok` step by step is reached, if `ok` lets the handlers start. -/
theorem reach_playOn {ok : ConnPool Access Fault Response Tables Answer →
      ConnAction Access Fault Response Tables Answer → Prop}
    (spawns : ∀ p client, ok p (.spawn (loginSelect client))) (choices : List Pick)
    (plays : Pool.Plays (exec collections) (permit false) Handler.program (fun _ _ => True)
      (fun t : Empty => t.elim) ok choices started) :
    ConnReach collections false emailTables ok (playOn choices) := by
  have start : Pool.Reach (world Fault collections false) Handler.program
      (Pool.Elapses (fun _ _ => True) fun t : Empty => t.elim)
      (fun s => s = Conn.opened emailTables) ok started :=
    .spawn _ (.spawn _ (.start _ rfl) (spawns _ _)) (spawns _ _)
  refine (Pool.Reach.play choices start plays).passing ?_
  rintro s s' ⟨t, _⟩
  exact t.elim

def hasEnded (thread : IndexThread) : Bool :=
  match thread.rest with
  | .pure _ => true
  | _ => false

theorem hasEnded_of {p : ConnPool Access Fault Response Tables Answer}
    (all : p.threads.all hasEnded = true) : ∀ thread ∈ p.threads, HasEnded thread := by
  intro thread member
  have ended := List.all_eq_true.1 all thread member
  rw [hasEnded] at ended
  split at ended
  next result rest => exact ⟨result, rest⟩
  next => cases ended

/-- A check of `CarefulCall`. -/
def checkCall (s : Conn Tables) (seen : Seen) : Op Access → Bool
  | .access (.set .sessionsByEmailHash emailHash index) =>
    (match seen.head? with
      | some ⟨.access (.get .sessionsByEmailHash key), .ok found⟩ =>
        key ≠ emailHash || (s.tables .sessionsByEmailHash).get emailHash = found
      | _ => true) &&
    index.clients.all fun client =>
      client ∈ clientsOf s.tables emailHash || hashOf s.tables client = some emailHash
  | .access (.set .sessions client _) =>
    (AList.entries (s.tables .sessionsByEmailHash)).all fun entry => client ∉ entry.2.clients
  | .access (.delete .sessionsByEmailHash _) | .access (.delete .sessions _) | .rollback => false
  | _ => true

theorem unlisted_of_entries {tables : Tables} {client : Str}
    (all : ((AList.entries (tables .sessionsByEmailHash)).all fun entry =>
      client ∉ entry.2.clients) = true)
    (emailHash : Str) : client ∉ clientsOf tables emailHash := by
  rw [clientsOf]
  cases found : (tables .sessionsByEmailHash).get emailHash with
  | none => exact List.not_mem_nil
  | some index =>
    have member := AList.mem_lookup_iff.1 (Option.mem_def.2 found)
    simpa using List.all_eq_true.1 all _ member

theorem carefulCall_of_check {s : Conn Tables} {seen : Seen} {o : Op Access}
    (checked : checkCall s seen o = true) : CarefulCall s seen o := by
  cases o with
  | rollback => cases checked
  | access a =>
    cases a with
    | now => trivial
    | get c key => trivial
    | set c key item =>
      cases c with
      | logins => trivial
      | recoveries => trivial
      | sessions => exact fun emailHash listed => absurd listed (unlisted_of_entries checked _)
      | sessionsByEmailHash =>
        obtain ⟨read, new⟩ := (Bool.and_eq_true _ _).mp checked
        refine ⟨fun found last => ?_, fun client member unlisted => ?_⟩
        · rw [last] at read
          simpa using read
        · simpa [unlisted] using List.all_eq_true.1 new client member
    | delete c key =>
      cases c with
      | logins => trivial
      | recoveries => trivial
      | sessions => cases checked
      | sessionsByEmailHash => cases checked
  | _ => trivial

def check (p : ConnPool Access Fault Response Tables Answer) :
    ConnAction Access Fault Response Tables Answer → Bool
  | .call tid _ call =>
    match p.threads[tid]? with
    | some thread => checkCall p.state thread.seen call.op
    | none => true
  | _ => false

theorem careful_of_check (p : ConnPool Access Fault Response Tables Answer)
    (action : ConnAction Access Fault Response Tables Answer) (checked : check p action = true) :
    Careful p action := by
  cases action with
  | call tid job call =>
    intro thread found
    rw [Option.mem_def] at found
    rw [check, found] at checked
    exact carefulCall_of_check checked
  | _ => cases checked

/-- The second login starts when the first has ended. -/
def inTurn : List Pick := steps 0 8 ++ steps 1 8

theorem index_consistent_in_turn : IndexConsistent (playOn inTurn).state.tables := by
  have plays : Pool.Plays (exec collections) (permit false) Handler.program (fun _ _ => True)
      (fun t : Empty => t.elim) (fun p action => check p action = true) inTurn started := by
    decide +kernel
  have reach := reach_playOn (fun _ client => ⟨options, event client, _, rfl⟩) inTurn
    (plays.weaken careful_of_check)
  exact index_consistent emailTables_consistent reach (hasEnded_of (by decide +kernel))

/-- Both logins read the index before either writes it. -/
def crossed : List Pick := steps 0 7 ++ steps 1 8 ++ steps 0 1

/-- A handler that runs makes a call. -/
def isCall : ConnAction Access Fault Response Tables Answer → Bool
  | .call _ _ _ => true
  | _ => false

/-- The second session is lost from the index. -/
theorem login_lost_from_index :
    ∃ p, ConnReach collections false emailTables Serves p ∧ IndexConsistent emailTables ∧
      (∀ thread ∈ p.threads, HasEnded thread) ∧ ¬ IndexConsistent p.state.tables := by
  have plays : Pool.Plays (exec collections) (permit false) Handler.program (fun _ _ => True)
      (fun t : Empty => t.elim) (fun _ action => isCall action = true) crossed started := by
    decide +kernel
  have serves : ∀ (p : ConnPool Access Fault Response Tables Answer)
      (action : ConnAction Access Fault Response Tables Answer),
      isCall action = true → Serves p action := by
    intro p action call
    cases action with
    | spawn job => cases call
    | _ => trivial
  refine ⟨playOn crossed, reach_playOn (fun _ client => ⟨options, event client, _, rfl⟩) crossed
    (plays.weaken serves), emailTables_consistent, hasEnded_of (by decide +kernel), ?_⟩
  intro consistent
  have listed := (consistent otherClient emailHash).1 (by decide +kernel)
  revert listed
  decide +kernel

end Sample

end Pomade.Core
