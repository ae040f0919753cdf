import Pomade.Lib.Simulation
import Pomade.Signer.OneTime
import Pomade.Signer.Stale
import Pomade.Signer.Storage

/-! # The signer on its database

`Signer::open` puts the signer on an encrypted database, of which the pending commitments are no
part.  What it does there, however its requests interleave and however often it is started again
with the same secret, is what it does on the tables, and the tables are what the database holds.
This is said of a database that does not fail and is dropped in order before it is opened again.

A session is read back only if its share and its group decode, so that this rests on what the
handlers store.
-/

namespace Pomade.Signer

open Pomade.Lib Pomade.Frost Coll

/-! ## What the signer stores -/

/-- A session that `schema.rs` decodes. -/
def SignerSession.Decodes (session : SignerSession) : Prop :=
  isHex32 session.share.seckey = true ∧ session.group.schemaValid = true

/-- A value that is decoded to what it was. -/
def Coll.Storable : (c : Coll) → c.Val → Prop
  | .sessions, session => session.Decodes
  | _, _ => True

def Op.Storable (o : Op) : Prop := ∀ key session, o.storesSession = some (key, session) → session.Decodes

/-- What is read has been decoded. -/
def Decoded (o : Op) (answer : Ans o) : Prop :=
  ∀ key session, (⟨o, answer⟩ : SignerCall) = ⟨.get .sessions key, some session⟩ → session.Decodes

theorem Op.Storable.value {c : Coll} {key : Str} {value : c.Val}
    (storable : (Op.set c key value).Storable) : c.Storable value := by
  cases c with
  | sessions => exact storable key value rfl
  | _ => trivial

theorem SignerSession.Copies.decodes {new old : SignerSession} (copies : new.Copies old)
    (decodes : old.Decodes) : new.Decodes := by
  rw [Decodes, copies.share, copies.group]
  exact decodes

section Handlers

variable {Pt : Type} [AddCommGroup Pt] [Module Scalar Pt] [Curve Pt]

theorem storable_addSession {client : Str} {session : SignerSession} (decodes : session.Decodes) :
    (addSession client session).Only Op.Storable := by
  have own : session.Copies session := ⟨rfl, rfl, id⟩
  refine (writesBack_addSession own).mono ?_
  intro o writes key new stores
  exact (writes key new stores).2.decodes decodes

theorem storable_of_none {o : Op} (silent : o.storesSession = none) : o.Storable := by
  intro key session stores
  rw [silent] at stores
  cases stores

theorem handleRegister_storable {options : SignerOptions} {auth : NostrAuth} {data : RegisterRequest}
    (valid : isHex32 data.share.seckey = true ∧ data.group.schemaValid = true) :
    (handleRegister Pt options auth data).Only Op.Storable := by
  unfold handleRegister
  refine (only_checkKeyReuse (fun _ => storable_of_none rfl) (fun _ => storable_of_none rfl)
    (fun _ => storable_of_none rfl) _).bind fun reused => ?_
  dsimp only
  split
  · trivial
  split
  · trivial
  split
  · trivial
  refine (only_ofResult _).bind fun member => ?_
  split
  · split
    · trivial
    split
    · trivial
    rw [Coll.get, Prog.only_op_bind]
    refine ⟨storable_of_none rfl, fun session => ?_⟩
    split
    · trivial
    rw [now, Prog.only_op_bind]
    refine ⟨storable_of_none rfl, fun createdAt => ?_⟩
    rw [Prog.only_op_bind]
    refine ⟨storable_of_none rfl, fun lastActivity => ?_⟩
    refine Prog.Only.bind (storable_addSession ?_) fun _ => trivial
    exact valid
  · trivial

theorem handleLoginSelect_honest {auth : NostrAuth} {data : SelectRequest} :
    (handleLoginSelect auth data).Honest Op.Storable Decoded := by
  unfold handleLoginSelect
  dsimp only
  rw [Coll.get, Prog.honest_op_bind]
  refine ⟨storable_of_none rfl, fun login _ => ?_⟩
  cases login with
  | none => trivial
  | some login =>
    dsimp only
    rw [Coll.delete, Prog.honest_op_bind]
    refine ⟨storable_of_none rfl, fun _ _ => ?_⟩
    split
    · trivial
    rw [Coll.get, Prog.honest_op_bind]
    refine ⟨storable_of_none rfl, fun session decoded => ?_⟩
    cases session with
    | none => trivial
    | some session =>
      -- The new session has the share and the group of the one that was read.
      have decodes := decoded data.client session rfl
      refine Prog.honest_of_only ?_
      dsimp only
      rw [now, Prog.only_op_bind]
      refine ⟨storable_of_none rfl, fun createdAt => ?_⟩
      rw [Prog.only_op_bind]
      refine ⟨storable_of_none rfl, fun lastActivity => ?_⟩
      refine Prog.Only.bind (storable_addSession ?_) fun _ => trivial
      exact decodes

/-- A job that creates no session writes back what it has read. -/
theorem honest_of_copies {job : Job Auth} (creates : ∀ key, ¬ job.CreatesAt key)
    {p : SignerProg Response} {Q : Option Response → List SignerCall → Prop}
    (stores : p.wp (World.thread (HandlesSessions job)) Q []) : p.Honest Op.Storable Decoded := by
  refine Prog.honest_of_thread ?_ (fun call member => by simp at member) stores
  intro o seen decoded handles key new stores
  cases handles key new stores with
  | inl created => exact absurd created (creates key)
  | inr copied =>
    obtain ⟨old, read, copies⟩ := copied
    exact copies.decodes (decoded _ read key old rfl)

variable [Sha2] [Argon2]

/-- Every session that is stored decodes, given that every session that is read does. -/
theorem handle_honest (options : SignerOptions) (job : Job Auth) :
    (handle Pt options job).Honest Op.Storable Decoded := by
  have stores : (handle Pt options job).wp (World.thread (HandlesSessions job)) (fun _ _ => True) [] :=
    handle_stores options job
  cases job with
  | cleanup => exact honest_of_copies (fun _ => id) stores
  | request auth route =>
    cases auth with
    | none => trivial
    | some auth =>
      cases route with
      | unknown => trivial
      | malformed => trivial
      | body body =>
        cases body with
        | register data =>
          unfold handle
          dsimp only
          split
          next valid =>
            have valid : (isHex32 data.share.seckey && data.group.schemaValid) = true := valid
            rw [Bool.and_eq_true] at valid
            exact Prog.honest_of_only (handleRegister_storable valid)
          · trivial
        | loginSelect data =>
          unfold handle
          dsimp only
          split
          · exact handleLoginSelect_honest
          · trivial
        | _ => exact honest_of_copies (fun _ => id) stores

end Handlers

/-! ## The signer's database -/

/-- The names that `Signer::open` gives the collections. -/
def Coll.name : Coll → Str
  | .logins => "logins".toList
  | .sessions => "sessions".toList
  | .recoveries => "recoveries".toList
  | .challenges => "challenges".toList
  | .sessionsByEmailHash => "sessionsByEmailHash".toList
  | .rateLimitByEmailHash => "rateLimitByEmailHash".toList
  | .rateLimitByClient => "rateLimitByClient".toList

theorem Coll.name_injective : Function.Injective Coll.name := by
  intro c c' same
  cases c <;> cases c' <;> first | rfl | exact absurd same (by decide)

/-- The database, and what is in memory only. -/
structure Disk [Sled] where
  storage : SledBackend
  commitsByClient : Table (List CommitEntry)
  clock : Nat

/-- What is in memory, without tables. -/
def Disk.memory [Sled] (d : Disk) : State :=
  { State.opened d.clock with commitsByClient := d.commitsByClient }

/-- Entries gathered in a map, as the Go signer gathers them before it walks them. -/
def mapOf {V : Type} : List (Str × V) → Table V
  | [] => ∅
  | (key, value) :: rest => (mapOf rest).set key value

/-- `serde_json` for the values of every collection. -/
abbrev Serdes : Type := (c : Coll) → Serde c.Val

def collection (serde : Serdes) (c : Coll) : Collection c.Val := { name := c.name, serde := serde c }

section Calls

variable [Sled] [XChaCha20Poly1305] (signing : SigningFn) (serde : Serdes)

/-- One call; `none` where it panics.  The nonce is for what it stores. -/
def diskExec : (o : Op) → Env × Bytes 24 → Disk → Option (Ans o × Disk)
  | .get c key, _, d => do
    let (found, storage) ← (collection serde c).get d.storage key
    return (found, { d with storage })
  | .set c key value, e, d => do
    let storage ← (collection serde c).set d.storage e.2 key value
    return ((), { d with storage })
  | .delete c key, _, d => do
    let (found, storage) ← (collection serde c).delete d.storage key
    return (found, { d with storage })
  | .entries c, _, d => do
    let (entries, storage) ← (collection serde c).entries d.storage
    return (entries, { d with storage })
  | .mapEntries c, e, d => do
    let (entries, storage) ← (collection serde c).entries d.storage
    return ((mapOf entries).entries fun a b => decide (e.1.rank a ≤ e.1.rank b), { d with storage })
  | o, e, d =>
    let (answer, s) := exec signing o e.1 d.memory
    some (answer, { d with commitsByClient := s.commitsByClient, clock := s.clock })

/-- A call that panics is never answered. -/
def diskWorld (R : Nat → Nat → Prop) : World Op Ans Disk where
  allowed _ _ := True
  step o d answer d' := ∃ e, permit R o e.1 d.memory ∧
    diskExec signing serde o e d = some (answer, d')

end Calls

/-! ## What the database stands for -/

/-- The database holds the tables, encrypted under the secret. -/
structure StandsFor [Sha2] [Sled] [LawfulSled] [XChaCha20Poly1305] (serde : Serdes) (secret : Str)
    (d : Disk) (s : State) : Prop where
  cipher : d.storage.cipher = some (Sha2.sha256 (textBytes secret))
  tables : ∀ c, (collection serde c).StandsFor d.storage (s.table c)
  decodes : ∀ key session, s.sessions.get key = some session → session.Decodes
  commits : d.commitsByClient = s.commitsByClient
  clock : d.clock = s.clock

section Calls

variable [Sha2] [Sled] [LawfulSled] [XChaCha20Poly1305] {signing : SigningFn} {serde : Serdes}
variable {secret : Str} {d : Disk} {s : State}

/-- The tables of another state that has the same records. -/
theorem StandsFor.memory (stands : StandsFor serde secret d s) (commits : Table (List CommitEntry))
    (clock : Nat) : StandsFor serde secret { d with commitsByClient := commits, clock }
      { s with commitsByClient := commits, clock } := by
  refine ⟨stands.cipher, fun c => ?_, stands.decodes, rfl, rfl⟩
  have same : State.table { s with commitsByClient := commits, clock } c = s.table c := by
    cases c <;> rfl
  rw [same]
  exact stands.tables c

theorem StandsFor.elapse (stands : StandsFor serde secret d s) (time : Nat) :
    StandsFor serde secret { d with clock := time } { s with clock := time } := by
  have moved := stands.memory s.commitsByClient time
  exact ⟨moved.cipher, moved.tables, moved.decodes, stands.commits, rfl⟩

/-- A read leaves another handle to the same content. -/
theorem StandsFor.read (stands : StandsFor serde secret d s) {b : SledBackend}
    (same : d.storage.Same b) : StandsFor serde secret { d with storage := b } s :=
  ⟨same.cipher.trans stands.cipher,
    fun c => (stands.tables c).of_content same.cipher (congrFun same.content _), stands.decodes,
    stands.commits, stands.clock⟩

/-- The calls that leave the tables alone are answered from the memory. -/
def Op.InMemory : Op → Prop
  | .now | .randomBytes32 | .randomU32 | .pushCommit _ _ | .takeCommit _ _
  | .takeCommitInOrder _ _ | .reapCommits _ | .sendMail _ _ | .sign _ => True
  | _ => False

theorem takeCommit_memory (stands : StandsFor serde secret d s)
    (remove : List CommitEntry → Nat → List CommitEntry) (client commitId : Str) :
    (s.takeCommit remove client commitId).1 = (d.memory.takeCommit remove client commitId).1 ∧
      (s.takeCommit remove client commitId).2 = { s with commitsByClient :=
        (d.memory.takeCommit remove client commitId).2.commitsByClient } := by
  have pending : d.memory.pending client = s.pending client := by
    simp only [State.pending, Disk.memory, stands.commits]
  have commits : d.memory.commitsByClient = s.commitsByClient := stands.commits
  unfold State.takeCommit
  rw [pending, commits]
  dsimp only
  split
  · exact ⟨rfl, by rw [commits]⟩
  · exact ⟨rfl, rfl⟩

variable (signing) in
theorem exec_inMemory (stands : StandsFor serde secret d s) {o : Op} (inMemory : o.InMemory) (e : Env) :
    (exec signing o e s).1 = (exec signing o e d.memory).1 ∧
      (exec signing o e s).2 = { s with
        commitsByClient := (exec signing o e d.memory).2.commitsByClient,
        clock := (exec signing o e d.memory).2.clock } := by
  have commits : d.memory.commitsByClient = s.commitsByClient := stands.commits
  have clock : d.memory.clock = s.clock := stands.clock
  have pending : ∀ client, d.memory.pending client = s.pending client := by
    simp only [State.pending, commits, implies_true]
  cases o with
  | get c key => cases inMemory
  | set c key value => cases inMemory
  | delete c key => cases inMemory
  | entries c => cases inMemory
  | mapEntries c => cases inMemory
  | now => simp only [exec, commits, true_and]
  | randomBytes32 => simp only [exec, commits, clock, true_and]
  | randomU32 => simp only [exec, commits, clock, true_and]
  | pushCommit client entry => simp only [exec, commits, clock, pending, true_and]
  | takeCommit client commitId =>
    obtain ⟨answer, after⟩ := takeCommit_memory stands swapRemove client commitId
    obtain ⟨_, taken⟩ := takeCommit_state d.memory swapRemove client commitId
    refine ⟨answer, ?_⟩
    simp only [exec]
    rw [after, taken, clock]
  | takeCommitInOrder client commitId =>
    obtain ⟨answer, after⟩ := takeCommit_memory stands List.eraseIdx client commitId
    obtain ⟨_, taken⟩ := takeCommit_state d.memory List.eraseIdx client commitId
    refine ⟨answer, ?_⟩
    simp only [exec]
    rw [after, taken, clock]
  | reapCommits cutoff =>
    simp only [exec, State.reapCommits, commits, clock, pending, true_and]
  | sendMail recipient otp => simp only [exec, commits, clock, true_and]
  | sign input => simp only [exec, commits, clock, true_and]

omit [Sha2] [Sled] [LawfulSled] [XChaCha20Poly1305] in
theorem mem_mapOf {V : Type} {l : List (Str × V)} (keys : (l.map Prod.fst).Nodup) (key : Str)
    (value : V) : (mapOf l).get key = some value ↔ (key, value) ∈ l := by
  induction l with
  | nil => simp [mapOf]
  | cons entry l ih =>
    obtain ⟨key', value'⟩ := entry
    simp only [List.map_cons, List.nodup_cons] at keys
    rw [mapOf, Table.get_set]
    by_cases same : key = key'
    · subst same
      have absent : (key, value) ∉ l := fun listed => keys.1 (List.mem_map_of_mem listed)
      simp [absent, eq_comm]
    · simp [same, ih keys.2]

omit [Sha2] [Sled] [LawfulSled] [XChaCha20Poly1305] in
/-- A table and the map of its entries can be walked in the same order. -/
theorem mapOf_alike {V : Type} (t : Table V) :
    (∀ rank : Str → Nat, ∃ rank' : Str → Nat,
      t.entries (fun a b => decide (rank' a ≤ rank' b)) =
        (mapOf (t.entries keyBefore)).entries fun a b => decide (rank a ≤ rank b)) ∧
    ∀ rank : Str → Nat, ∃ rank' : Str → Nat,
      (mapOf (t.entries keyBefore)).entries (fun a b => decide (rank' a ≤ rank' b)) =
        t.entries fun a b => decide (rank a ≤ rank b) := by
  have same : ∀ key value, (mapOf (t.entries keyBefore)).get key = some value ↔
      t.get key = some value := by
    intro key value
    have listed := mem_mapOf (keys_sortedEntries_nodup keyBefore t) key value
    exact listed.trans (mem_sortedEntries _ _ _ _)
  have keys : ∀ (rank : Str → Nat) {V : Type} (t : Table V),
      ((t.entries fun a b => decide (rank a ≤ rank b)).map Prod.fst).Nodup :=
    fun rank V t => keys_sortedEntries_nodup (fun a b => decide (rank a ≤ rank b)) t
  constructor
  · intro rank
    refine exists_rank _ (keys rank _) fun key value => ?_
    rw [Table.mem_entries]
    exact same key value
  · intro rank
    refine exists_rank _ (keys rank _) fun key value => ?_
    rw [Table.mem_entries]
    exact (same key value).symm

/-- One collection and its table are replaced.  What is new in the table has to decode. -/
theorem StandsFor.replace (stands : StandsFor serde secret d s) {c : Coll} {b : SledBackend}
    {t : Table c.Val} (cipher : b.cipher = d.storage.cipher)
    (others : ∀ name, name ≠ c.name → b.content name = d.storage.content name)
    (own : (collection serde c).StandsFor b t)
    (storable : ∀ key value, t.get key = some value →
      (s.table c).get key = some value ∨ c.Storable value) :
    StandsFor serde secret { d with storage := b } (s.setTable c t) := by
  refine ⟨cipher.trans stands.cipher, fun c' => ?_, fun key session found => ?_, ?_, ?_⟩
  · by_cases same : c' = c
    · subst same
      rw [State.table_setTable]
      exact own
    · rw [State.table_setTable_ne same]
      have apart : c'.name ≠ c.name := fun equal => same (Coll.name_injective equal)
      exact (stands.tables c').of_content cipher (others _ apart)
  · by_cases same : sessions = c
    · subst same
      cases storable key session found with
      | inl before => exact stands.decodes key session before
      | inr storable => exact storable
    · refine stands.decodes key session ?_
      rw [← found]
      exact congrArg (fun table : Table SignerSession => table.get key)
        (State.table_setTable_ne same s t).symm
  · rw [stands.commits]
    cases c <;> rfl
  · rw [stands.clock]
    cases c <;> rfl

variable [FaultlessSled]

theorem StandsFor.delete (stands : StandsFor serde secret d s) (c : Coll) (key : Str) :
    ∃ b, (collection serde c).delete d.storage key = some (((s.table c).get key).isSome, b) ∧
      StandsFor serde secret { d with storage := b } (s.setTable c ((s.table c).delete key)) := by
  obtain ⟨b, done, cipher, others, own⟩ := (stands.tables c).delete key
  refine ⟨b, done, stands.replace cipher others own fun key' value found => .inl ?_⟩
  rw [Table.get_delete] at found
  split at found
  · cases found
  · exact found

variable [LawfulCipher]

theorem StandsFor.set (stands : StandsFor serde secret d s) {c : Coll} {key : Str} {value : c.Val}
    (keeps : (serde c).Keeps value) (storable : c.Storable value) (nonce : Bytes 24) :
    ∃ b, (collection serde c).set d.storage nonce key value = some b ∧
      StandsFor serde secret { d with storage := b } (s.setTable c ((s.table c).set key value)) := by
  obtain ⟨b, done, cipher, others, own⟩ := (stands.tables c).set nonce key keeps
  refine ⟨b, done, stands.replace cipher others own fun key' value' found => ?_⟩
  rw [Table.get_set] at found
  split at found
  · cases found
    exact .inr storable
  · exact .inl found

variable (signing) in
/-- A call on the database does what it does on the tables. -/
theorem exec_alike (keeps : ∀ c value, c.Storable value → (serde c).Keeps value)
    (stands : StandsFor serde secret d s) {o : Op} (storable : o.Storable)
    (ordered : ∀ c, o ≠ .mapEntries c) (e : Env) (nonce : Bytes 24) :
    ∃ d', diskExec signing serde o (e, nonce) d = some ((exec signing o e s).1, d') ∧
      StandsFor serde secret d' (exec signing o e s).2 := by
  -- The calls that have nothing to do with the database.
  have inMemory : o.InMemory → diskExec signing serde o (e, nonce) d =
      some ((exec signing o e d.memory).1, { d with
        commitsByClient := (exec signing o e d.memory).2.commitsByClient,
        clock := (exec signing o e d.memory).2.clock }) →
      ∃ d', diskExec signing serde o (e, nonce) d = some ((exec signing o e s).1, d') ∧
        StandsFor serde secret d' (exec signing o e s).2 := by
    intro inMemory outcome
    obtain ⟨answer, after⟩ := exec_inMemory signing stands inMemory e
    rw [outcome, after, ← answer]
    exact ⟨_, rfl, stands.memory _ _⟩
  cases o with
  | get c key =>
    obtain ⟨b, found, same⟩ := (stands.tables c).get key
    exact ⟨{ d with storage := b }, by rw [diskExec, found]; rfl, stands.read same⟩
  | set c key value =>
    obtain ⟨b, done, after⟩ := stands.set (keeps c value storable.value) storable.value nonce
    exact ⟨{ d with storage := b }, by rw [diskExec, done]; rfl, after⟩
  | delete c key =>
    obtain ⟨b, done, after⟩ := stands.delete c key
    exact ⟨{ d with storage := b }, by rw [diskExec, done]; rfl, after⟩
  | entries c =>
    obtain ⟨b, walked, same⟩ := (stands.tables c).entries
    exact ⟨{ d with storage := b }, by rw [diskExec, walked]; rfl, stands.read same⟩
  | mapEntries c => exact absurd rfl (ordered c)
  | now => exact inMemory trivial rfl
  | randomBytes32 => exact inMemory trivial rfl
  | randomU32 => exact inMemory trivial rfl
  | pushCommit client entry => exact inMemory trivial rfl
  | takeCommit client commitId => exact inMemory trivial rfl
  | takeCommitInOrder client commitId => exact inMemory trivial rfl
  | reapCommits cutoff => exact inMemory trivial rfl
  | sendMail recipient otp => exact inMemory trivial rfl
  | sign input => exact inMemory trivial rfl

omit [LawfulCipher] in
variable (signing) in
/-- The entries are gathered from the database as from the tables. -/
theorem mapEntries_exec (stands : StandsFor serde secret d s) (c : Coll) (e : Env)
    (nonce : Bytes 24) :
    ∃ d', diskExec signing serde (.mapEntries c) (e, nonce) d =
        some ((mapOf ((s.table c).entries keyBefore)).entries
          fun a b => decide (e.rank a ≤ e.rank b), d') ∧
      StandsFor serde secret d' s := by
  obtain ⟨b, walked, same⟩ := (stands.tables c).entries
  exact ⟨{ d with storage := b }, by rw [diskExec, walked]; rfl, stands.read same⟩

variable (signing) in
omit [Sha2] [Sled] [LawfulSled] [XChaCha20Poly1305] [FaultlessSled] [LawfulCipher] in
/-- A session that is read from tables whose sessions decode has been decoded. -/
theorem decoded_exec (decodes : ∀ key session, s.sessions.get key = some session → session.Decodes)
    (o : Op) (e : Env) : Decoded o (exec signing o e s).1 := by
  intro key session same
  cases o with
  | get c key' =>
    cases c with
    | sessions =>
      simp only [Call.mk.injEq, Op.get.injEq, true_and] at same
      obtain ⟨own, found⟩ := same
      exact decodes key' session (eq_of_heq found)
    | _ => simp at same
  | _ => simp at same

end Calls

/-! ## Runs -/

section Runs

variable (Pt : Type) [AddCommGroup Pt] [Module Scalar Pt] [Curve Pt] [Sha2] [Argon2]
variable [Sled] [XChaCha20Poly1305] (options : SignerOptions) (serde : Serdes) (secret : Str)
variable (R : Nat → Nat → Prop)

/-- A new database. -/
def DiskOpened (d : Disk) : Prop :=
  ∃ db clock, Sled.Created db ∧
    d = { storage := SledBackend.openEncrypted db secret, commitsByClient := ∅, clock }

/-- The database was dropped and is opened again with the same secret. -/
def DiskRestarts (d d' : Disk) : Prop :=
  ∃ db clock, Sled.Reopened d.storage.db db ∧ R d.clock clock ∧
    d' = { storage := SledBackend.openEncrypted db secret, commitsByClient := ∅, clock }

/-- Only the pending commitments are lost. -/
def Restarts (s s' : State) : Prop :=
  ∃ clock, R s.clock clock ∧ s' = { s with commitsByClient := ∅, clock }

/-- What the signer reaches on its database, in the first process or in a later one. -/
abbrev DiskLives : Pool (Job Auth) Op Ans Response Disk → Prop :=
  Pool.Lifetimes (diskWorld (createPsigPkgWithNonce Pt) serde R) (handle Pt options)
    (Pool.Elapses (fun time d => R d.clock time) fun time d => { d with clock := time })
    (DiskOpened secret) (DiskRestarts secret R)

abbrev TableLives : SignerPool Auth → Prop :=
  Pool.Lifetimes (rustWorld Pt R) (handle Pt options) (TimePasses R) Opened (Restarts R)

variable {Pt options serde secret R} [LawfulSled] [FaultlessSled] [LawfulCipher]

omit [Argon2] in
theorem disk_answers (keeps : ∀ c value, c.Storable value → (serde c).Keeps value) :
    Pool.Answers (diskWorld (createPsigPkgWithNonce Pt) serde R) (rustWorld Pt R)
      (StandsFor serde secret) Op.Storable Decoded := by
  intro o d s answer d' storable stands step
  obtain ⟨⟨e, nonce⟩, permitted, outcome⟩ := step
  by_cases map : ∃ c, o = .mapEntries c
  · obtain ⟨c, rfl⟩ := map
    obtain ⟨_, gathered, still⟩ := mapEntries_exec (createPsigPkgWithNonce Pt) stands c e nonce
    rw [outcome] at gathered
    cases gathered
    obtain ⟨rank, alike⟩ := (mapOf_alike (s.table c)).1 e.rank
    refine ⟨fun key session same => by simp at same, s, ⟨{ e with rank }, trivial, ?_⟩, still⟩
    exact Prod.ext alike rfl
  · obtain ⟨_, answers, still⟩ := exec_alike (createPsigPkgWithNonce Pt) keeps stands
      storable (fun c same => map ⟨c, same⟩) e nonce
    rw [outcome] at answers
    cases answers
    refine ⟨decoded_exec _ stands.decodes o e, _, ⟨e, ?_, rfl⟩, still⟩
    cases o with
    | now =>
      have permitted : R d.clock e.now := permitted
      rw [stands.clock] at permitted
      exact permitted
    | _ => trivial

omit [Argon2] in
theorem tables_answer (keeps : ∀ c value, c.Storable value → (serde c).Keeps value) :
    Pool.Answers (rustWorld Pt R) (diskWorld (createPsigPkgWithNonce Pt) serde R)
      (fun s d => StandsFor serde secret d s) Op.Storable Decoded := by
  intro o s d answer s' storable stands step
  obtain ⟨e, permitted, outcome⟩ := step
  have decoded : Decoded o answer := by
    have := decoded_exec (createPsigPkgWithNonce Pt) stands.decodes o e
    rwa [outcome] at this
  refine ⟨decoded, ?_⟩
  by_cases map : ∃ c, o = .mapEntries c
  · obtain ⟨c, rfl⟩ := map
    obtain ⟨rank, alike⟩ := (mapOf_alike (s.table c)).2 e.rank
    obtain ⟨d', gathered, still⟩ := mapEntries_exec (createPsigPkgWithNonce Pt) stands c
      { e with rank } (Bytes.ofNat 24 0)
    cases outcome
    refine ⟨d', ⟨({ e with rank }, Bytes.ofNat 24 0), trivial, ?_⟩, still⟩
    rw [gathered]
    exact congrArg (fun entries => some (entries, d')) alike
  · obtain ⟨d', answers, still⟩ := exec_alike (createPsigPkgWithNonce Pt) keeps stands
      storable (fun c same => map ⟨c, same⟩) e (Bytes.ofNat 24 0)
    rw [outcome] at answers still
    refine ⟨d', ⟨(e, Bytes.ofNat 24 0), ?_, answers⟩, still⟩
    cases o with
    | now =>
      have permitted : R s.clock e.now := permitted
      rw [← stands.clock] at permitted
      exact permitted
    | _ => trivial

omit [Argon2] [FaultlessSled] [LawfulCipher] in
theorem stands_opened {db : Sled.Db} (created : Sled.Created db) (clock : Nat) :
    StandsFor serde secret
      { storage := SledBackend.openEncrypted db secret, commitsByClient := ∅, clock }
      (State.opened clock) := by
  have blank : ∀ name, (SledBackend.openEncrypted db secret).content name = ∅ :=
    LawfulSled.created created
  refine ⟨rfl, fun c => ⟨fun key => ?_, fun k v found => ?_⟩, fun key session found => ?_, rfl, rfl⟩
  · have empty : (State.opened clock).table c = ∅ := by cases c <;> rfl
    rw [empty, Table.get_empty, blank]
    rfl
  · rw [blank] at found
    cases found
  · cases found

omit [Argon2] [FaultlessSled] [LawfulCipher] in
theorem StandsFor.restart {d : Disk} {s : State} (stands : StandsFor serde secret d s)
    {db : Sled.Db} (reopened : Sled.Reopened d.storage.db db) (clock : Nat) :
    StandsFor serde secret
      { storage := SledBackend.openEncrypted db secret, commitsByClient := ∅, clock }
      { s with commitsByClient := ∅, clock } := by
  have same : d.storage.Same (SledBackend.openEncrypted db secret) :=
    ⟨stands.cipher.symm, LawfulSled.reopened reopened⟩
  exact (stands.read same).memory _ _

/-- The signer behaves on its database as it does on the tables, in every process and however
its requests interleave; and the database always holds the tables. -/
theorem disk_lives_as_tables (keeps : ∀ c value, c.Storable value → (serde c).Keeps value) :
    (∀ p, DiskLives Pt options serde secret R p →
      ∃ p', TableLives Pt options R p' ∧ p.Matches (StandsFor serde secret) p') ∧
    ∀ p', TableLives Pt options R p' →
      ∃ p, DiskLives Pt options serde secret R p ∧
        p'.Matches (fun s d => StandsFor serde secret d s) p := by
  constructor
  · intro p lives
    refine lives.simulate (disk_answers keeps) ?_ ?_ (handle_honest options) ?_
    · rintro d s _ stands ⟨time, later, rfl⟩
      rw [stands.clock] at later
      exact ⟨_, ⟨time, later, rfl⟩, stands.elapse time⟩
    · rintro d s _ stands ⟨db, clock, reopened, later, rfl⟩
      rw [stands.clock] at later
      exact ⟨_, ⟨clock, later, rfl⟩, stands.restart reopened clock⟩
    · rintro _ ⟨db, clock, created, rfl⟩
      exact ⟨_, ⟨clock, rfl⟩, stands_opened created clock⟩
  · intro p' lives
    refine lives.simulate (tables_answer keeps) ?_ ?_ (handle_honest options) ?_
    · rintro s d _ stands ⟨time, later, rfl⟩
      rw [← stands.clock] at later
      exact ⟨_, ⟨time, later, rfl⟩, stands.elapse time⟩
    · rintro s d _ stands ⟨clock, later, rfl⟩
      rw [← stands.clock] at later
      obtain ⟨db, reopened⟩ := FaultlessSled.reopened d.storage.db
      exact ⟨_, ⟨db, clock, reopened, later, rfl⟩, stands.restart reopened clock⟩
    · rintro _ ⟨clock, rfl⟩
      obtain ⟨db, created⟩ := FaultlessSled.created
      exact ⟨_, ⟨db, clock, created, rfl⟩, stands_opened created clock⟩

end Runs

/-! ## A signer that is started again -/

section Countable

/-- Values of a countable type can be written down. -/
theorem exists_serde (V : Type) [Countable V] : ∃ serde : Serde V, ∀ value, serde.Keeps value := by
  obtain ⟨number, distinct⟩ := exists_injective_nat V
  refine ⟨{ toVec := fun value => some (List.replicate (number value) 0)
            fromSlice := fun bytes => (Function.partialInv number) bytes.length }, fun value => ?_⟩
  refine ⟨_, rfl, ?_⟩
  dsimp only
  rw [List.length_replicate]
  exact Function.partialInv_left distinct value

instance countableChar : Countable Char :=
  Function.Injective.countable fun (_ _ : Char) same => Char.ext (UInt32.toNat_inj.mp same)

instance countableUInt32 : Countable UInt32 :=
  Function.Injective.countable fun _ _ same => UInt32.toNat_inj.mp same

instance : Countable Commit :=
  Function.Injective.countable (f := fun c : Commit => (c.idx, c.pubkey, c.hiddenPn, c.binderPn))
    fun a b same => by cases a; cases b; simpa using same

instance : Countable Group :=
  Function.Injective.countable (f := fun g : Group => (g.commits, g.groupPk, g.threshold))
    fun a b same => by cases a; cases b; simpa using same

instance : Countable Share :=
  Function.Injective.countable (f := fun s : Share => (s.idx, s.seckey))
    fun a b same => by cases a; cases b; simpa using same

instance : Countable SignerSession :=
  Function.Injective.countable
    (f := fun s : SignerSession => (s.client, s.share, s.group, s.recovery, s.createdAt,
      s.deactivatedAt, s.lastActivity, s.email, s.emailHash, s.passwordHash))
    fun a b same => by cases a; cases b; simpa using same

instance : Countable SessionIndex :=
  Function.Injective.countable (f := SessionIndex.clients)
    fun a b same => by cases a; cases b; simpa using same

instance : Countable SignerRecovery :=
  Function.Injective.countable (f := fun r : SignerRecovery => (r.createdAt, r.clients))
    fun a b same => by cases a; cases b; simpa using same

instance : Countable SignerLogin :=
  Function.Injective.countable (f := fun l : SignerLogin => (l.createdAt, l.clients))
    fun a b same => by cases a; cases b; simpa using same

instance : Countable SignerChallenge :=
  Function.Injective.countable (f := fun c : SignerChallenge => (c.createdAt, c.otp))
    fun a b same => by cases a; cases b; simpa using same

instance : Countable RateLimitBucket :=
  Function.Injective.countable
    (f := fun b : RateLimitBucket => (b.attempts, b.firstAttempt, b.lastAttempt))
    fun a b same => by cases a; cases b; simpa using same

theorem exists_serdes : ∃ serde : Serdes, ∀ c value, (serde c).Keeps value := by
  have each : ∀ c : Coll, ∃ serde : Serde c.Val, ∀ value, serde.Keeps value := by
    intro c
    cases c <;> exact exists_serde _
  exact ⟨fun c => (each c).choose, fun c => (each c).choose_spec⟩

end Countable

namespace Sample

def tagged (plaintext : List UInt8) : List UInt8 := plaintext ++ List.replicate 16 0

def untagged (ciphertext : List UInt8) : Option (List UInt8) :=
  if ciphertext.drop (ciphertext.length - 16) = List.replicate 16 0 then
    some (ciphertext.take (ciphertext.length - 16))
  else none

/-- A cipher that only appends its tag. -/
@[reducible] def cipher : XChaCha20Poly1305 where
  encrypt _ _ plaintext := some (tagged plaintext)
  decrypt _ _ := untagged

theorem lawful_cipher : @LawfulCipher cipher := by
  refine @LawfulCipher.mk cipher fun key nonce plaintext => ⟨tagged plaintext, rfl, ?_, ?_⟩
  · simp [tagged]
  · show untagged (tagged plaintext) = some plaintext
    simp [untagged, tagged]

/-- A database in memory, which is always there. -/
@[reducible] def sled : Sled where
  Db := Str → TreeContent
  Fault := Empty
  openTree db _ := (.ok (), db)
  get db name key := (.ok ((db name).lookup key), db)
  insert db name key value :=
    (.ok ((db name).lookup key), Function.update db name ((db name).insert key value))
  remove db name key :=
    (.ok ((db name).lookup key), Function.update db name ((db name).erase key))
  iter db name := ((sortedEntries bytesBefore (db name)).map .ok, db)
  Created db := db = fun _ => ∅
  Reopened db db' := db' = db

@[reducible] def lawfulSled : @LawfulSled sled :=
  @LawfulSled.mk sled (fun db => db)
    (fun done => by cases done; rfl)
    (fun done => by cases done; exact ⟨rfl, rfl⟩)
    (fun done => by cases done; rfl)
    (fun done => by cases done; exact ⟨rfl, rfl⟩)
    (fun done => by
      have injective : Function.Injective (Except.ok : _ → Except Empty (List UInt8 × List UInt8)) :=
        fun _ _ same => Except.ok.inj same
      have walked := (Prod.mk.inj done).1
      exact ⟨(injective.list_map walked).symm, (Prod.mk.inj done).2.symm⟩)
    (fun created name => congrFun created name)
    (fun reopened => reopened)

theorem faultlessSled : @FaultlessSled sled :=
  @FaultlessSled.mk sled (fun db _ => ⟨db, rfl⟩) (fun db _ _ => ⟨_, db, rfl⟩)
    (fun _ _ _ _ => ⟨_, _, rfl⟩) (fun _ _ _ => ⟨_, _, rfl⟩) (fun db _ => ⟨_, db, rfl⟩)
    ⟨fun _ => ∅, rfl⟩ fun db => ⟨db, rfl⟩

/-- A client registers and makes a commitment. -/
def prepared : List (Pool.Choice (Job Auth) Nat Env) :=
  alone 0 (register (clientKey 7) [1]) 1000 ++ alone 1 (signCommit (clientKey 7)) 1001

end Sample

/-- A client has registered and made a commitment, and the signer is started again: on the
database the session is still there, and the commitment is lost. -/
theorem disk_lives_as_tables_restarted :
    let _ := Sample.sha2
    let _ := Sample.argon2
    let _ := Sample.cipher
    let _ := Sample.sled
    ∃ (serde : Serdes) (p : Pool (Job Auth) Op Ans Response Disk),
      DiskLives Scalar Sample.options serde Sample.email (· ≤ ·) p ∧ p.threads = [] ∧
      ((collection serde sessions).get p.state.storage (Sample.clientKey 7).pubkey).any
        (fun found => found.1.isSome) = true ∧
      (Sample.playPool Sample.prepared).state.commitsByClient ≠ ∅ ∧
      p.state.commitsByClient = ∅ := by
  intro _ _ _ _
  have lawful := Sample.lawful_cipher
  let _ := Sample.lawfulSled
  have faultless := Sample.faultlessSled
  obtain ⟨serde, keeps⟩ := exists_serdes
  have reach : RustPool Scalar Sample.options (· ≤ ·) Pool.Free (Sample.playPool Sample.prepared) :=
    Sample.playPool_reach _ (by decide +kernel)
  have registered : ((Sample.playPool Sample.prepared).state.sessions.get
      (Sample.clientKey 7).pubkey).isSome = true := by decide +kernel
  have committed : ((Sample.playPool Sample.prepared).state.commitsByClient.get
      (Sample.clientKey 7).pubkey).isSome = true := by decide +kernel
  generalize Sample.playPool Sample.prepared = q at reach registered committed ⊢
  have again : TableLives Scalar Sample.options (· ≤ ·)
      ⟨{ q.state with commitsByClient := ∅, clock := q.state.clock }, [], []⟩ :=
    .next (.first reach) (.start _ ⟨_, le_refl _, rfl⟩)
  have lived : ∀ p', TableLives Scalar Sample.options (· ≤ ·) p' →
      ∃ p, DiskLives Scalar Sample.options serde Sample.email (· ≤ ·) p ∧
        p'.Matches (fun s d => StandsFor serde Sample.email d s) p :=
    (disk_lives_as_tables fun c value _ => keeps c value).2
  obtain ⟨p, lives, alike⟩ := lived _ again
  refine ⟨serde, p, lives, alike.threads.symm, ?_, fun empty => ?_, alike.state.commits⟩
  · obtain ⟨_, found, _⟩ := (alike.state.tables sessions).get (Sample.clientKey 7).pubkey
    rw [found]
    exact registered
  · rw [empty] at committed
    cases committed

end Pomade.Signer
