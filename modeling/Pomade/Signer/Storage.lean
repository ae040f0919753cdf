import Pomade.Lib.Ordered
import Pomade.Signer.Store

/-! # The database

`storage.rs`: typed collections over trees of byte strings, whose values are encrypted one by
one with a nonce of their own.  `sled`, the cipher and `serde_json` are given.  What is relied on
is that a tree is a map in the order of its keys, that nothing fails, and that what is written is
read back.
-/

namespace Pomade.Signer

open Pomade.Lib Pomade.Frost

/-! ## What is given -/

/-- The `sled` crate.  A call answers or fails, and leaves a database; a tree is named whenever
it is used. -/
class Sled where
  Db : Type
  Fault : Type
  openTree : Db → (name : Str) → Except Fault Unit × Db
  get : Db → (name : Str) → (key : List UInt8) → Except Fault (Option (List UInt8)) × Db
  insert : Db → (name : Str) → (key value : List UInt8) → Except Fault (Option (List UInt8)) × Db
  remove : Db → (name : Str) → (key : List UInt8) → Except Fault (Option (List UInt8)) × Db
  iter : Db → (name : Str) → List (Except Fault (List UInt8 × List UInt8)) × Db
  /-- A database that is opened where there was none. -/
  Created : Db → Prop
  /-- A database that is dropped in order, which flushes it, and is opened again. -/
  Reopened : Db → Db → Prop

/-- What a tree holds. -/
abbrev TreeContent : Type := AList fun _ : List UInt8 => List UInt8

/-- What `sled` documents of the calls that do not fail. -/
class LawfulSled [Sled] where
  content : Sled.Db → Str → TreeContent
  openTree : ∀ {db db' : Sled.Db} {name}, Sled.openTree db name = (.ok (), db') →
    content db' = content db
  get : ∀ {db db' : Sled.Db} {name key answer}, Sled.get db name key = (.ok answer, db') →
    answer = (content db name).lookup key ∧ content db' = content db
  insert : ∀ {db db' : Sled.Db} {name key value old},
    Sled.insert db name key value = (.ok old, db') →
      content db' = Function.update (content db) name ((content db name).insert key value)
  remove : ∀ {db db' : Sled.Db} {name key old}, Sled.remove db name key = (.ok old, db') →
    old = (content db name).lookup key ∧
      content db' = Function.update (content db) name ((content db name).erase key)
  iter : ∀ {db db' : Sled.Db} {name} {entries : List (List UInt8 × List UInt8)},
    Sled.iter db name = (entries.map .ok, db') →
      entries = sortedEntries bytesBefore (content db name) ∧ content db' = content db
  created : ∀ {db : Sled.Db}, Sled.Created db → ∀ name, content db name = ∅
  reopened : ∀ {db db' : Sled.Db}, Sled.Reopened db db' → content db' = content db

/-- No call fails, and a database can be created and opened again. -/
class FaultlessSled [Sled] : Prop where
  openTree : ∀ (db : Sled.Db) name, ∃ db', Sled.openTree db name = (.ok (), db')
  get : ∀ (db : Sled.Db) name key, ∃ answer db', Sled.get db name key = (.ok answer, db')
  insert : ∀ (db : Sled.Db) name key value, ∃ old db',
    Sled.insert db name key value = (.ok old, db')
  remove : ∀ (db : Sled.Db) name key, ∃ old db', Sled.remove db name key = (.ok old, db')
  iter : ∀ (db : Sled.Db) name, ∃ entries db', Sled.iter db name = (List.map .ok entries, db')
  created : ∃ db : Sled.Db, Sled.Created db
  reopened : ∀ db : Sled.Db, ∃ db', Sled.Reopened db db'

/-- `XChaCha20Poly1305` of the `chacha20poly1305` crate, without associated data. -/
class XChaCha20Poly1305 where
  encrypt : (key : Bytes 32) → (nonce : Bytes 24) → (plaintext : List UInt8) → Option (List UInt8)
  decrypt : (key : Bytes 32) → (nonce : Bytes 24) → (ciphertext : List UInt8) → Option (List UInt8)

/-- Every plaintext is encrypted to a ciphertext that it is decrypted from.  A ciphertext carries
a tag, so that it is never empty. -/
class LawfulCipher [XChaCha20Poly1305] : Prop where
  decrypt_encrypt : ∀ key nonce plaintext, ∃ ciphertext,
    XChaCha20Poly1305.encrypt key nonce plaintext = some ciphertext ∧ ciphertext ≠ [] ∧
      XChaCha20Poly1305.decrypt key nonce ciphertext = some plaintext

/-- `serde_json::to_vec` and `serde_json::from_slice` at one type. -/
structure Serde (V : Type) where
  toVec : V → Option (List UInt8)
  fromSlice : List UInt8 → Option V

/-- A value that is written can be read again. -/
def Serde.Keeps {V : Type} (serde : Serde V) (value : V) : Prop :=
  ∃ bytes, serde.toVec value = some bytes ∧ serde.fromSlice bytes = some value

/-! ## The sled backend -/

structure SledBackend [Sled] where
  db : Sled.Db
  cipher : Option (Bytes 32)

def nonceLen : Nat := 24

namespace SledBackend

variable [Sled]

/-- The secret is hashed to the key.  Only the tests open a database without one. -/
def openEncrypted [Sha2] (db : Sled.Db) (secret : Str) : SledBackend :=
  { db, cipher := some (Sha2.sha256 (textBytes secret)) }

/-- `none` where the `expect` panics, as in all that follows. -/
def tree (b : SledBackend) (collection : Str) : Option SledBackend :=
  match Sled.openTree b.db collection with
  | (.ok (), db) => some { b with db }
  | (.error _, _) => none

variable [XChaCha20Poly1305]

/-- `nonce` is drawn from the random generator of the system. -/
def encode (b : SledBackend) (nonce : Bytes 24) (plaintext : List UInt8) : Option (List UInt8) :=
  match b.cipher with
  | none => some plaintext
  | some key =>
    (XChaCha20Poly1305.encrypt key nonce plaintext).map fun ciphertext => nonce.data ++ ciphertext

def decode (b : SledBackend) (value : List UInt8) : Option (List UInt8) :=
  match b.cipher with
  | none => some value
  | some key =>
    if value.length ≤ nonceLen then none
    else do
      let nonce ← Bytes.ofList 24 (value.take nonceLen)
      XChaCha20Poly1305.decrypt key nonce (value.drop nonceLen)

/-- A call that fails is a key that is not there. -/
def get (b : SledBackend) (collection key : Str) :
    Option (Option (List UInt8) × SledBackend) := do
  let b ← b.tree collection
  let (answer, db) := Sled.get b.db collection (textBytes key)
  let raw := answer.toOption.join
  return (raw.bind b.decode, { b with db })

/-- Whether the call fails is ignored. -/
def set (b : SledBackend) (nonce : Bytes 24) (collection key : Str) (value : List UInt8) :
    Option SledBackend := do
  let b ← b.tree collection
  let value ← b.encode nonce value
  let (_, db) := Sled.insert b.db collection (textBytes key) value
  return { b with db }

def delete (b : SledBackend) (collection key : Str) : Option (Bool × SledBackend) := do
  let b ← b.tree collection
  let (old, db) := Sled.remove b.db collection (textBytes key)
  return (old.toOption.join.isSome, { b with db })

/-- What fails, or is not decoded, is left out. -/
def entries (b : SledBackend) (collection : Str) :
    Option (List (Str × List UInt8) × SledBackend) := do
  let b ← b.tree collection
  let (walked, db) := Sled.iter b.db collection
  let entries := (walked.filterMap Except.toOption).filterMap fun (k, v) => do
    let key ← fromUtf8 k
    let value ← b.decode v
    return (key, value)
  return (entries, { b with db })

end SledBackend

/-! ## Collections -/

structure Collection (V : Type) where
  name : Str
  serde : Serde V

namespace Collection

variable [Sled] [XChaCha20Poly1305] {V : Type} (c : Collection V) (b : SledBackend)

def get (key : Str) : Option (Option V × SledBackend) := do
  let (bytes, b) ← b.get c.name key
  return (bytes.bind c.serde.fromSlice, b)

def set (nonce : Bytes 24) (key : Str) (value : V) : Option SledBackend :=
  match c.serde.toVec value with
  | some bytes => b.set nonce c.name key bytes
  | none => some b

def delete (key : Str) : Option (Bool × SledBackend) := b.delete c.name key

def entries : Option (List (Str × V) × SledBackend) := do
  let (walked, b) ← b.entries c.name
  let entries := walked.filterMap fun (k, v) => do
    let value ← c.serde.fromSlice v
    return (k, value)
  return (entries, b)

end Collection

/-! ## What is stored -/

section Backend

variable [Sled] [LawfulSled] [FaultlessSled]

/-- What the trees hold. -/
def SledBackend.content (b : SledBackend) : Str → TreeContent := LawfulSled.content b.db

/-- Two handles to the same content under the same key. -/
structure SledBackend.Same (b b' : SledBackend) : Prop where
  cipher : b'.cipher = b.cipher
  content : b'.content = b.content

namespace SledBackend

variable {b : SledBackend}

theorem tree_spec (b : SledBackend) (collection : Str) :
    ∃ b', b.tree collection = some b' ∧ b.Same b' := by
  obtain ⟨db', opened⟩ := FaultlessSled.openTree b.db collection
  refine ⟨{ b with db := db' }, ?_, rfl, LawfulSled.openTree opened⟩
  rw [tree, opened]

variable [XChaCha20Poly1305]

omit [FaultlessSled] in
theorem Same.decode {b' : SledBackend} (same : b.Same b') : b'.decode = b.decode := by
  funext value
  simp only [SledBackend.decode, same.cipher]

theorem get_spec (b : SledBackend) (collection key : Str) :
    ∃ b', b.get collection key =
      some (((b.content collection).lookup (textBytes key)).bind b.decode, b') ∧ b.Same b' := by
  obtain ⟨b₁, opened, same⟩ := tree_spec b collection
  obtain ⟨answer, db', found⟩ := FaultlessSled.get b₁.db collection (textBytes key)
  obtain ⟨rfl, kept⟩ := LawfulSled.get found
  refine ⟨{ b₁ with db := db' }, ?_, same.cipher, kept.trans same.content⟩
  have content : LawfulSled.content b₁.db collection = b.content collection :=
    congrFun same.content collection
  simp only [SledBackend.get, opened, Option.bind_eq_bind, Option.bind_some, found, content,
    same.decode]
  rfl

theorem set_spec (b : SledBackend) (collection key : Str) {nonce : Bytes 24} {value raw : List UInt8}
    (encoded : b.encode nonce value = some raw) :
    ∃ b', b.set nonce collection key value = some b' ∧ b'.cipher = b.cipher ∧
      b'.content = Function.update b.content collection
        ((b.content collection).insert (textBytes key) raw) := by
  obtain ⟨b₁, opened, same⟩ := tree_spec b collection
  obtain ⟨old, db', inserted⟩ := FaultlessSled.insert b₁.db collection (textBytes key) raw
  have kept : LawfulSled.content b₁.db = b.content := same.content
  have after := LawfulSled.insert inserted
  rw [kept] at after
  refine ⟨{ b₁ with db := db' }, ?_, same.cipher, after⟩
  have encoded' : b₁.encode nonce value = some raw := by
    rw [← encoded]
    simp only [encode, same.cipher]
  simp only [SledBackend.set, opened, Option.bind_eq_bind, Option.bind_some, encoded', inserted]
  rfl

omit [XChaCha20Poly1305] in
theorem delete_spec (b : SledBackend) (collection key : Str) :
    ∃ b', b.delete collection key =
        some (((b.content collection).lookup (textBytes key)).isSome, b') ∧
      b'.cipher = b.cipher ∧ b'.content = Function.update b.content collection
        ((b.content collection).erase (textBytes key)) := by
  obtain ⟨b₁, opened, same⟩ := tree_spec b collection
  obtain ⟨old, db', removed⟩ := FaultlessSled.remove b₁.db collection (textBytes key)
  obtain ⟨rfl, after⟩ := LawfulSled.remove removed
  have kept : LawfulSled.content b₁.db = b.content := same.content
  rw [kept] at after
  refine ⟨{ b₁ with db := db' }, ?_, same.cipher, after⟩
  simp only [SledBackend.delete, opened, Option.bind_eq_bind, Option.bind_some, removed, kept]
  rfl

theorem entries_spec (b : SledBackend) (collection : Str) :
    ∃ b', b.entries collection =
        some ((sortedEntries bytesBefore (b.content collection)).filterMap fun (k, v) => do
          let key ← fromUtf8 k
          let value ← b.decode v
          return (key, value), b') ∧ b.Same b' := by
  obtain ⟨b₁, opened, same⟩ := tree_spec b collection
  obtain ⟨entries, db', walked⟩ := FaultlessSled.iter b₁.db collection
  obtain ⟨rfl, kept⟩ := LawfulSled.iter walked
  refine ⟨{ b₁ with db := db' }, ?_, same.cipher, kept.trans same.content⟩
  have content : LawfulSled.content b₁.db collection = b.content collection :=
    congrFun same.content collection
  have all : ∀ l : List (List UInt8 × List UInt8),
      (l.map fun entry => (.ok entry : Except Sled.Fault _)).filterMap Except.toOption = l := by
    intro l
    rw [List.filterMap_map]
    exact List.filterMap_some
  simp only [SledBackend.entries, opened, Option.bind_eq_bind, Option.bind_some, walked, content,
    same.decode, all]
  rfl

end SledBackend

end Backend

/-! ## What is read back -/

section Collections

variable [Sled] [LawfulSled] [FaultlessSled] [XChaCha20Poly1305] {V : Type} {c : Collection V}
variable {b : SledBackend} {table : Table V}

omit [LawfulSled] [FaultlessSled] in
/-- What is encoded is decoded to what it was. -/
theorem encode_decode [LawfulCipher] (b : SledBackend) (nonce : Bytes 24) (plaintext : List UInt8) :
    ∃ raw, b.encode nonce plaintext = some raw ∧ b.decode raw = some plaintext := by
  cases cipher : b.cipher with
  | none => exact ⟨plaintext, by simp [SledBackend.encode, SledBackend.decode, cipher]⟩
  | some key =>
    obtain ⟨ciphertext, encrypted, tagged, decrypted⟩ :=
      LawfulCipher.decrypt_encrypt key nonce plaintext
    refine ⟨nonce.data ++ ciphertext, by simp [SledBackend.encode, cipher, encrypted], ?_⟩
    have positive := List.length_pos_iff.mpr tagged
    have long : ¬ (nonce.data ++ ciphertext).length ≤ nonceLen := by
      simp only [nonceLen, List.length_append, Bytes.data_length]
      omega
    have first : (nonce.data ++ ciphertext).take nonceLen = nonce.data := by simp [nonceLen]
    have rest : (nonce.data ++ ciphertext).drop nonceLen = ciphertext := by simp [nonceLen]
    simp only [SledBackend.decode, cipher]
    rw [if_neg long, first, rest, Bytes.ofList_data]
    exact decrypted

/-- What a stored value reads as. -/
def Collection.read (c : Collection V) (b : SledBackend) (value : List UInt8) : Option V :=
  (b.decode value).bind c.serde.fromSlice

omit [LawfulSled] [FaultlessSled] in
theorem read_of_cipher {b' : SledBackend} (cipher : b'.cipher = b.cipher) : c.read b' = c.read b := by
  funext value
  simp only [Collection.read, SledBackend.decode, cipher]

/-- What a walk over the tree lists. -/
def Collection.walked (c : Collection V) (b : SledBackend) : List (Str × V) :=
  ((sortedEntries bytesBefore (b.content c.name)).filterMap fun (k, v) => do
    let key ← fromUtf8 k
    let value ← b.decode v
    return (key, value)).filterMap fun (k, v) => do
      let value ← c.serde.fromSlice v
      return (k, value)

/-- A collection stands for a table: it has the same records, and nothing that cannot be read. -/
structure Collection.StandsFor (c : Collection V) (b : SledBackend) (table : Table V) : Prop where
  records : ∀ key, ((b.content c.name).lookup (textBytes key)).bind (c.read b) = table.get key
  readable : ∀ k v, (b.content c.name).lookup k = some v → ∃ key value,
    k = textBytes key ∧ c.read b v = some value

namespace Collection.StandsFor

omit [FaultlessSled] in
/-- A collection whose tree is as it was stands for what it stood for. -/
theorem of_content {b' : SledBackend} (stands : c.StandsFor b table)
    (cipher : b'.cipher = b.cipher) (same : b'.content c.name = b.content c.name) :
    c.StandsFor b' table := by
  refine ⟨fun key => ?_, ?_⟩
  · rw [same, read_of_cipher cipher]
    exact stands.records key
  · rw [same, read_of_cipher cipher]
    exact stands.readable

/-- A read is answered from the table. -/
theorem get (stands : c.StandsFor b table) (key : Str) :
    ∃ b', c.get b key = some (table.get key, b') ∧ b.Same b' := by
  obtain ⟨b', found, same⟩ := b.get_spec c.name key
  refine ⟨b', ?_, same⟩
  rw [Collection.get, found, ← stands.records key]
  cases (b.content c.name).lookup (textBytes key) with
  | none => rfl
  | some value => rfl

omit [FaultlessSled] in
/-- A collection in which one record has changed stands for the table with this change. -/
theorem of_lookup {b' : SledBackend} {table' : Table V} (stands : c.StandsFor b table) (key : Str)
    (raw : Option (List UInt8)) (cipher : b'.cipher = b.cipher)
    (here : ∀ k, (b'.content c.name).lookup k =
      if k = textBytes key then raw else (b.content c.name).lookup k)
    (own : raw.bind (c.read b) = table'.get key) (some_ : ∀ v ∈ raw, (table'.get key).isSome)
    (others : ∀ key', key' ≠ key → table'.get key' = table.get key') : c.StandsFor b' table' := by
  refine ⟨fun key' => ?_, fun k v found => ?_⟩
  · rw [here, read_of_cipher cipher]
    by_cases same : key' = key
    · rw [if_pos (congrArg textBytes same), same]
      exact own
    · rw [if_neg fun equal => same (textBytes_injective equal), others key' same]
      exact stands.records key'
  · rw [here] at found
    rw [read_of_cipher cipher]
    by_cases same : k = textBytes key
    · rw [if_pos same] at found
      obtain ⟨value, stored⟩ := Option.isSome_iff_exists.mp (some_ v found)
      rw [found, stored] at own
      exact ⟨key, value, same, own⟩
    · rw [if_neg same] at found
      exact stands.readable k v found

theorem set [LawfulCipher] (stands : c.StandsFor b table) (nonce : Bytes 24) (key : Str) {value : V}
    (keeps : c.serde.Keeps value) :
    ∃ b', c.set b nonce key value = some b' ∧ b'.cipher = b.cipher ∧
      (∀ name, name ≠ c.name → b'.content name = b.content name) ∧
      c.StandsFor b' (table.set key value) := by
  obtain ⟨bytes, written, back⟩ := keeps
  obtain ⟨raw, encoded, decoded⟩ := encode_decode b nonce bytes
  obtain ⟨b', done, cipher, content⟩ := b.set_spec c.name key encoded
  have stored : c.read b raw = some value := by
    rw [Collection.read, decoded]
    exact back
  refine ⟨b', ?_, cipher, fun name apart => ?_, ?_⟩
  · rw [Collection.set, written]
    exact done
  · rw [content, Function.update_of_ne apart]
  · refine stands.of_lookup key (some raw) cipher (fun k => ?_) ?_ ?_ fun key' apart => ?_
    · rw [content, Function.update_self]
      by_cases same : k = textBytes key
      · rw [same, if_pos rfl, AList.lookup_insert]
      · rw [if_neg same, AList.lookup_insert_ne same]
    · rw [Table.get_set_self]
      exact stored
    · simp
    · rw [Table.get_set_ne apart]

theorem delete (stands : c.StandsFor b table) (key : Str) :
    ∃ b', c.delete b key = some ((table.get key).isSome, b') ∧ b'.cipher = b.cipher ∧
      (∀ name, name ≠ c.name → b'.content name = b.content name) ∧
      c.StandsFor b' (table.delete key) := by
  obtain ⟨b', done, cipher, content⟩ := b.delete_spec c.name key
  refine ⟨b', ?_, cipher, fun name apart => ?_, ?_⟩
  · -- What is stored is readable, so that the record is there in both or in neither.
    rw [Collection.delete, done, ← stands.records key]
    cases found : (b.content c.name).lookup (textBytes key) with
    | none => rfl
    | some v =>
      obtain ⟨_, value, _, readable⟩ := stands.readable _ v found
      simp [readable]
  · rw [content, Function.update_of_ne apart]
  · refine stands.of_lookup key none cipher (fun k => ?_) ?_ nofun fun key' apart => ?_
    · rw [content, Function.update_self]
      by_cases same : k = textBytes key
      · rw [same, if_pos rfl, AList.lookup_erase]
      · rw [if_neg same, AList.lookup_erase_ne same]
    · rw [Table.get_delete_self]
      rfl
    · rw [Table.get_delete_ne apart]

omit [FaultlessSled] in
theorem mem_walked (stands : c.StandsFor b table) (key : Str) (value : V) :
    (key, value) ∈ c.walked b ↔ table.get key = some value := by
  rw [← stands.records key, Collection.walked, List.mem_filterMap]
  constructor
  · intro listed
    obtain ⟨⟨k, plain⟩, visited, parsed⟩ := listed
    obtain ⟨⟨raw, v⟩, stored, decoded⟩ := List.mem_filterMap.mp visited
    rw [mem_sortedEntries] at stored
    obtain ⟨key', value', same, readable⟩ := stands.readable raw v stored
    simp only [same, fromUtf8_textBytes, Option.bind_eq_bind, Option.bind_some] at decoded
    obtain ⟨plain', opened, pair⟩ := Option.bind_eq_some_iff.mp decoded
    cases pair
    obtain ⟨value'', back, pair⟩ := Option.bind_eq_some_iff.mp parsed
    cases pair
    rw [← same, stored, Option.bind_some, Collection.read, opened]
    exact back
  · intro found
    obtain ⟨v, stored, readable⟩ := Option.bind_eq_some_iff.mp found
    obtain ⟨plain, opened, back⟩ := Option.bind_eq_some_iff.mp readable
    refine ⟨(key, plain), List.mem_filterMap.mpr ⟨(textBytes key, v), ?_, ?_⟩, ?_⟩
    · exact (mem_sortedEntries _ _ _ _).mpr stored
    · simp [opened]
    · simp [back]

omit [FaultlessSled] in
/-- The records are listed in the order in which the keys are texts. -/
theorem walked_ranked (stands : c.StandsFor b table) :
    (c.walked b).Pairwise fun a b => a.1.map Char.toNat < b.1.map Char.toNat := by
  have trees := sortedEntries_ranked byteRank_injective bytesBefore_eq (b.content c.name)
  rw [Collection.walked, List.pairwise_filterMap, List.pairwise_filterMap]
  refine (List.Pairwise.and_mem.mp trees).imp ?_
  intro x y both
  obtain ⟨stored, stored', less⟩ := both
  intro x₁ decoded y₁ decoded' x₂ parsed y₂ parsed'
  obtain ⟨key, _, same, _⟩ := stands.readable x.1 x.2 ((mem_sortedEntries _ _ _ _).mp stored)
  obtain ⟨key', _, same', _⟩ := stands.readable y.1 y.2 ((mem_sortedEntries _ _ _ _).mp stored')
  simp only [same, same', fromUtf8_textBytes, Option.bind_eq_bind, Option.bind_some] at decoded decoded'
  obtain ⟨_, _, pair⟩ := Option.bind_eq_some_iff.mp decoded
  obtain ⟨_, _, pair'⟩ := Option.bind_eq_some_iff.mp decoded'
  cases pair
  cases pair'
  obtain ⟨_, _, pair⟩ := Option.bind_eq_some_iff.mp parsed
  obtain ⟨_, _, pair'⟩ := Option.bind_eq_some_iff.mp parsed'
  cases pair
  cases pair'
  rw [same, same'] at less
  rw [← not_le, ← textBytes_rank, not_le]
  exact less

omit [FaultlessSled] in
theorem walked_eq (stands : c.StandsFor b table) : c.walked b = table.entries keyBefore := by
  have chars : Function.Injective Char.toNat := fun _ _ same => Char.ext (UInt32.toNat_inj.mp same)
  have distinct : Function.Injective fun s : Str => s.map Char.toNat :=
    List.map_injective_iff.mpr chars
  have ordered : ∀ a b : Str, keyBefore a b = decide (a.map Char.toNat ≤ b.map Char.toNat) := by
    intro a b
    rw [keyBefore, lex_eq_decide chars, ← decide_not]
    simp
  refine eq_of_ranked stands.walked_ranked (sortedEntries_ranked distinct ordered table) ?_
  intro entry
  exact (stands.mem_walked entry.1 entry.2).trans (mem_sortedEntries _ _ _ _).symm

theorem entries (stands : c.StandsFor b table) :
    ∃ b', c.entries b = some (table.entries keyBefore, b') ∧ b.Same b' := by
  obtain ⟨b', visited, same⟩ := b.entries_spec c.name
  refine ⟨b', ?_, same⟩
  rw [Collection.entries, visited, ← stands.walked_eq]
  rfl

end Collection.StandsFor

end Collections

end Pomade.Signer
