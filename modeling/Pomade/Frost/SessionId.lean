import Pomade.Frost.ScalarCurve
import Pomade.Frost.Sharing
import Pomade.Lib.Concat

/-! # Session ids of the FROST crate

`get_group_id` of `frost/dealer.rs` and the first half of `frost/signing.rs`.  A session id
commits to the bytes that are hashed.  Of the group these leave out the indices of the members
and the high half of the threshold, and they do not say where the list of members ends and
where a message does.
-/

namespace Pomade.Frost

open Pomade.Lib

/-! ## Types -/

/-- A member's public identity within a group. -/
structure MemberPackage where
  idx : UInt32
  pubkey : Bytes 33
  identityPk : Option (Bytes 33)

/-- The group's public state: group key, threshold and member roster. -/
structure GroupPackage where
  groupPk : Bytes 33
  threshold : Nat
  members : List MemberPackage

structure MemberNonce where
  idx : UInt32
  binderPn : Bytes 33
  hiddenPn : Bytes 33
  code : Bytes 32

/-- A message to sign, with its tweaks. -/
abbrev Message : Type := List UInt8 × List (Bytes 32)

structure SignSession where
  sid : Bytes 32
  groupPk : Bytes 33
  members : List UInt32
  messages : List Message
  nonces : List MemberNonce

/-! ## Ids -/

/-- The public keys of the members, sorted by index. -/
def sortedPubkeys (group : GroupPackage) : List (Bytes 33) :=
  (group.members.insertionSort fun a b => a.idx ≤ b.idx).map (·.pubkey)

/-- What is hashed for a group id: the group key, the threshold as a `u32`, and the sorted
public keys of the members. -/
def groupBytes (group : GroupPackage) : List UInt8 :=
  group.groupPk.data ++ natToBytes 4 group.threshold ++ (sortedPubkeys group).flatMap (·.data)

def memberBytes (member : UInt32) : List UInt8 := natToBytes 4 member.toNat

def messageBytes (message : Message) : List UInt8 :=
  natToBytes 4 message.1.length ++ message.1 ++ message.2.flatMap (·.data)

/-- What is hashed for a session id after the group id. -/
def sessionBytes (members : List UInt32) (messages : List Message) : List UInt8 :=
  members.flatMap memberBytes ++ messages.flatMap messageBytes

section Ids

variable [Sha2]

/-- Compute a stable group identifier. -/
def getGroupId (group : GroupPackage) : Bytes 32 := Sha2.sha256 (groupBytes group)

/-- Compute a deterministic session ID. -/
def computeSessionId (group : GroupPackage) (members : List UInt32) (messages : List Message) :
    Bytes 32 :=
  Sha2.sha256 ((getGroupId group).data ++ sessionBytes members messages)

/-- Create a signing session for a message and participating members. -/
def createSignSession (group : GroupPackage) (members : List UInt32) (messages : List Message)
    (nonces : List MemberNonce) : Result SignSession := do
  if messages.length ≠ 1 then
    throw (.err (.assertion ("a signing session must contain exactly one message (got " ++
      toString messages.length ++ "); a fresh nonce signs exactly one message")))
  if nonces.length ≠ members.length then
    throw (.err (.assertion ("nonce count (" ++ toString nonces.length ++
      ") must equal member count (" ++ toString members.length ++ ")")))
  let sortedMembers := members.insertionSort fun a b => a ≤ b
  let sid := computeSessionId group sortedMembers messages
  return { sid, groupPk := group.groupPk, members := sortedMembers, messages, nonces }

/-- No two of these inputs have the same digest. -/
def Apart (inputs : List (List UInt8)) : Prop :=
  ∀ a ∈ inputs, ∀ b ∈ inputs, Sha2.sha256 a = Sha2.sha256 b → a = b

/-- The inputs of the hash for one session id. -/
def hashed (group : GroupPackage) (members : List UInt32) (messages : List Message) :
    List (List UInt8) :=
  [groupBytes group, (getGroupId group).data ++ sessionBytes members messages]

end Ids

/-! ## What the bytes say -/

theorem data_injective (n : Nat) : Function.Injective fun bytes : Bytes n => bytes.data :=
  fun _ _ same => Bytes.ext same

theorem eq_of_word {a b : Nat} (small : a < 2 ^ 32) (small' : b < 2 ^ 32)
    (same : natToBytes 4 a = natToBytes 4 b) : a = b := by
  have values : a % 2 ^ 32 = b % 2 ^ 32 := natToBytes_inj.mp same
  rwa [Nat.mod_eq_of_lt small, Nat.mod_eq_of_lt small'] at values

theorem memberBytes_injective : Function.Injective memberBytes := fun a b same =>
  UInt32.toNat_inj.mp (eq_of_word a.toNat_lt b.toNat_lt same)

/-- What two groups with the same bytes have in common. -/
structure SameRoster (group group' : GroupPackage) : Prop where
  groupPk : group.groupPk = group'.groupPk
  threshold : group.threshold % 2 ^ 32 = group'.threshold % 2 ^ 32
  pubkeys : sortedPubkeys group = sortedPubkeys group'

theorem groupBytes_inj {group group' : GroupPackage} :
    groupBytes group = groupBytes group' ↔ SameRoster group group' := by
  constructor
  · intro same
    rw [groupBytes, groupBytes, List.append_assoc, List.append_assoc] at same
    obtain ⟨key, rest⟩ := List.append_inj same (by simp)
    obtain ⟨threshold, pubkeys⟩ := List.append_inj rest (by simp [natToBytes_length])
    exact ⟨data_injective 33 key, natToBytes_inj.mp threshold,
      flatMap_inj_of_fixed (data_injective 33) (by decide) (fun bytes => bytes.size) pubkeys⟩
  · rintro ⟨key, threshold, pubkeys⟩
    have word : natToBytes 4 group.threshold = natToBytes 4 group'.threshold :=
      natToBytes_inj.mpr threshold
    rw [groupBytes, groupBytes, key, word, pubkeys]

/-- All messages are shorter than the length field can tell. -/
def Short (messages : List Message) : Prop := ∀ m ∈ messages, m.1.length < 2 ^ 32

/-- A message that is short can be told apart from its tweaks and what follows. -/
theorem messageBytes_append_inj {m m' : Message} {rest rest' : List UInt8}
    (short : m.1.length < 2 ^ 32) (short' : m'.1.length < 2 ^ 32)
    (joined : messageBytes m ++ rest = messageBytes m' ++ rest') :
    m.1 = m'.1 ∧ m.2.flatMap (·.data) ++ rest = m'.2.flatMap (·.data) ++ rest' := by
  rw [messageBytes, messageBytes, List.append_assoc, List.append_assoc, List.append_assoc,
    List.append_assoc] at joined
  obtain ⟨word, after⟩ := List.append_inj joined (by simp [natToBytes_length])
  exact List.append_inj after (eq_of_word short short' word)

/-- The messages have as many tweaks, one by one. -/
theorem messages_inj {messages messages' : List Message} (short : Short messages)
    (short' : Short messages') (tweaks : messages.map (·.2.length) = messages'.map (·.2.length))
    (joined : messages.flatMap messageBytes = messages'.flatMap messageBytes) :
    messages = messages' := by
  induction messages generalizing messages' with
  | nil =>
    cases messages' with
    | nil => rfl
    | cons m' messages' => cases tweaks
  | cons m messages ih =>
    cases messages' with
    | nil => cases tweaks
    | cons m' messages' =>
      rw [Short, List.forall_mem_cons] at short short'
      rw [List.map_cons, List.map_cons, List.cons.injEq] at tweaks
      rw [List.flatMap_cons, List.flatMap_cons] at joined
      obtain ⟨text, after⟩ := messageBytes_append_inj short.1 short'.1 joined
      obtain ⟨same, rest⟩ := flatMap_append_inj_of_length (data_injective 32) (fun b => b.size)
        tweaks.1 after
      rw [Prod.ext text same, ih short.2 short'.2 tweaks.2 rest]

/-- Of a single message the number of tweaks need not be known. -/
theorem message_inj {m m' : Message} (short : m.1.length < 2 ^ 32) (short' : m'.1.length < 2 ^ 32)
    (joined : messageBytes m = messageBytes m') : m = m' := by
  have ended : messageBytes m ++ [] = messageBytes m' ++ [] := by rw [joined]
  obtain ⟨text, after⟩ := messageBytes_append_inj short short' ended
  rw [List.append_nil, List.append_nil] at after
  exact Prod.ext text (flatMap_inj_of_fixed (data_injective 32) (by decide) (fun b => b.size) after)

/-- There is one message on each side, or the numbers of tweaks agree. -/
def Shaped (messages messages' : List Message) : Prop :=
  messages.length = 1 ∧ messages'.length = 1 ∨ messages.map (·.2.length) = messages'.map (·.2.length)

theorem sessionBytes_inj {members members' : List UInt32} {messages messages' : List Message}
    (count : members.length = members'.length) (short : Short messages) (short' : Short messages')
    (shaped : Shaped messages messages')
    (same : sessionBytes members messages = sessionBytes members' messages') :
    members = members' ∧ messages = messages' := by
  obtain ⟨listed, rest⟩ := flatMap_append_inj_of_length memberBytes_injective
    (fun m => natToBytes_length 4 m.toNat) count same
  refine ⟨listed, ?_⟩
  rcases shaped with ⟨one, one'⟩ | tweaks
  · obtain ⟨m, rfl⟩ := List.length_eq_one_iff.mp one
    obtain ⟨m', rfl⟩ := List.length_eq_one_iff.mp one'
    rw [List.flatMap_singleton, List.flatMap_singleton] at rest
    rw [message_inj (short m List.mem_cons_self) (short' m' List.mem_cons_self) rest]
  · exact messages_inj short short' tweaks rest

/-! ## What a session id says -/

section Binding

variable [Sha2] {group group' : GroupPackage} {members members' : List UInt32}
variable {messages messages' : List Message}

theorem computeSessionId_inj
    (apart : Apart (hashed group members messages ++ hashed group' members' messages')) :
    computeSessionId group members messages = computeSessionId group' members' messages' ↔
      SameRoster group group' ∧ sessionBytes members messages = sessionBytes members' messages' := by
  rw [← groupBytes_inj]
  constructor
  · intro same
    have bytes := apart _ (by simp [hashed]) _ (by simp [hashed]) same
    obtain ⟨gid, rest⟩ := List.append_inj bytes (by simp)
    exact ⟨apart _ (by simp [hashed]) _ (by simp [hashed]) (data_injective 32 gid), rest⟩
  · rintro ⟨roster, rest⟩
    rw [computeSessionId, computeSessionId, getGroupId, getGroupId, roster, rest]

theorem createSignSession_ok {nonces : List MemberNonce} {session : SignSession}
    (made : createSignSession group members messages nonces = .ok session) :
    session.sid = computeSessionId group session.members session.messages ∧
      session.members = members.insertionSort (fun a b => a ≤ b) ∧ session.messages = messages ∧
      session.messages.length = 1 := by
  rw [createSignSession] at made
  by_cases one : messages.length ≠ 1
  · rw [if_pos one] at made
    cases made
  rw [if_neg one] at made
  by_cases count : nonces.length ≠ members.length
  · rw [if_pos count] at made
    cases made
  rw [if_neg count] at made
  cases made
  exact ⟨rfl, rfl, rfl, not_not.mp one⟩

/-- A session id says what the hashed bytes say.  Given the number of members, lengths that fit
their field, and the numbers of tweaks (or that there is one message, as in every session that
is created), it says the members, the messages and the tweaks. -/
theorem session_id_binds
    (apart : Apart (hashed group members messages ++ hashed group' members' messages')) :
    (computeSessionId group members messages = computeSessionId group' members' messages' ↔
      SameRoster group group' ∧ sessionBytes members messages = sessionBytes members' messages') ∧
    (members.length = members'.length → Short messages → Short messages' →
      Shaped messages messages' →
        (computeSessionId group members messages = computeSessionId group' members' messages' ↔
          SameRoster group group' ∧ members = members' ∧ messages = messages')) ∧
    ∀ listed nonces session, createSignSession group listed messages nonces = .ok session →
      session.sid = computeSessionId group session.members session.messages ∧
        session.members = listed.insertionSort (fun a b => a ≤ b) ∧ session.messages = messages ∧
        session.messages.length = 1 := by
  refine ⟨computeSessionId_inj apart, ?_, fun _ _ _ made => createSignSession_ok made⟩
  intro count short short' shaped
  rw [computeSessionId_inj apart]
  constructor
  · rintro ⟨roster, bytes⟩
    exact ⟨roster, sessionBytes_inj count short short' shaped bytes⟩
  · rintro ⟨roster, rfl, rfl⟩
    exact ⟨roster, rfl⟩

end Binding

/-! ## What it leaves open -/

/-- A group of two members with the same public key. -/
def pairGroup (threshold : Nat) (second : UInt32) : GroupPackage where
  groupPk := Bytes.ofNat 33 1
  threshold := threshold
  members := [⟨1, Bytes.ofNat 33 2, none⟩, ⟨second, Bytes.ofNat 33 2, none⟩]

/-- Two sessions over the same group that differ in the tweaks have different ids. -/
theorem session_id_binds_tweaks :
    let _ := lastBytes
    computeSessionId (pairGroup 2 2) [1, 2] [([7], [Bytes.ofNat 32 1])] ≠
      computeSessionId (pairGroup 2 2) [1, 2] [([7], [Bytes.ofNat 32 3])] := by
  intro _ same
  have apart : Apart (hashed (pairGroup 2 2) [1, 2] [([7], [Bytes.ofNat 32 1])] ++
      hashed (pairGroup 2 2) [1, 2] [([7], [Bytes.ofNat 32 3])]) := by
    rw [Apart]
    decide +kernel
  have short : ∀ tweaks, Short [([7], tweaks)] := by
    intro tweaks m member
    rw [List.mem_singleton.mp member]
    show 1 < 2 ^ 32
    decide
  obtain ⟨_, _, messages⟩ := ((session_id_binds apart).2.1 rfl (short _) (short _)
    (.inl ⟨rfl, rfl⟩)).mp same
  revert messages
  decide +kernel

/-- The bytes of a message that is too long for its length field are those of an empty one with
tweaks. -/
theorem long_message (members : List UInt32) (k : Nat) :
    sessionBytes members [(List.replicate (2 ^ 32 * k) 0, [])] =
      sessionBytes members [([], List.replicate (2 ^ 27 * k) (Bytes.ofNat 32 0))] := by
  have word : natToBytes 4 (2 ^ 32 * k) = natToBytes 4 0 := by
    apply natToBytes_inj.mpr
    rw [Nat.zero_mod]
    exact Nat.mul_mod_right (2 ^ 32) k
  have zeros : (Bytes.ofNat 32 0).data = List.replicate 32 0 := by decide
  rw [sessionBytes, sessionBytes, List.flatMap_singleton, List.flatMap_singleton, messageBytes,
    messageBytes, List.length_replicate, word]
  have size : 2 ^ 27 * k * 32 = 2 ^ 32 * k := by ring
  simp only [List.flatMap_replicate, List.flatMap_nil, List.append_nil, zeros,
    List.flatten_replicate_replicate, size]
  rfl

/-- Groups with different indices or thresholds, a member that is read as a length, and a
message that is read as tweaks: whatever the hash, the session ids are the same. -/
theorem session_ids_coincide :
    ((∀ [Sha2], computeSessionId (pairGroup 2 2) [1] [([], [])] =
        computeSessionId (pairGroup 2 3) [1] [([], [])]) ∧
      (pairGroup 2 2).members.map (·.idx) ≠ (pairGroup 2 3).members.map (·.idx)) ∧
    ((∀ [Sha2], computeSessionId (pairGroup 2 2) [1] [([], [])] =
        computeSessionId (pairGroup (2 ^ 32 + 2) 2) [1] [([], [])]) ∧
      (pairGroup 2 2).threshold ≠ (pairGroup (2 ^ 32 + 2) 2).threshold) ∧
    ((∀ [Sha2], computeSessionId (pairGroup 2 2) [1] [([0, 0, 0, 0], [])] =
        computeSessionId (pairGroup 2 2) [1, 4] [([], [])]) ∧ ([1] : List UInt32) ≠ [1, 4]) ∧
    ((∀ [Sha2], computeSessionId (pairGroup 2 2) [1] [(List.replicate (2 ^ 32 * 1) 0, [])] =
        computeSessionId (pairGroup 2 2) [1]
          [([], List.replicate (2 ^ 27 * 1) (Bytes.ofNat 32 0))]) ∧
      ([] : List (Bytes 32)) ≠ List.replicate (2 ^ 27 * 1) (Bytes.ofNat 32 0)) := by
  refine ⟨⟨?_, by decide⟩, ⟨?_, by decide⟩, ⟨?_, by decide⟩, ?_, ?_⟩
  · intro _
    have same : groupBytes (pairGroup 2 2) = groupBytes (pairGroup 2 3) := by decide +kernel
    rw [computeSessionId, computeSessionId, getGroupId, getGroupId, same]
  · intro _
    have same : groupBytes (pairGroup 2 2) = groupBytes (pairGroup (2 ^ 32 + 2) 2) := by
      decide +kernel
    rw [computeSessionId, computeSessionId, getGroupId, getGroupId, same]
  · intro _
    have same : sessionBytes [1] [([0, 0, 0, 0], [])] = sessionBytes [1, 4] [([], [])] := by
      decide +kernel
    rw [computeSessionId, computeSessionId, same]
  · intro _
    rw [computeSessionId, computeSessionId, long_message]
  · intro same
    have lengths := congrArg List.length same
    rw [List.length_replicate, List.length_nil] at lengths
    omega

end Pomade.Frost
