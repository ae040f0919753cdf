import Pomade.Frost.SessionId
import Pomade.Lib.Utf8
import Pomade.Signer.Session
import Pomade.Signer.Sample

/-! # What the session id of a request binds

The bytes that are hashed for a session id are those of the members, the sighash vector, the
content, the type and the stamp, one after the other and without lengths.
-/

namespace Pomade.Signer

open Pomade.Lib Pomade.Frost

/-- The bytes of the content: those it denotes in hexadecimal, none if it denotes none, and a
zero byte for no content. -/
def contentBytes : Option Str → List UInt8
  | some content => decodedOrEmpty content
  | none => [0x00]

/-- What is hashed for a session id after the group id. -/
def requestBytes (request : SignCompleteRequestInner) : List UInt8 :=
  request.members.flatMap numToBytesBeVarwidth ++ request.hash.flatMap decodedOrEmpty ++
    contentBytes request.content ++ utf8 (String.ofList request.kind) ++
    natToBytes 4 request.stamp.toNat

theorem requestBytes_eq (request : SignCompleteRequestInner) :
    requestBytes request = request.members.flatMap numToBytesBeVarwidth ++
      request.hash.flatMap decodedOrEmpty ++ contentBytes request.content ++
        request.kind.flatMap String.utf8EncodeChar ++ natToBytes 4 request.stamp.toNat := by
  rw [requestBytes, utf8, toUTF8_ofList]

section Ids

variable [Sha2]

theorem computeSessionId_eq (group : Group) (request : SignCompleteRequestInner) :
    computeSessionId group request =
      Sha2.sha256 ((computeGroupId group).data ++ requestBytes request) := by
  rw [computeSessionId, requestBytes]
  simp only [List.append_assoc]
  rfl

/-- Requests that are what they say they are have the same session id exactly when the hashed
bytes are the same. -/
theorem sid_eq_iff {group : Group} {r r' : SignCompleteRequestInner}
    (verified : verifySessionPkg group r = true) (verified' : verifySessionPkg group r' = true)
    (apart : Apart [(computeGroupId group).data ++ requestBytes r,
      (computeGroupId group).data ++ requestBytes r']) :
    r.sid = r'.sid ↔ requestBytes r = requestBytes r' := by
  rw [verifySessionPkg, Bool.and_eq_true, beq_iff_eq, beq_iff_eq] at verified verified'
  rw [← verified.2, ← verified'.2, computeSessionId_eq, computeSessionId_eq]
  constructor
  · intro same
    have digests := Bytes.ext (hexEncode_injective same)
    exact List.append_cancel_left (apart _ (by simp) _ (by simp) digests)
  · intro same
    rw [same]

end Ids

/-! ## Taking the bytes apart -/

theorem numToBytesBeVarwidth_toNat (n : UInt32) : bytesToNat (numToBytesBeVarwidth n) = n.toNat := by
  have bound := n.toNat_lt
  rw [numToBytesBeVarwidth]
  split
  next one =>
    have small : n.toNat ≤ 255 := one
    rw [bytesToNat_natToBytes]
    omega
  next =>
    split
    next two =>
      have small : n.toNat ≤ 65535 := two
      rw [bytesToNat_natToBytes]
      omega
    next =>
      rw [bytesToNat_natToBytes]
      omega

theorem numToBytesBeVarwidth_injective : Function.Injective numToBytesBeVarwidth := by
  intro a b same
  rw [← UInt32.toNat_inj, ← numToBytesBeVarwidth_toNat, same, numToBytesBeVarwidth_toNat]

theorem decodedOrEmpty_hex32 {s : Str} (valid : isHex32 s = true) :
    hexDecode s = some (decodedOrEmpty s) ∧ (decodedOrEmpty s).length = 32 := by
  simp only [isHex32, isHex, Bool.and_eq_true, beq_iff_eq] at valid
  obtain ⟨bytes, decoded, size⟩ := hexDecode_digits valid.2.1.2 valid.2.2
  rw [decodedOrEmpty, decoded]
  refine ⟨rfl, ?_⟩
  rw [Option.getD_some]
  omega

/-- What has to be known to tell two requests apart: the widths of the members, the number of
hashes, and the length of the content. -/
structure SameShape (r r' : SignCompleteRequestInner) : Prop where
  members : r.members.map (fun m => (numToBytesBeVarwidth m).length) =
    r'.members.map fun m => (numToBytesBeVarwidth m).length
  hash : r.hash.length = r'.hash.length
  content : (contentBytes r.content).length = (contentBytes r'.content).length

/-- The fields that a session id binds. -/
structure SameFields (r r' : SignCompleteRequestInner) : Prop where
  members : r.members = r'.members
  hash : r.hash.map hexDecode = r'.hash.map hexDecode
  content : contentBytes r.content = contentBytes r'.content
  kind : r.kind = r'.kind
  stamp : r.stamp.toNat % 2 ^ 32 = r'.stamp.toNat % 2 ^ 32

section Fields

variable {r r' : SignCompleteRequestInner}

/-- The stamp comes last. -/
theorem stamp_of_requestBytes (same : requestBytes r = requestBytes r') :
    r.stamp.toNat % 2 ^ 32 = r'.stamp.toNat % 2 ^ 32 := by
  rw [requestBytes, requestBytes] at same
  have words := (List.append_inj' same (by simp [natToBytes_length])).2
  exact natToBytes_inj.mp words

theorem hash_inj {rest rest' : List UInt8} (valid : ∀ h ∈ r.hash, isHex32 h = true)
    (valid' : ∀ h ∈ r'.hash, isHex32 h = true) (count : r.hash.length = r'.hash.length)
    (joined : r.hash.flatMap decodedOrEmpty ++ rest = r'.hash.flatMap decodedOrEmpty ++ rest') :
    r.hash.map hexDecode = r'.hash.map hexDecode ∧ rest = rest' := by
  have width : ∀ l : List Str, (∀ h ∈ l, isHex32 h = true) →
      (l.map decodedOrEmpty).map (fun bytes => (id bytes).length) = List.replicate l.length 32 := by
    intro l known
    rw [List.map_map, List.eq_replicate_iff]
    refine ⟨List.length_map _, ?_⟩
    intro n member
    obtain ⟨h, inside, rfl⟩ := List.mem_map.mp member
    exact (decodedOrEmpty_hex32 (known h inside)).2
  have decode : ∀ l : List Str, (∀ h ∈ l, isHex32 h = true) →
      l.map hexDecode = (l.map decodedOrEmpty).map some := by
    intro l known
    rw [List.map_map]
    exact List.map_congr_left fun h inside => (decodedOrEmpty_hex32 (known h inside)).1
  have split : ∀ l : List Str, l.flatMap decodedOrEmpty = (l.map decodedOrEmpty).flatMap id :=
    fun l => by rw [List.flatMap_map]; rfl
  rw [split, split] at joined
  obtain ⟨same, after⟩ := flatMap_append_inj Function.injective_id
    (by rw [width _ valid, width _ valid', count]) joined
  exact ⟨by rw [decode _ valid, decode _ valid', same], after⟩

theorem requestBytes_inj (valid : ∀ h ∈ r.hash, isHex32 h = true)
    (valid' : ∀ h ∈ r'.hash, isHex32 h = true) (shape : SameShape r r') :
    requestBytes r = requestBytes r' ↔ SameFields r r' := by
  constructor
  · intro same
    have stamp := stamp_of_requestBytes same
    rw [requestBytes, requestBytes] at same
    have front := (List.append_inj' same (by simp [natToBytes_length])).1
    simp only [List.append_assoc] at front
    obtain ⟨members, rest⟩ := flatMap_append_inj numToBytesBeVarwidth_injective shape.members front
    obtain ⟨hash, rest⟩ := hash_inj valid valid' shape.hash rest
    obtain ⟨content, kind⟩ := List.append_inj rest shape.content
    exact ⟨members, hash, content, toUTF8_ofList_injective kind, stamp⟩
  · rintro ⟨members, hash, content, kind, stamp⟩
    have word : natToBytes 4 r.stamp.toNat = natToBytes 4 r'.stamp.toNat := natToBytes_inj.mpr stamp
    have hashes : r.hash.flatMap decodedOrEmpty = r'.hash.flatMap decodedOrEmpty := by
      have bytes := congrArg (List.flatMap fun bytes => Option.getD bytes []) hash
      rwa [List.flatMap_map, List.flatMap_map] at bytes
    rw [requestBytes, requestBytes, members, hashes, content, kind, word]

end Fields

theorem isHex32_of_schemaValid {data : SignCompleteRequest}
    (valid : (Body.signComplete data : Body Auth).schemaValid = true) :
    ∀ h ∈ data.request.hash, isHex32 h = true := by
  simp only [Body.schemaValid, Bool.and_eq_true, List.all_eq_true] at valid
  exact valid.1.1.1.2

theorem isHex32_hexEncode (bytes : Bytes 32) : isHex32 (hexEncode bytes.data) = true := by
  have size : (hexEncode bytes.data).length = 64 := by rw [hexEncode_length, bytes.size]
  have some : (hexEncode bytes.data).isEmpty = false := by
    rw [List.isEmpty_eq_false_iff, ← List.length_pos_iff, size]
    decide
  have digits : (hexEncode bytes.data).all isHexDigit = true := by
    rw [List.all_eq_true]
    intro c member
    simp only [hexEncode, List.mem_flatMap, List.mem_cons, List.not_mem_nil, or_false] at member
    obtain ⟨byte, _, rfl | rfl⟩ := member
    · exact isHexDigit_hexDigit (by have := byte.toNat_lt; omega)
    · exact isHexDigit_hexDigit (by omega)
  rw [isHex32, isHex, some, size, digits]
  decide

section Binding

variable [Sha2]

/-- Two requests over one group that are what they say they are have the same session id
exactly when the hashed bytes are the same.  Then their stamps agree in the low 32 bits; and
requests of the same shape agree in all fields that are hashed. -/
theorem request_id_binds {group : Group} {data data' : SignCompleteRequest}
    (valid : (Body.signComplete data : Body Auth).schemaValid = true)
    (valid' : (Body.signComplete data' : Body Auth).schemaValid = true)
    (verified : verifySessionPkg group data.request = true)
    (verified' : verifySessionPkg group data'.request = true)
    (apart : Apart [(computeGroupId group).data ++ requestBytes data.request,
      (computeGroupId group).data ++ requestBytes data'.request]) :
    (data.request.sid = data'.request.sid ↔ requestBytes data.request = requestBytes data'.request) ∧
    (data.request.sid = data'.request.sid →
      data.request.stamp.toNat % 2 ^ 32 = data'.request.stamp.toNat % 2 ^ 32) ∧
    (SameShape data.request data'.request →
      (data.request.sid = data'.request.sid ↔ SameFields data.request data'.request)) := by
  have bytes := sid_eq_iff verified verified' apart
  refine ⟨bytes, fun same => stamp_of_requestBytes (bytes.mp same), fun shape => ?_⟩
  rw [bytes]
  exact requestBytes_inj (isHex32_of_schemaValid valid) (isHex32_of_schemaValid valid') shape

/-! ## Requests that are told apart, and requests that are not -/

/-- A request with the ids that are computed from it. -/
def identified (group : Group) (request : SignCompleteRequestInner) : SignCompleteRequest where
  commitId := List.replicate 64 '0'
  request := { request with
    gid := hexEncode (computeGroupId group).data
    sid := hexEncode (computeSessionId group request).data }
  pnonces := []

theorem verify_identified (group : Group) (request : SignCompleteRequestInner) :
    verifySessionPkg group (identified group request).request = true := by
  rw [verifySessionPkg, Bool.and_eq_true, beq_iff_eq, beq_iff_eq]
  exact ⟨rfl, rfl⟩

/-- The checks of the decoder on what is hashed. -/
def inputsValid (request : SignCompleteRequestInner) : Bool :=
  !request.hash.isEmpty && request.hash.length ≤ maxHashesPerRequest &&
    request.hash.all isHex32 && request.members.length ≤ maxMembers

theorem identified_valid {group : Group} {request : SignCompleteRequestInner}
    (inputs : inputsValid request = true) :
    (Body.signComplete (identified group request) : Body Auth).schemaValid = true := by
  simp only [inputsValid, Bool.and_eq_true] at inputs
  obtain ⟨⟨⟨some, few⟩, hashes⟩, members⟩ := inputs
  have commitId : isHex32 (List.replicate 64 '0') = true := by decide
  simp only [Body.schemaValid, identified, Bool.and_eq_true, isHex32_hexEncode, and_true]
  exact ⟨⟨⟨⟨⟨⟨commitId, rfl⟩, rfl⟩, some⟩, few⟩, hashes⟩, members⟩

theorem sid_identified {group : Group} {r r' : SignCompleteRequestInner}
    (same : requestBytes r = requestBytes r') :
    (identified group r).request.sid = (identified group r').request.sid := by
  show hexEncode (computeSessionId group r).data = hexEncode (computeSessionId group r').data
  rw [computeSessionId_eq, computeSessionId_eq, same]

end Binding

/-- The requests agree in all fields that the id is computed from, up to the order of the
members. -/
def Alike (r r' : SignCompleteRequestInner) : Prop :=
  r.members.Perm r'.members ∧ r.hash = r'.hash ∧ r.content = r'.content ∧ r.kind = r'.kind ∧
    r.stamp = r'.stamp

instance (r r' : SignCompleteRequestInner) : Decidable (Alike r r') :=
  inferInstanceAs (Decidable (_ ∧ _))

/-- The requests are not alike; and whatever the hash, both decode and are what they say they
are, and their session ids are the same. -/
def Coincide (group : Group) (r r' : SignCompleteRequestInner) : Prop :=
  ¬ Alike r r' ∧
    ∀ [Sha2], (Body.signComplete (identified group r) : Body Auth).schemaValid = true ∧
      (Body.signComplete (identified group r') : Body Auth).schemaValid = true ∧
      verifySessionPkg group (identified group r).request = true ∧
      verifySessionPkg group (identified group r').request = true ∧
      (identified group r).request.sid = (identified group r').request.sid

theorem coincide {r r' : SignCompleteRequestInner} (group : Group) (differ : ¬ Alike r r')
    (inputs : inputsValid r = true) (inputs' : inputsValid r' = true)
    (same : requestBytes r = requestBytes r') : Coincide group r r' :=
  ⟨differ, fun [Sha2] => ⟨identified_valid inputs, identified_valid inputs',
    verify_identified group r, verify_identified group r', sid_identified same⟩⟩

def sampleHash : Str := List.replicate 64 '1'

/-- A request before its ids are computed. -/
def sampleRequest (members : List UInt32) (hash : List Str) (content : Option Str) (kind : Str)
    (stamp : UInt64) : SignCompleteRequestInner :=
  { content, hash, members, stamp, kind, gid := [], sid := [] }

/-- Requests that differ in the type have different session ids. -/
theorem request_id_binds_kinds :
    let _ := lastBytes
    (identified (Sample.group [1]) (sampleRequest [1] [sampleHash] none ['a'] 7)).request.sid ≠
      (identified (Sample.group [1])
        (sampleRequest [1] [sampleHash] none ['b'] 7)).request.sid := by
  intro _ same
  have inputs : ∀ kind, inputsValid (sampleRequest [1] [sampleHash] none kind 7) = true := by
    intro kind
    show inputsValid (sampleRequest [1] [sampleHash] none [] 7) = true
    decide
  have apart : Apart [(computeGroupId (Sample.group [1])).data ++
        requestBytes (identified (Sample.group [1])
          (sampleRequest [1] [sampleHash] none ['a'] 7)).request,
      (computeGroupId (Sample.group [1])).data ++
        requestBytes (identified (Sample.group [1])
          (sampleRequest [1] [sampleHash] none ['b'] 7)).request] := by
    rw [requestBytes_eq, requestBytes_eq, Apart]
    decide +kernel
  have fields := ((request_id_binds (identified_valid (inputs _)) (identified_valid (inputs _))
    (verify_identified _ _) (verify_identified _ _) apart).2.2 ⟨rfl, rfl, rfl⟩).mp same
  exact absurd fields.kind (by decide)

/-- Stamps that agree in the low 32 bits, two members that are read as one, no content and a zero
byte, a content that is read as a type, a tweak that is read as a content, and a content that
does not decode. -/
theorem request_ids_coincide :
    Coincide (Sample.group [1, 2]) (sampleRequest [1] [sampleHash] none [] 0)
        (sampleRequest [1] [sampleHash] none [] 4294967296) ∧
      Coincide (Sample.group [1, 2]) (sampleRequest [1, 2] [sampleHash] none [] 0)
        (sampleRequest [258] [sampleHash] none [] 0) ∧
      Coincide (Sample.group [1, 2]) (sampleRequest [1] [sampleHash] none [] 0)
        (sampleRequest [1] [sampleHash] (some ['0', '0']) [] 0) ∧
      Coincide (Sample.group [1, 2]) (sampleRequest [1] [sampleHash] (some ['6', '1']) [] 0)
        (sampleRequest [1] [sampleHash] (some []) ['a'] 0) ∧
      Coincide (Sample.group [1, 2]) (sampleRequest [1] [sampleHash, sampleHash] (some []) [] 0)
        (sampleRequest [1] [sampleHash] (some sampleHash) [] 0) ∧
      Coincide (Sample.group [1, 2]) (sampleRequest [1] [sampleHash] (some []) [] 0)
        (sampleRequest [1] [sampleHash] (some ['x']) [] 0) := by
  refine ⟨coincide _ ?_ ?_ ?_ ?_, coincide _ ?_ ?_ ?_ ?_, coincide _ ?_ ?_ ?_ ?_,
    coincide _ ?_ ?_ ?_ ?_, coincide _ ?_ ?_ ?_ ?_, coincide _ ?_ ?_ ?_ ?_⟩
  all_goals
    first
      | decide
      | rw [requestBytes_eq, requestBytes_eq]
        decide +kernel

end Pomade.Signer
