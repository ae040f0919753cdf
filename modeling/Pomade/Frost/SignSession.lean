import Mathlib.Data.List.Perm.Subperm
import Pomade.Frost.SessionId

/-! # Signing sessions of the FROST crate

The packages of `frost/signing.rs`.  A session has two lists of indices, the members that are
hashed into its id and the owners of its nonces, and what is signed is computed from the second.
Only the lengths of the two are compared when a session is created.
-/

namespace Pomade.Frost

open Pomade.Lib

/-- A member's secret share of the group key. -/
structure SharePackage where
  idx : UInt32
  seckey : Bytes 32

/-- Secret nonce pair re-derived from a code during signing. -/
structure SecretNoncePair where
  code : Bytes 32
  binderSn : Bytes 32
  hiddenSn : Bytes 32

/-- A partial signature produced by one member for one message. -/
structure PartialSig where
  message : List UInt8
  psig : Bytes 32

/-- A partial signature package from one member covering all session messages. -/
structure PartialSigPackage where
  idx : UInt32
  pubkey : Bytes 33
  sid : Bytes 32
  psigs : List PartialSig

def buildPublicNonces (nonces : List MemberNonce) : List PublicNonce :=
  nonces.map fun n => { idx := n.idx, binderPn := n.binderPn, hiddenPn := n.hiddenPn }

section Packages

variable (Pt : Type) [AddCommGroup Pt] [Module Scalar Pt] [Curve Pt] [Sha2]

/-- The context in which a message of the session is signed. -/
def sessionCtx (session : SignSession) (message : Message) : Result (GroupSigningCtx Pt) :=
  getGroupSigningCtx Pt session.groupPk.data (buildPublicNonces session.nonces) message.1 message.2

/-- Produce a partial signature package for all messages in a session. -/
def createPartialSigPackage (session : SignSession) (share : SharePackage)
    (secretNonce : SecretNoncePair) : Result PartialSigPackage := do
  let lowShare : SecretShare := { idx := share.idx, seckey := share.seckey }
  let lowSnonce : SecretNonce :=
    { idx := share.idx, binderSn := secretNonce.binderSn, hiddenSn := secretNonce.hiddenSn }
  let psigs ← session.messages.mapM fun message => do
    let ctx ← sessionCtx Pt session message
    let sig ← signMsg ctx lowShare lowSnonce
    return { message := message.1, psig := sig.psig : PartialSig }
  let pubkey ← getPubkey Pt share.seckey
  return { idx := share.idx, pubkey, sid := session.sid, psigs }

end Packages

/-! ## One nonce per member -/

/-- The owners of the nonces, in the order in which they were given. -/
def SignSession.owners (session : SignSession) : List UInt32 := session.nonces.map (·.idx)

/-- A list has each of the members once and nobody else. -/
def ListsOnce (indices members : List UInt32) : Prop := indices.Perm members ∧ indices.Nodup

/-- The session has one nonce per member that is hashed into its id. -/
def Consistent (session : SignSession) : Prop := ListsOnce session.owners session.members

/-- Coefficients and binding factors are those of the members hashed into the id. -/
def SignsFor {Pt : Type} (ctx : GroupSigningCtx Pt) (session : SignSession) : Prop :=
  ListsOnce ctx.indexes session.members ∧ ListsOnce (ctx.bindFactors.map (·.idx)) session.members

section Lists

variable {indices members : List UInt32}

theorem listsOnce_of_subset (distinct : members.Nodup) (covered : members ⊆ indices)
    (count : indices.length = members.length) : ListsOnce indices members := by
  have same : members.Perm indices := (distinct.subperm covered).perm_of_length_le count.le
  exact ⟨same.symm, same.nodup_iff.mp distinct⟩

theorem listsOnce_iff (count : indices.length = members.length) :
    ListsOnce indices members ↔ members.Nodup ∧ members ⊆ indices := by
  constructor
  · intro once
    exact ⟨once.1.nodup_iff.mp once.2, once.1.symm.subset⟩
  · intro covered
    exact listsOnce_of_subset covered.1 covered.2 count

/-- Of indices that are distinct it is enough that they are members. -/
theorem listsOnce_iff_of_nodup (count : indices.length = members.length)
    (distinct : indices.Nodup) : ListsOnce indices members ↔ indices ⊆ members := by
  constructor
  · intro once
    exact once.1.subset
  · intro known
    exact ⟨(distinct.subperm known).perm_of_length_le count.ge, distinct⟩

theorem listsOnce_congr {members' : List UInt32} (same : members.Perm members') :
    ListsOnce indices members ↔ ListsOnce indices members' := by
  rw [ListsOnce, ListsOnce, same.congr_right]

end Lists

/-! ## What a session is made of -/

section Sessions

variable [Sha2] {group : GroupPackage} {members : List UInt32} {messages : List Message}
variable {nonces : List MemberNonce} {session : SignSession}

theorem createSignSession_nonces
    (made : createSignSession group members messages nonces = .ok session) :
    session.nonces = nonces ∧ nonces.length = members.length := by
  rw [createSignSession] at made
  by_cases one : messages.length ≠ 1
  · rw [if_pos one] at made
    cases made
  rw [if_neg one] at made
  by_cases count : nonces.length ≠ members.length
  · rw [if_pos count] at made
    cases made
  rw [if_neg count] at made
  cases made
  exact ⟨rfl, not_not.mp count⟩

/-- The members of a session are those it was created with, in another order. -/
theorem createSignSession_members
    (made : createSignSession group members messages nonces = .ok session) :
    members.Perm session.members := by
  rw [(createSignSession_ok made).2.1]
  exact (List.perm_insertionSort _ members).symm

theorem consistent_iff (made : createSignSession group members messages nonces = .ok session) :
    Consistent session ↔ ListsOnce (nonces.map (·.idx)) members := by
  rw [Consistent, SignSession.owners, (createSignSession_nonces made).1]
  exact (listsOnce_congr (createSignSession_members made)).symm

end Sessions

/-! ## What is signed -/

theorem getNonceIds_build (nonces : List MemberNonce) :
    getNonceIds (buildPublicNonces nonces) = nonces.map (·.idx) := by
  simp [getNonceIds, buildPublicNonces]

/-- Interpolation insists on indices that are distinct. -/
theorem nodup_of_interpolateX {l : List Scalar} {x coefficient : Scalar}
    (done : interpolateX l x = .ok coefficient) : l.Nodup := by
  rw [interpolateX] at done
  obtain ⟨_, _, done⟩ := bind_ok done
  obtain ⟨_, unique, _⟩ := bind_ok done
  rw [isUniqueSet] at unique
  by_cases once : ∀ y ∈ l, l.count y = 1
  · exact List.nodup_iff_count_eq_one.mpr once
  · rw [if_neg once] at unique
    cases unique

section Signed

variable {Pt : Type} [AddCommGroup Pt] [Module Scalar Pt] [Curve Pt] {ctx : GroupSigningCtx Pt}

theorem nodup_of_signMsg {share : SecretShare} {snonce : SecretNonce} {sig : ShareSignature}
    (signed : signMsg ctx share snonce = .ok sig) : ctx.indexes.Nodup := by
  rw [signMsg] at signed
  by_cases other : snonce.idx ≠ share.idx
  · rw [if_pos other] at signed
    cases signed
  rw [if_neg other] at signed
  obtain ⟨_, _, signed⟩ := bind_ok signed
  obtain ⟨coefficient, interpolated, _⟩ := bind_ok signed
  exact (nodup_of_interpolateX interpolated).of_map indexToScalar

variable [Sha2] {session : SignSession} {message : Message}

theorem binders_build (nonces : List MemberNonce) (groupPrefix : List UInt8) :
    (getGroupBinders (buildPublicNonces nonces) groupPrefix).map (·.idx) = nonces.map (·.idx) := by
  simp [getGroupBinders, buildPublicNonces]

/-- Coefficients and binding factors are computed for the owners of the nonces. -/
theorem sessionCtx_owners (built : sessionCtx Pt session message = .ok ctx) :
    ctx.indexes = session.owners ∧ ctx.bindFactors.map (·.idx) = session.owners := by
  rw [sessionCtx, getGroupSigningCtx] at built
  obtain ⟨point, _, built⟩ := bind_ok built
  obtain ⟨_, _, built⟩ := bind_ok built
  obtain ⟨groupPt, _, built⟩ := bind_ok built
  obtain ⟨groupPk, _, built⟩ := bind_ok built
  obtain ⟨groupPn, _, built⟩ := bind_ok built
  obtain ⟨challenge, _, built⟩ := bind_ok built
  cases built
  exact ⟨getNonceIds_build session.nonces, binders_build session.nonces _⟩

theorem signsFor_iff (built : sessionCtx Pt session message = .ok ctx) :
    SignsFor ctx session ↔ Consistent session := by
  rw [SignsFor, (sessionCtx_owners built).1, (sessionCtx_owners built).2, Consistent, and_self]

/-- A nonce that is listed twice is noticed when the first package is made. -/
theorem nodup_of_createPartialSigPackage {share : SharePackage} {secretNonce : SecretNoncePair}
    {pkg : PartialSigPackage} (some_message : session.messages.length = 1)
    (made : createPartialSigPackage Pt session share secretNonce = .ok pkg) :
    session.owners.Nodup := by
  -- The session has a message, so the loop ran at least once.
  obtain ⟨message, only⟩ := List.length_eq_one_iff.mp some_message
  rw [createPartialSigPackage] at made
  obtain ⟨psigs, signed, _⟩ := bind_ok made
  obtain ⟨psig, round⟩ := of_mapM_ok signed message (by simp [only])
  obtain ⟨ctx, built, round⟩ := bind_ok round
  obtain ⟨sig, signed, _⟩ := bind_ok round
  rw [← (sessionCtx_owners built).1]
  exact nodup_of_signMsg signed

end Signed

/-! ## When a session is consistent -/

/-- A session that is created has one nonce per member, and signs for the members in its id, if
and only if no member is given twice and each has a nonce.  Once a package was made the nonces
belong to distinct members, and it is enough that all of these take part. -/
theorem sign_session_consistent_iff (Pt : Type) [AddCommGroup Pt] [Module Scalar Pt] [Curve Pt]
    [Sha2] {group : GroupPackage} {members : List UInt32} {messages : List Message}
    {nonces : List MemberNonce} {session : SignSession}
    (made : createSignSession group members messages nonces = .ok session) :
    session.sid = computeSessionId group session.members session.messages ∧
    (Consistent session ↔ members.Nodup ∧ members ⊆ nonces.map (·.idx)) ∧
    (∀ message ctx, sessionCtx Pt session message = .ok ctx →
      (SignsFor ctx session ↔ members.Nodup ∧ members ⊆ nonces.map (·.idx))) ∧
    ∀ share secretNonce pkg, createPartialSigPackage Pt session share secretNonce = .ok pkg →
      (Consistent session ↔ nonces.map (·.idx) ⊆ members) := by
  obtain ⟨kept, count⟩ := createSignSession_nonces made
  have lengths : (nonces.map (·.idx)).length = members.length := by
    rw [List.length_map, count]
  have consistent : Consistent session ↔ members.Nodup ∧ members ⊆ nonces.map (·.idx) := by
    rw [consistent_iff made, listsOnce_iff lengths]
  refine ⟨(createSignSession_ok made).1, consistent, ?_, ?_⟩
  · intro message ctx built
    rw [signsFor_iff built, consistent]
  · intro share secretNonce pkg packaged
    have distinct : (nonces.map (·.idx)).Nodup := by
      rw [← kept]
      exact nodup_of_createPartialSigPackage (createSignSession_ok made).2.2.2 packaged
    rw [consistent_iff made, listsOnce_iff_of_nodup lengths distinct]

/-- A nonce of the member with this index. -/
def nonceOf (idx : UInt32) : MemberNonce where
  idx := idx
  binderPn := Bytes.ofNat 33 2
  hiddenPn := Bytes.ofNat 33 2
  code := Bytes.ofNat 32 0

/-- A session of two members whose nonces have these owners. -/
def pairSession [Sha2] (owners : List UInt32) : SignSession where
  sid := computeSessionId (pairGroup 2 2) [1, 2] [([7], [])]
  groupPk := (pairGroup 2 2).groupPk
  members := [1, 2]
  messages := [([7], [])]
  nonces := owners.map nonceOf

/-- The members may be given in any order. -/
theorem sign_session_consistent_pair :
    let _ := lastBytes
    Consistent (pairSession [1, 2]) := by
  intro _
  have made : createSignSession (pairGroup 2 2) [2, 1] [([7], [])] ([1, 2].map nonceOf) =
      .ok (pairSession [1, 2]) := rfl
  exact (sign_session_consistent_iff Scalar made).2.1.mpr ⟨by decide, by decide⟩

/-- A session is created with a nonce of one member twice, or of somebody else. -/
theorem sign_session_inconsistent :
    let _ := lastBytes
    ∀ owners ∈ [[1, 1], [1, 3]],
      createSignSession (pairGroup 2 2) [1, 2] [([7], [])] (owners.map nonceOf) =
        .ok (pairSession owners) ∧ ¬ Consistent (pairSession owners) := by
  intro _ owners listed
  have owned : (pairSession owners).owners = owners := by
    simp [pairSession, SignSession.owners, nonceOf, Function.comp_def]
  have missing : 2 ∉ owners := by
    revert owners
    decide
  refine ⟨?_, ?_⟩
  · have count : owners.length = 2 := by
      revert owners
      decide
    have lengths : (owners.map nonceOf).length = ([1, 2] : List UInt32).length := by simp [count]
    rw [createSignSession, if_neg (by simp), if_neg (not_not.mpr lengths)]
    rfl
  · intro consistent
    rw [Consistent, owned] at consistent
    exact missing (consistent.1.symm.subset (by simp [pairSession]))

end Pomade.Frost
