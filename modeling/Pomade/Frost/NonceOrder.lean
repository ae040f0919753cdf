import Pomade.Frost.Panics
import Pomade.Frost.ScalarCurve

/-! # Nonces in any order

Participants collect the public nonces in different orders.  What `get_group_signing_ctx` computes
from them is hashed in the order of the indices, added up or looked up by index, and comes out
the same.
-/

namespace Pomade.Frost

open Pomade.Lib

/-! ## Loops -/

section Loops

variable {α β : Type}

/-- A loop whose rounds can be exchanged ends in the same way for every order of the list. -/
theorem foldlM_perm {f : β → α → Result β} {l l' : List α} (perm : l.Perm l')
    (exchange : ∀ a ∈ l, ∀ b ∈ l, ∀ acc,
      (f acc a >>= fun acc => f acc b) = (f acc b >>= fun acc => f acc a)) (acc : β) :
    l.foldlM f acc = l'.foldlM f acc := by
  induction perm generalizing acc with
  | nil => rfl
  | @cons a l l' perm ih =>
    rw [List.foldlM_cons, List.foldlM_cons]
    have inner := ih fun b there c here =>
      exchange b (List.mem_cons_of_mem _ there) c (List.mem_cons_of_mem _ here)
    cases f acc a with
    | error fault => rfl
    | ok next => exact inner next
  | @swap a b l =>
    have pair := exchange b (by simp) a (by simp) acc
    simp only [List.foldlM_cons]
    cases first : f acc b with
    | error fault =>
      rw [first, error_bind] at pair
      cases second : f acc a with
      | error fault' =>
        rw [second] at pair
        exact pair
      | ok next =>
        rw [second, ok_bind] at pair
        rw [error_bind, ok_bind, ← pair, error_bind]
    | ok next =>
      rw [first, ok_bind] at pair
      rw [ok_bind, pair]
      cases second : f acc a with
      | error fault => rfl
      | ok next' => rfl
  | trans perm perm' ih ih' =>
    refine (ih exchange acc).trans (ih' ?_ acc)
    intro a there b here
    exact exchange a (perm.symm.subset there) b (perm.symm.subset here)

end Loops

/-! ## Scalars -/

section Scalars

variable {l l' : List Scalar}

theorem isUniqueSet_perm (perm : l.Perm l') : isUniqueSet l = isUniqueSet l' := by
  rw [isUniqueSet, isUniqueSet]
  have same : (∀ x ∈ l, l.count x = 1) ↔ ∀ x ∈ l', l'.count x = 1 := by
    simp only [perm.mem_iff, perm.count_eq]
  by_cases unique : ∀ x ∈ l', l'.count x = 1
  · rw [if_pos (same.mpr unique), if_pos unique]
  · rw [if_neg fun all => unique (same.mp all), if_neg unique]

/-- The Lagrange coefficients do not depend on the order of the members. -/
theorem interpolateX_perm (perm : l.Perm l') (x : Scalar) : interpolateX l x = interpolateX l' x := by
  have included : isIncluded l x = isIncluded l' x := by
    rw [isIncluded, isIncluded]
    simp only [perm.mem_iff]
  have others := perm.filter fun xj => decide (xj ≠ x)
  rw [interpolateX, interpolateX, included, isUniqueSet_perm perm]
  dsimp only
  rw [others.prod_eq, (others.map _).prod_eq]

end Scalars

section Order

variable {Pt : Type} [AddCommGroup Pt] [Module Scalar Pt] [Curve Pt]
variable {pnonces pnonces' : List PublicNonce}

/-! ## Hashing -/

/-- The nonces are hashed in the order of their indices. -/
theorem getCommitsPrefix_of_perm (distinct : (pnonces.map (·.idx)).Nodup)
    (perm : pnonces.Perm pnonces') : getCommitsPrefix pnonces = getCommitsPrefix pnonces' := by
  have order : ∀ l : List PublicNonce,
      (l.insertionSort fun a b => a.idx ≤ b.idx).Pairwise fun a b => a.idx ≤ b.idx := by
    have : IsTrans PublicNonce fun a b => a.idx ≤ b.idx := ⟨fun _ _ _ => UInt32.le_trans⟩
    have : Std.Total fun a b : PublicNonce => a.idx ≤ b.idx := ⟨fun _ _ => UInt32.le_total _ _⟩
    exact List.pairwise_insertionSort _
  have sorted := fun l : List PublicNonce => List.perm_insertionSort (fun a b => a.idx ≤ b.idx) l
  have same : (pnonces.insertionSort fun a b => a.idx ≤ b.idx) =
      pnonces'.insertionSort fun a b => a.idx ≤ b.idx := by
    refine List.Perm.eq_of_pairwise ?_ (order _) (order _)
      ((sorted _).trans (perm.trans (sorted _).symm))
    intro a b member member' less less'
    exact List.inj_on_of_nodup_map distinct ((sorted _).subset member)
      (perm.symm.subset ((sorted _).subset member')) (UInt32.le_antisymm less less')
  rw [getCommitsPrefix, same, getCommitsPrefix]

variable [Sha2]

theorem getGroupPrefix_of_perm (distinct : (pnonces.map (·.idx)).Nodup)
    (perm : pnonces.Perm pnonces') (groupPk : Bytes 33) (message : List UInt8) :
    getGroupPrefix pnonces groupPk message = getGroupPrefix pnonces' groupPk message := by
  rw [getGroupPrefix, getGroupPrefix, getCommitsPrefix_of_perm distinct perm]

/-! ## Binding factors -/

/-- The factor of an index depends on the prefix and the index only. -/
theorem getBindFactor_getGroupBinders (pnonces : List PublicNonce) (groupPrefix : List UInt8)
    (idx : UInt32) :
    getBindFactor (getGroupBinders pnonces groupPrefix) idx =
      if idx ∈ pnonces.map (·.idx) then .ok (h1 (groupPrefix ++ (serializeScalarU32 idx).data))
      else .error (.err (.recordNotFound idx)) := by
  induction pnonces with
  | nil => rfl
  | cons pn pnonces ih =>
    by_cases same : pn.idx = idx
    · subst same
      simp [getBindFactor, getGroupBinders]
    · have rest : getBindFactor (getGroupBinders (pn :: pnonces) groupPrefix) idx =
          getBindFactor (getGroupBinders pnonces groupPrefix) idx := by
        rw [getGroupBinders, List.map_cons, getBindFactor, List.find?_cons_of_neg (by simpa using same)]
        rfl
      rw [rest, ih]
      simp [Ne.symm same]

theorem getBindFactor_of_perm (perm : pnonces.Perm pnonces') (groupPrefix : List UInt8) (idx : UInt32) :
    getBindFactor (getGroupBinders pnonces groupPrefix) idx =
      getBindFactor (getGroupBinders pnonces' groupPrefix) idx := by
  rw [getBindFactor_getGroupBinders, getBindFactor_getGroupBinders]
  simp only [(perm.map (·.idx)).mem_iff]

/-! ## The group nonce -/

omit [Sha2] in
theorem fault_of_liftX {bytes : List UInt8} {fault : Fault}
    (failed : (liftX bytes : Result Pt) = .error fault) : fault = .err .invalidPoint := by
  have decoding : ∀ encoded : Bytes 33, (deserializePoint encoded : Result Pt) = .error fault →
      fault = .err .invalidPoint := by
    intro encoded failed
    rw [deserializePoint] at failed
    split at failed
    · cases failed
    · cases failed
      rfl
  rw [liftX] at failed
  split at failed
  · exact decoding _ failed
  · exact decoding _ failed
  · cases failed
    rfl

variable (Pt) in
/-- What a nonce adds to the group nonce. -/
def nonceTerm (factor : Bytes 32) (pn : PublicNonce) : Result Pt := do
  let hiddenElem : Pt ← liftX pn.hiddenPn.data
  let bindingElem : Pt ← liftX pn.binderPn.data
  return hiddenElem + scalarFromBytes factor • bindingElem

omit [Sha2] in
theorem fault_of_nonceTerm {factor : Bytes 32} {pn : PublicNonce} {fault : Fault}
    (failed : nonceTerm Pt factor pn = .error fault) : fault = .err .invalidPoint := by
  rw [nonceTerm] at failed
  cases hidden : (liftX pn.hiddenPn.data : Result Pt) with
  | error fault' =>
    rw [hidden] at failed
    cases failed
    exact fault_of_liftX hidden
  | ok hiddenElem =>
    rw [hidden, ok_bind] at failed
    cases binding : (liftX pn.binderPn.data : Result Pt) with
    | error fault' =>
      rw [binding] at failed
      cases failed
      exact fault_of_liftX binding
    | ok bindingElem =>
      rw [binding] at failed
      cases failed

omit [Sha2] in
theorem addPubnonce_eq {binders : List BindFactor} {pn : PublicNonce} {factor : Bytes 32}
    (found : getBindFactor binders pn.idx = .ok factor) (groupCommit : Option Pt) :
    addPubnonce Pt binders groupCommit pn =
      nonceTerm Pt factor pn >>= fun point => .ok (some (groupCommit.getD 0 + point)) := by
  rw [addPubnonce, nonceTerm, found]
  cases (liftX pn.hiddenPn.data : Result Pt) with
  | error fault => rfl
  | ok hiddenElem =>
    cases (liftX pn.binderPn.data : Result Pt) with
    | error fault => rfl
    | ok bindingElem =>
      cases groupCommit with
      | none =>
        show Except.ok (some (hiddenElem + scalarFromBytes factor • bindingElem)) =
          Except.ok (some (0 + (hiddenElem + scalarFromBytes factor • bindingElem)))
        rw [zero_add]
      | some sum =>
        show Except.ok (some (sum + hiddenElem + scalarFromBytes factor • bindingElem)) =
          Except.ok (some (sum + (hiddenElem + scalarFromBytes factor • bindingElem)))
        rw [add_assoc]

omit [Sha2] in
/-- Two rounds of the loop can be exchanged. -/
theorem addPubnonce_exchange {binders : List BindFactor} {a b : PublicNonce} {factor factor' : Bytes 32}
    (found : getBindFactor binders a.idx = .ok factor)
    (found' : getBindFactor binders b.idx = .ok factor') (acc : Option Pt) :
    (addPubnonce Pt binders acc a >>= fun acc => addPubnonce Pt binders acc b) =
      (addPubnonce Pt binders acc b >>= fun acc => addPubnonce Pt binders acc a) := by
  simp only [addPubnonce_eq found, addPubnonce_eq found']
  cases first : nonceTerm Pt factor a with
  | error fault =>
    cases second : nonceTerm Pt factor' b with
    | error fault' =>
      rw [fault_of_nonceTerm first, fault_of_nonceTerm second]
    | ok point' => rfl
  | ok point =>
    cases second : nonceTerm Pt factor' b with
    | error fault' => rfl
    | ok point' =>
      show Except.ok (some (acc.getD 0 + point + point')) = Except.ok (some (acc.getD 0 + point' + point))
      rw [add_right_comm]

/-- The group nonce is a sum. -/
theorem getGroupPubnonce_of_perm (perm : pnonces.Perm pnonces') (groupPrefix : List UInt8) :
    getGroupPubnonce Pt pnonces (getGroupBinders pnonces groupPrefix) =
      getGroupPubnonce Pt pnonces' (getGroupBinders pnonces' groupPrefix) := by
  have rounds : addPubnonce Pt (getGroupBinders pnonces groupPrefix) =
      addPubnonce Pt (getGroupBinders pnonces' groupPrefix) := by
    funext acc pn
    rw [addPubnonce, addPubnonce, getBindFactor_of_perm perm]
  have found : ∀ pn ∈ pnonces', getBindFactor (getGroupBinders pnonces' groupPrefix) pn.idx =
      .ok (h1 (groupPrefix ++ (serializeScalarU32 pn.idx).data)) := by
    intro pn member
    rw [getBindFactor_getGroupBinders, if_pos (List.mem_map_of_mem member)]
  rw [getGroupPubnonce, getGroupPubnonce, rounds, foldlM_perm perm]
  intro a there b here acc
  exact addPubnonce_exchange (found a (perm.subset there)) (found b (perm.subset here)) acc

/-! ## Contexts -/

/-- Two contexts have the same keys, factors, nonce and challenge, and sign in the same way. -/
structure SameContext (ctx ctx' : GroupSigningCtx Pt) : Prop where
  groupPt : ctx.groupPt = ctx'.groupPt
  groupPk : ctx.groupPk = ctx'.groupPk
  bindFactor : ∀ idx, getBindFactor ctx.bindFactors idx = getBindFactor ctx'.bindFactors idx
  groupPn : ctx.groupPn = ctx'.groupPn
  challenge : ctx.challenge = ctx'.challenge
  signs : ∀ share snonce, signMsg ctx share snonce = signMsg ctx' share snonce

omit [Sha2] in
theorem signMsg_congr {ctx ctx' : GroupSigningCtx Pt} (groupPt : ctx.groupPt = ctx'.groupPt)
    (bindFactor : ∀ idx, getBindFactor ctx.bindFactors idx = getBindFactor ctx'.bindFactors idx)
    (groupPn : ctx.groupPn = ctx'.groupPn) (challenge : ctx.challenge = ctx'.challenge)
    (indexes : ctx.indexes.Perm ctx'.indexes) (share : SecretShare) (snonce : SecretNonce) :
    signMsg ctx share snonce = signMsg ctx' share snonce := by
  rw [signMsg, signMsg, groupPt, bindFactor, groupPn, challenge]
  dsimp only
  rw [interpolateX_perm (indexes.map indexToScalar)]

/-- The context for the same nonces in another order. -/
def reordered (pnonces : List PublicNonce) (ctx : GroupSigningCtx Pt) : GroupSigningCtx Pt :=
  { ctx with
    bindFactors := getGroupBinders pnonces ctx.bindPrefix
    indexes := getNonceIds pnonces
    pnonces := pnonces }

theorem getGroupSigningCtx_of_perm (distinct : (pnonces.map (·.idx)).Nodup)
    (perm : pnonces.Perm pnonces') (groupPk message : List UInt8) (tweaks : List (Bytes 32)) :
    getGroupSigningCtx Pt groupPk pnonces' message tweaks =
      (getGroupSigningCtx Pt groupPk pnonces message tweaks).map (reordered pnonces') := by
  rw [getGroupSigningCtx, getGroupSigningCtx]
  cases (liftX groupPk : Result Pt) with
  | error fault => rfl
  | ok intPt =>
    simp only [ok_bind]
    cases serializePoint intPt with
    | error fault => rfl
    | ok _ =>
      simp only [ok_bind]
      cases getPointState intPt tweaks with
      | error fault => rfl
      | ok groupPt =>
        simp only [ok_bind]
        cases serializePoint groupPt.point with
        | error fault => rfl
        | ok groupPk =>
          simp only [ok_bind]
          rw [getGroupPrefix_of_perm distinct perm, getGroupPubnonce_of_perm perm]
          cases getGroupPubnonce Pt pnonces'
            (getGroupBinders pnonces' (getGroupPrefix pnonces' groupPk message)) with
          | error fault => rfl
          | ok groupPn =>
            simp only [ok_bind]
            cases getChallenge groupPn.data groupPk.data message with
            | error fault => rfl
            | ok challenge => rfl

/-- The lists of a context are computed from the nonces. -/
theorem lists_of_getGroupSigningCtx {groupPk message : List UInt8} {tweaks : List (Bytes 32)}
    {ctx : GroupSigningCtx Pt}
    (built : getGroupSigningCtx Pt groupPk pnonces message tweaks = .ok ctx) :
    ctx.bindFactors = getGroupBinders pnonces ctx.bindPrefix ∧ ctx.indexes = getNonceIds pnonces := by
  rw [getGroupSigningCtx] at built
  obtain ⟨_, _, built⟩ := bind_ok built
  obtain ⟨_, _, built⟩ := bind_ok built
  obtain ⟨_, _, built⟩ := bind_ok built
  obtain ⟨_, _, built⟩ := bind_ok built
  obtain ⟨_, _, built⟩ := bind_ok built
  obtain ⟨_, _, built⟩ := bind_ok built
  cases built
  exact ⟨rfl, rfl⟩

theorem sameContext_reordered (perm : pnonces.Perm pnonces') {groupPk message : List UInt8}
    {tweaks : List (Bytes 32)} {ctx : GroupSigningCtx Pt}
    (built : getGroupSigningCtx Pt groupPk pnonces message tweaks = .ok ctx) :
    SameContext ctx (reordered pnonces' ctx) := by
  obtain ⟨factors, indexes⟩ := lists_of_getGroupSigningCtx built
  have bindFactor : ∀ idx, getBindFactor ctx.bindFactors idx =
      getBindFactor (reordered pnonces' ctx).bindFactors idx := by
    intro idx
    rw [factors]
    exact getBindFactor_of_perm perm _ idx
  have others : ctx.indexes.Perm (reordered pnonces' ctx).indexes := by
    rw [indexes]
    exact perm.map _
  exact ⟨rfl, rfl, bindFactor, rfl, rfl, signMsg_congr rfl bindFactor rfl rfl others⟩

variable (Pt) in
/-- For nonces with distinct indices in any order the context is the same, or the same error. -/
theorem nonce_order_irrelevant (distinct : (pnonces.map (·.idx)).Nodup) (perm : pnonces.Perm pnonces')
    (groupPk : List UInt8) (message : List UInt8) (tweaks : List (Bytes 32)) :
    (∃ fault, getGroupSigningCtx Pt groupPk pnonces message tweaks = .error fault ∧
      getGroupSigningCtx Pt groupPk pnonces' message tweaks = .error fault) ∨
    ∃ ctx ctx', getGroupSigningCtx Pt groupPk pnonces message tweaks = .ok ctx ∧
      getGroupSigningCtx Pt groupPk pnonces' message tweaks = .ok ctx' ∧ SameContext ctx ctx' := by
  rw [getGroupSigningCtx_of_perm distinct perm]
  cases built : getGroupSigningCtx Pt groupPk pnonces message tweaks with
  | error fault => exact .inl ⟨fault, rfl, rfl⟩
  | ok ctx => exact .inr ⟨ctx, _, rfl, rfl, sameContext_reordered perm built⟩

end Order

/-! ## Two members -/

/-- The nonces of two members, each made of the same point twice. -/
def noncesOfTwo : List PublicNonce :=
  [⟨1, Bytes.ofNat 33 (2 * 256 ^ 32 + 5), Bytes.ofNat 33 (2 * 256 ^ 32 + 5)⟩,
    ⟨2, Bytes.ofNat 33 (3 * 256 ^ 32 + 7), Bytes.ofNat 33 (3 * 256 ^ 32 + 7)⟩]

/-- A key of two members. -/
def keyOfTwo : List UInt8 := (Bytes.ofNat 33 (2 * 256 ^ 32 + 11)).data

/-- Two members that received the two nonces in different orders. -/
theorem nonces_of_two_swapped :
    let _ := lastBytes
    (∃ fault, getGroupSigningCtx Scalar keyOfTwo noncesOfTwo [1] [] = .error fault ∧
      getGroupSigningCtx Scalar keyOfTwo noncesOfTwo.reverse [1] [] = .error fault) ∨
    ∃ ctx ctx', getGroupSigningCtx Scalar keyOfTwo noncesOfTwo [1] [] = .ok ctx ∧
      getGroupSigningCtx Scalar keyOfTwo noncesOfTwo.reverse [1] [] = .ok ctx' ∧
      SameContext ctx ctx' := by
  have distinct : (noncesOfTwo.map (·.idx)).Nodup := by simp [noncesOfTwo]
  have perm : noncesOfTwo.Perm noncesOfTwo.reverse := noncesOfTwo.reverse_perm.symm
  intro hash
  exact nonce_order_irrelevant Scalar distinct perm keyOfTwo [1] []

end Pomade.Frost
