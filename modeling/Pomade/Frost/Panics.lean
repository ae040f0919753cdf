import Pomade.Frost.Points
import Pomade.Frost.Sharing

/-! # Where the FROST crate panics

Only `serialize_point` panics, on the identity.  For each function that reaches it this says for
which inputs it gets there with the identity in hand.
-/

namespace Pomade.Frost

open Pomade.Lib

/-- The call stops the thread. -/
def Panics {α : Type} (result : Result α) : Prop := ∃ reason, result = .error (.panic reason)

section Results

variable {α β : Type}

@[simp] theorem not_panics_ok (a : α) : ¬ Panics (.ok a : Result α) := by
  rintro ⟨reason, impossible⟩
  cases impossible

@[simp] theorem not_panics_pure (a : α) : ¬ Panics (pure a : Result α) := not_panics_ok a

@[simp] theorem not_panics_err (e : Error) : ¬ Panics (.error (.err e) : Result α) := by
  rintro ⟨reason, impossible⟩
  cases impossible

@[simp] theorem not_panics_throw (e : Error) : ¬ Panics (throw (.err e) : Result α) :=
  not_panics_err e

@[simp] theorem panics_panic (reason : String) : Panics (.error (.panic reason) : Result α) :=
  ⟨reason, rfl⟩

/-- A sequence panics in its first part, or in the rest after a first part that is done. -/
theorem panics_bind (x : Result α) (f : α → Result β) :
    Panics (x >>= f) ↔ Panics x ∨ ∃ a, x = .ok a ∧ Panics (f a) := by
  cases x with
  | ok a => simp
  | error fault =>
    cases fault with
    | err e => simp
    | panic reason => simp

theorem panics_bind_of_not {x : Result α} (calm : ¬ Panics x) (f : α → Result β) :
    Panics (x >>= f) ↔ ∃ a, x = .ok a ∧ Panics (f a) := by
  rw [panics_bind, or_iff_right calm]

theorem panics_bind_of_rest {x : Result α} {f : α → Result β} (calm : ∀ a, x = .ok a → ¬ Panics (f a)) :
    Panics (x >>= f) ↔ Panics x := by
  rw [panics_bind, or_iff_left]
  rintro ⟨a, done, panics⟩
  exact calm a done panics

theorem not_panics_bind {x : Result α} {f : α → Result β} (calm : ¬ Panics x)
    (rest : ∀ a, x = .ok a → ¬ Panics (f a)) : ¬ Panics (x >>= f) := by
  rw [panics_bind_of_not calm]
  rintro ⟨a, done, panics⟩
  exact rest a done panics

theorem not_panics_foldlM {f : β → α → Result β} (each : ∀ b a, ¬ Panics (f b a)) (l : List α)
    (start : β) : ¬ Panics (l.foldlM f start) := by
  induction l generalizing start with
  | nil => exact not_panics_pure start
  | cons a l ih =>
    rw [List.foldlM_cons]
    exact not_panics_bind (each start a) fun b _ => ih b

end Results

/-! ## Scalars -/

theorem not_panics_isUniqueSet (l : List Scalar) : ¬ Panics (isUniqueSet l) := by
  rw [isUniqueSet]
  split <;> simp

theorem not_panics_isIncluded (l : List Scalar) (x : Scalar) : ¬ Panics (isIncluded l x) := by
  rw [isIncluded]
  split <;> simp

theorem not_panics_scalarInvert (a : Scalar) : ¬ Panics (scalarInvert a) := by
  rw [scalarInvert]
  split <;> simp

theorem not_panics_interpolateX (l : List Scalar) (x : Scalar) : ¬ Panics (interpolateX l x) := by
  refine not_panics_bind (not_panics_isIncluded l x) fun _ _ => ?_
  refine not_panics_bind (not_panics_isUniqueSet l) fun _ _ => ?_
  exact not_panics_bind (not_panics_scalarInvert _) fun _ _ => not_panics_pure _

theorem not_panics_calcLagrangeCoeff (l : List Scalar) (p x : Scalar) :
    ¬ Panics (calcLagrangeCoeff l p x) := by
  refine not_panics_bind (not_panics_isUniqueSet l) fun _ _ => ?_
  exact not_panics_bind (not_panics_scalarInvert _) fun _ _ => not_panics_pure _

theorem calcLagrangeCoeff_ok {l : List Scalar} {p x coefficient : Scalar} :
    calcLagrangeCoeff l p x = .ok coefficient ↔ l.Nodup ∧ coefficient = weight l p x := by
  constructor
  · intro done
    have nodup : l.Nodup := by
      obtain ⟨_, unique, _⟩ := bind_ok done
      rw [isUniqueSet] at unique
      by_cases once : ∀ y ∈ l, l.count y = 1
      · exact List.nodup_iff_count_eq_one.mpr once
      · rw [if_neg once] at unique
        cases unique
    rw [calcLagrangeCoeff_eq nodup] at done
    cases done
    exact ⟨nodup, rfl⟩
  · rintro ⟨nodup, rfl⟩
    exact calcLagrangeCoeff_eq nodup

/-! ## Points -/

section Points

variable {Pt : Type} [AddCommGroup Pt] [Module Scalar Pt] [Curve Pt]

theorem panics_serializePoint {P : Pt} : Panics (serializePoint P) ↔ P = 0 := by
  rw [serializePoint, ← Curve.isIdentity_iff]
  split
  next identity => simp [identity]
  next finite => simp [finite]

theorem not_panics_deserializePoint (bytes : Bytes 33) :
    ¬ Panics (deserializePoint bytes : Result Pt) := by
  rw [deserializePoint]
  split <;> simp

theorem not_panics_liftX (bytes : List UInt8) : ¬ Panics (liftX bytes : Result Pt) := by
  rw [liftX]
  split
  · exact not_panics_deserializePoint _
  · exact not_panics_deserializePoint _
  · simp

omit [Module Scalar Pt] [Curve Pt] in
theorem not_panics_elementAdd (a b : Option Pt) : ¬ Panics (elementAdd a b) := by
  cases a <;> cases b <;> simp [elementAdd]

variable (Pt) in
theorem panics_getPubkey {secret : Bytes 32} :
    Panics (getPubkey Pt secret) ↔ scalarFromBytes secret = 0 := by
  rw [getPubkey, panics_serializePoint, scalarBaseMulti_eq_zero]

variable (Pt) in
/-- Panicking is the only way in which a public key is not derived. -/
theorem getPubkey_ne_err (secret : Bytes 32) (e : Error) : getPubkey Pt secret ≠ .error (.err e) := by
  rw [getPubkey, serializePoint]
  split <;> simp

theorem panics_tweakPubkey {pubkey : List UInt8} {tweak : Bytes 32} :
    Panics (tweakPubkey Pt pubkey tweak) ↔
      ∃ P : Pt, liftX pubkey = .ok P ∧ P + scalarBaseMulti Pt (scalarFromBytes tweak) = 0 := by
  rw [tweakPubkey, panics_bind_of_not (not_panics_liftX _)]
  apply exists_congr
  intro P
  rw [← panics_serializePoint]
  rfl

/-- A commitment is made unless one of the nonces is zero. -/
theorem panics_createCommitPkg [Sha2] {share : SecretShare} {hiddenSeed binderSeed : Bytes 32} :
    Panics (createCommitPkg Pt share hiddenSeed binderSeed) ↔
      scalarFromBytes (generateNonce share.seckey binderSeed) = 0 ∨
        scalarFromBytes (generateNonce share.seckey hiddenSeed) = 0 := by
  rw [createCommitPkg, panics_bind, panics_getPubkey]
  by_cases zero : scalarFromBytes (generateNonce share.seckey binderSeed) = 0
  · simp [zero]
  · have made : ∃ pubkey, getPubkey Pt (generateNonce share.seckey binderSeed) = .ok pubkey :=
      ⟨_, serializePoint_eq (scalarBaseMulti_ne_zero zero)⟩
    obtain ⟨pubkey, made⟩ := made
    rw [or_iff_right zero, or_iff_right zero, made]
    simp only [Except.ok.injEq, exists_eq_left']
    rw [panics_bind, panics_getPubkey]
    simp

variable (Pt) in
theorem createCommitPkg_ne_err [Sha2] (share : SecretShare) (hiddenSeed binderSeed : Bytes 32)
    (e : Error) : createCommitPkg Pt share hiddenSeed binderSeed ≠ .error (.err e) := by
  rw [createCommitPkg]
  cases binder : getPubkey Pt (generateNonce share.seckey binderSeed) with
  | error fault =>
    intro failed
    cases failed
    exact getPubkey_ne_err Pt _ e binder
  | ok binderPn =>
    cases hidden : getPubkey Pt (generateNonce share.seckey hiddenSeed) with
    | error fault =>
      intro failed
      cases failed
      exact getPubkey_ne_err Pt _ e hidden
    | ok hiddenPn => nofun

/-! ## Signing contexts -/

omit [AddCommGroup Pt] [Module Scalar Pt] [Curve Pt] in
theorem not_panics_convertPubkeyToBip340 (pubkey : List UInt8) :
    ¬ Panics (convertPubkeyToBip340 pubkey) := by
  rw [convertPubkeyToBip340]
  split
  · simp
  · split <;> simp

theorem not_panics_getChallenge [Sha2] (pnonce pubkey message : List UInt8) :
    ¬ Panics (getChallenge pnonce pubkey message) := by
  refine not_panics_bind (not_panics_convertPubkeyToBip340 _) fun grpPn _ => ?_
  refine not_panics_bind (not_panics_convertPubkeyToBip340 _) fun grpPk _ => ?_
  dsimp only
  split
  · exact not_panics_err _
  · split
    · exact not_panics_err _
    · exact not_panics_pure _

theorem not_panics_getBindFactor (binders : List BindFactor) (idx : UInt32) :
    ¬ Panics (getBindFactor binders idx) := by
  rw [getBindFactor]
  split <;> simp

theorem not_panics_addPubnonce (binders : List BindFactor) (sum : Option Pt) (pn : PublicNonce) :
    ¬ Panics (addPubnonce Pt binders sum pn) := by
  refine not_panics_bind (not_panics_liftX _) fun hidden _ => ?_
  refine not_panics_bind (not_panics_liftX _) fun binding _ => ?_
  refine not_panics_bind (not_panics_getBindFactor _ _) fun factor _ => ?_
  refine not_panics_bind (not_panics_elementAdd _ _) fun first _ => ?_
  exact not_panics_bind (not_panics_elementAdd _ _) fun second _ => not_panics_pure _

/-- The sum of the nonces that the group nonce is the encoding of. -/
def nonceSum (Pt : Type) [AddCommGroup Pt] [Module Scalar Pt] [Curve Pt] [Sha2] (groupPk : Bytes 33)
    (pnonces : List PublicNonce) (message : List UInt8) : Result (Option Pt) :=
  pnonces.foldlM
    (addPubnonce Pt (getGroupBinders pnonces (getGroupPrefix pnonces groupPk message))) none

theorem panics_getGroupPubnonce {pnonces : List PublicNonce} {binders : List BindFactor} :
    Panics (getGroupPubnonce Pt pnonces binders) ↔
      pnonces.foldlM (addPubnonce Pt binders) none = .ok (some 0) := by
  have calm : ¬ Panics (pnonces.foldlM (addPubnonce Pt binders) none) :=
    not_panics_foldlM (fun sum pn => not_panics_addPubnonce binders sum pn) pnonces none
  rw [getGroupPubnonce, panics_bind_of_not calm]
  constructor
  · rintro ⟨sum, done, panics⟩
    cases sum with
    | none => exact absurd panics (not_panics_throw _)
    | some P =>
      rw [panics_serializePoint.mp panics] at done
      exact done
  · intro done
    exact ⟨some 0, done, panics_serializePoint.mpr rfl⟩

theorem not_panics_getPointState (P : Pt) (tweaks : List (Bytes 32)) :
    ¬ Panics (getPointState P tweaks) := by
  have rounds : ∀ (acc : Pt × Scalar × Scalar) (tweak : Bytes 32), ¬ Panics (tweakPoint acc tweak) :=
    fun acc tweak => not_panics_bind (not_panics_elementAdd _ _) fun _ _ => not_panics_pure _
  exact not_panics_bind (not_panics_foldlM rounds tweaks _) fun _ _ => not_panics_pure _

/-- A context is built unless the tweaked group key or the group nonce is the identity. -/
def CancelsGroup (Pt : Type) [AddCommGroup Pt] [Module Scalar Pt] [Curve Pt] [Sha2]
    (groupPk : List UInt8) (pnonces : List PublicNonce) (message : List UInt8)
    (tweaks : List (Bytes 32)) : Prop :=
  ∃ key : Pt, liftX groupPk = .ok key ∧
    ∃ tweaked : PointState Pt, getPointState key tweaks = .ok tweaked ∧
      (tweaked.point = 0 ∨ ∃ encoded, serializePoint tweaked.point = .ok encoded ∧
        nonceSum Pt encoded pnonces message = .ok (some 0))

theorem panics_getGroupSigningCtx [Sha2] {groupPk : List UInt8} {pnonces : List PublicNonce}
    {message : List UInt8} {tweaks : List (Bytes 32)} :
    Panics (getGroupSigningCtx Pt groupPk pnonces message tweaks) ↔
      CancelsGroup Pt groupPk pnonces message tweaks := by
  rw [getGroupSigningCtx, panics_bind_of_not (not_panics_liftX _), CancelsGroup]
  apply exists_congr
  intro key
  apply and_congr_right
  intro lifted
  rw [serializePoint_eq (ne_zero_of_liftX lifted), ok_bind,
    panics_bind_of_not (not_panics_getPointState _ _)]
  apply exists_congr
  intro tweaked
  apply and_congr_right
  intro _
  rw [panics_bind, panics_serializePoint]
  apply or_congr_right
  apply exists_congr
  intro encoded
  apply and_congr_right
  intro _
  -- After the group nonce only the challenge is left, which does not panic.
  rw [panics_bind_of_rest, panics_getGroupPubnonce, nonceSum]
  intro groupPn _
  exact not_panics_bind (not_panics_getChallenge _ _ _) fun _ _ => not_panics_pure _

/-- With a share other than zero nothing in signing a message panics. -/
theorem not_panics_signMsg {ctx : GroupSigningCtx Pt} {share : SecretShare} {snonce : SecretNonce}
    (finite : scalarFromBytes share.seckey ≠ 0) : ¬ Panics (signMsg ctx share snonce) := by
  rw [signMsg]
  by_cases other : snonce.idx ≠ share.idx
  · rw [if_pos other]
    exact not_panics_err _
  rw [if_neg other]
  refine not_panics_bind (not_panics_getBindFactor _ _) fun factor _ => ?_
  refine not_panics_bind (not_panics_interpolateX _ _) fun coefficient _ => ?_
  refine not_panics_bind (not_panics_liftX _) fun rElem _ => ?_
  refine not_panics_bind ?_ fun pubkey _ => not_panics_pure _
  rwa [panics_getPubkey]

end Points

/-! ## ECDH -/

section Ecdh

variable {Pt : Type} [AddCommGroup Pt] [Module Scalar Pt] [Curve Pt]

/-- Where the ECDH share of a member is the identity: another member has the index zero. -/
def CancelsEcdh (Pt : Type) [AddCommGroup Pt] [Module Scalar Pt] [Curve Pt] (members : List UInt32)
    (idx : UInt32) (pubkey : List UInt8) : Prop :=
  (∃ P : Pt, liftX pubkey = .ok P) ∧ (members.filter fun i => decide (i ≠ idx)).Nodup ∧
    0 ∈ members ∧ idx ≠ 0

theorem panics_createEcdhShare {members : List UInt32} {share : SecretShare} {pubkey : List UInt8}
    (finite : scalarFromBytes share.seckey ≠ 0) :
    Panics (createEcdhShare Pt members share pubkey) ↔ CancelsEcdh Pt members share.idx pubkey := by
  let places := (members.filter fun i => decide (i ≠ share.idx)).map indexToScalar
  have listed : places.Nodup ↔ (members.filter fun i => decide (i ≠ share.idx)).Nodup :=
    List.nodup_map_iff indexToScalar_injective
  have vanishes : weight places (indexToScalar share.idx) 0 = 0 ↔ 0 ∈ members ∧ share.idx ≠ 0 := by
    rw [weight_eq_zero_iff, mem_others]
    simp only [places, List.mem_map, indexToScalar_eq_zero, exists_eq_right, List.mem_filter,
      decide_eq_true_eq, ne_eq, eq_comm (a := (0 : Scalar))]
    tauto
  rw [createEcdhShare, panics_bind_of_not (not_panics_liftX _), CancelsEcdh, ← exists_and_right]
  apply exists_congr
  intro P
  apply and_congr_right
  intro lifted
  rw [panics_bind_of_not (not_panics_calcLagrangeCoeff _ _ _), ← listed, ← vanishes]
  have identity : ∀ coefficient : Scalar,
      Panics (serializePoint (scalarMulti P (coefficient * scalarFromBytes share.seckey)) >>=
        fun pubkey => pure { idx := share.idx, pubkey : PublicShare }) ↔ coefficient = 0 := by
    intro coefficient
    rw [panics_bind, panics_serializePoint, scalarMulti, smul_eq_zero, or_iff_left (ne_zero_of_liftX lifted),
      mul_eq_zero, or_iff_left finite]
    simp
  constructor
  · rintro ⟨coefficient, computed, panics⟩
    obtain ⟨nodup, same⟩ := calcLagrangeCoeff_ok.mp computed
    rw [identity] at panics
    exact ⟨nodup, same ▸ panics⟩
  · rintro ⟨nodup, zero⟩
    exact ⟨_, calcLagrangeCoeff_eq nodup, (identity _).mpr zero⟩

end Ecdh

end Pomade.Frost
