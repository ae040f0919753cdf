import Pomade.Frost.Panics
import Pomade.Signer.Challenge
import Pomade.Signer.Exactness
import Pomade.Signer.Logs

/-! # When a request panics

For every route the states, bodies and draws for which its handler reaches a panic.  Most are
scalars or points that a client chooses so that a sum or a product is the identity, which has no
encoding of 33 bytes.
-/

namespace Pomade.Signer

open Pomade.Lib Pomade.Frost Coll

/-! ## The bridge to FROST -/

section Bridge

/-- The scalar of a secret key is zero: the key is zero or the order of the group. -/
def ZeroKey (text : Str) : Prop := ∃ seckey, decode32 text = some seckey ∧ scalarFromBytes seckey = 0

section Options

variable {α β : Type}

theorem okOnly_ok (a : α) : okOnly (.ok a) = .ok (some a) := rfl

theorem okOnly_err (e : Error) : okOnly (.error (.err e) : Result α) = .ok none := rfl

theorem okOnly_panic (reason : String) :
    okOnly (.error (.panic reason) : Result α) = .error (.panic reason) := rfl

/-- A loop over results of which the errors are left out. -/
theorem filterMapM_okOnly {g : α → Result β} (l : List α) :
    (Panics (l.filterMapM fun a => okOnly (g a)) ↔ ∃ a ∈ l, Panics (g a)) ∧
      ((∀ a ∈ l, ¬ Panics (g a)) →
        l.filterMapM (fun a => okOnly (g a)) = .ok (l.filterMap fun a => (g a).toOption)) := by
  induction l with
  | nil => exact ⟨by simp, fun _ => rfl⟩
  | cons a l ih =>
    obtain ⟨panics, done⟩ := ih
    rw [List.filterMapM_cons]
    cases outcome : g a with
    | ok b =>
      have calm : ¬ Panics (g a) := by simp [outcome]
      simp only [okOnly_ok, ok_bind]
      refine ⟨?_, ?_⟩
      · rw [panics_bind, panics]
        simp [calm]
      · intro each
        rw [done fun a' member => each a' (List.mem_cons_of_mem a member)]
        simp [outcome, Except.toOption]
    | error fault =>
      cases fault with
      | err e =>
        have calm : ¬ Panics (g a) := by simp [outcome]
        simp only [okOnly_err, ok_bind]
        refine ⟨?_, ?_⟩
        · rw [panics]
          simp [calm]
        · intro each
          rw [done fun a' member => each a' (List.mem_cons_of_mem a member)]
          simp [outcome, Except.toOption]
      | panic reason =>
        have stops : Panics (g a) := by simp [outcome]
        refine ⟨by simp [okOnly_panic, stops], fun each => ?_⟩
        exact absurd stops (each a List.mem_cons_self)

theorem not_panics_orInvalidPoint (value : Option α) : ¬ Panics (orInvalidPoint value) := by
  cases value <;> simp [orInvalidPoint]

theorem orInvalidPoint_ok {value : Option α} {a : α} :
    orInvalidPoint value = .ok a ↔ value = some a := by
  cases value <;> simp [orInvalidPoint]

end Options

variable (Pt : Type) [AddCommGroup Pt] [Module Scalar Pt] [Curve Pt]

theorem panics_isGroupMember {group : Group} {share : Share} :
    Panics (isGroupMember Pt group share) ↔ ZeroKey share.seckey := by
  rw [isGroupMember, ZeroKey]
  cases decode32 share.seckey with
  | none => simp
  | some seckey =>
    simp only [Option.some.injEq, exists_eq_left']
    rw [panics_bind, panics_getPubkey]
    simp

variable [Sha2]

/-- One of the nonces of a member is the negative of the tweak, so that it tweaks to the identity.
The second nonce counts if the first is a point. -/
def CancelsNonce (sessionId : Bytes 32) (sigvec : List Str) (pn : PublicNonceItem) : Prop :=
  let tweak := scalarBaseMulti Pt (scalarFromBytes (getSighashBinder sessionId pn.idx sigvec))
  ∃ hidden, decode33 pn.hiddenPn = some hidden ∧ ∃ H : Pt, liftX hidden.data = .ok H ∧
    (H + tweak = 0 ∨ ∃ binder, decode33 pn.binderPn = some binder ∧
      ∃ B : Pt, liftX binder.data = .ok B ∧ B + tweak = 0)

theorem panics_tweakPnonce {pn : PublicNonceItem} {sessionId : Bytes 32} {sigvec : List Str} :
    Panics (tweakPnonce Pt pn sessionId sigvec) ↔ CancelsNonce Pt sessionId sigvec pn := by
  rw [tweakPnonce, panics_bind_of_not (not_panics_orInvalidPoint _), CancelsNonce]
  apply exists_congr
  intro hidden
  rw [orInvalidPoint_ok]
  apply and_congr_right
  intro _
  rw [panics_bind, panics_tweakPubkey]
  -- What comes after the first nonce does not look at it.
  have rest : ∀ hiddenPn : Bytes 33, Panics (do
      let binder ← orInvalidPoint (decode33 pn.binderPn)
      let binderPn ← tweakPubkey Pt binder.data (getSighashBinder sessionId pn.idx sigvec)
      return { idx := pn.idx, hiddenPn, binderPn : PublicNonce }) ↔
      ∃ binder, decode33 pn.binderPn = some binder ∧ ∃ B : Pt, liftX binder.data = .ok B ∧
        B + scalarBaseMulti Pt (scalarFromBytes (getSighashBinder sessionId pn.idx sigvec)) = 0 := by
    intro hiddenPn
    rw [panics_bind_of_not (not_panics_orInvalidPoint _)]
    apply exists_congr
    intro binder
    rw [orInvalidPoint_ok, panics_bind, panics_tweakPubkey]
    simp
  simp only [rest]
  constructor
  · rintro (⟨H, lifted, opposite⟩ | ⟨hiddenPn, tweaked, second⟩)
    · exact ⟨H, lifted, .inl opposite⟩
    · obtain ⟨H, lifted, _⟩ := bind_ok tweaked
      exact ⟨H, lifted, .inr second⟩
  · rintro ⟨H, lifted, opposite | second⟩
    · exact .inl ⟨H, lifted, opposite⟩
    · by_cases opposite : H + scalarBaseMulti Pt
          (scalarFromBytes (getSighashBinder sessionId pn.idx sigvec)) = 0
      · exact .inl ⟨H, lifted, opposite⟩
      · have tweaked := serializePoint_eq opposite
        refine .inr ⟨encodePoint (H + scalarBaseMulti Pt
          (scalarFromBytes (getSighashBinder sessionId pn.idx sigvec))), ?_, second⟩
        rw [tweakPubkey, lifted, ok_bind]
        exact tweaked

/-- The nonces of a request that tweak. -/
def tweakedNonces (sessionId : Bytes 32) (sigvec : List Str) (base : List PublicNonceItem) :
    List PublicNonce :=
  base.filterMap fun pn => (tweakPnonce Pt pn sessionId sigvec).toOption

/-- Where a partial signature is not computed: a nonce, the tweaked group key or the group nonce
is the identity. -/
def CancelsSigning (input : SigningInput) : Prop :=
  let sessionId := computeSessionId input.group input.request
  ∃ groupPk, decode33 input.group.groupPk = some groupPk ∧
    ∃ first rest, input.request.hash = first :: rest ∧ ∃ sighash, decode32 first = some sighash ∧
      ((∃ pn ∈ input.pnonces, CancelsNonce Pt sessionId input.request.hash pn) ∨
        CancelsGroup Pt groupPk.data (tweakedNonces Pt sessionId input.request.hash input.pnonces)
          sighash.data (rest.filterMap decode32))

theorem panics_createPsigPkgWithNonce {input : SigningInput} (some_ : input.request.hash ≠ [])
    (finite : ¬ ZeroKey input.share.seckey) :
    Panics (createPsigPkgWithNonce Pt input) ↔ CancelsSigning Pt input := by
  -- A panic comes from the context alone: the share is of a key that is not zero.
  have context : Panics (buildSighashContextFromPnonces Pt input.group input.request
      (computeSessionId input.group input.request) input.pnonces) ↔ CancelsSigning Pt input := by
    obtain ⟨first, rest, hash⟩ := List.exists_cons_of_ne_nil some_
    rw [buildSighashContextFromPnonces, panics_bind_of_not (not_panics_orInvalidPoint _),
      CancelsSigning, hash]
    apply exists_congr
    intro groupPk
    rw [orInvalidPoint_ok]
    apply and_congr_right
    intro _
    simp only [List.cons.injEq, ↓existsAndEq, and_true, exists_eq_left']
    rw [panics_bind_of_not (not_panics_orInvalidPoint _)]
    apply exists_congr
    intro sighash
    rw [orInvalidPoint_ok]
    apply and_congr_right
    intro _
    -- The nonces are tweaked one by one, and one that cancels stops the loop.
    have loop := filterMapM_okOnly
      (g := fun pn => tweakPnonce Pt pn (computeSessionId input.group input.request)
        (first :: rest)) input.pnonces
    rw [panics_bind, loop.1]
    simp only [panics_tweakPnonce]
    by_cases cancels : ∃ pn ∈ input.pnonces,
        CancelsNonce Pt (computeSessionId input.group input.request) (first :: rest) pn
    · rw [iff_true_left (.inl cancels)]
      exact .inl cancels
    · rw [or_iff_right cancels, or_iff_right cancels]
      -- None cancels, so the loop has answered and only the sum is left to cancel.
      have each := loop.2 fun pn member panics =>
        cancels ⟨pn, member, (panics_tweakPnonce Pt).mp panics⟩
      rw [each]
      simp only [Except.ok.injEq, exists_eq_left']
      rw [panics_bind, panics_getGroupSigningCtx]
      simp [tweakedNonces]
  rw [createPsigPkgWithNonce]
  dsimp only
  rw [panics_bind_of_rest, context]
  rintro ⟨sighash, ctx⟩ _
  dsimp only
  refine not_panics_bind (not_panics_orInvalidPoint _) fun seckey decoded => ?_
  have nonzero : scalarFromBytes seckey ≠ 0 := fun zero =>
    finite ⟨seckey, orInvalidPoint_ok.mp decoded, zero⟩
  refine not_panics_bind (fun panics => nonzero ((panics_getPubkey Pt).mp panics)) fun pubkey _ => ?_
  exact not_panics_bind (not_panics_signMsg nonzero) fun sig _ => not_panics_pure _

/-- A share can be signed with: its key is a scalar other than zero. -/
def Share.Finite (share : Share) : Prop :=
  ∃ seckey, decode32 share.seckey = some seckey ∧ scalarFromBytes seckey ≠ 0

omit [AddCommGroup Pt] [Module Scalar Pt] [Curve Pt] [Sha2] in
theorem Share.Finite.not_zeroKey {share : Share} (finite : share.Finite) :
    ¬ ZeroKey share.seckey := by
  obtain ⟨seckey, decoded, nonzero⟩ := finite
  rintro ⟨seckey', decoded', zero⟩
  have same : seckey' = seckey := Option.some.inj (decoded'.symm.trans decoded)
  exact nonzero (same ▸ zero)

omit [Sha2] in
theorem panics_createEcdhPkg {request : EcdhRequest} {share : Share} (finite : share.Finite) :
    Panics (createEcdhPkg Pt request share) ↔ request.ecdhPk ≠ generatorX ∧
      ∃ ecdhPk, decode32 request.ecdhPk = some ecdhPk ∧
        CancelsEcdh Pt request.members share.idx ecdhPk.data := by
  obtain ⟨seckey, decoded, nonzero⟩ := finite
  rw [createEcdhPkg]
  by_cases generator : request.ecdhPk = generatorX
  · simp [generator, panics_bind]
  · have other : (request.ecdhPk == generatorX) = false := by simp [generator]
    rw [other]
    simp only [Bool.false_eq_true, if_false, orInvalidPoint_ok.mpr decoded, ok_bind]
    rw [panics_bind_of_not (not_panics_orInvalidPoint _), and_iff_right generator]
    apply exists_congr
    intro ecdhPk
    rw [orInvalidPoint_ok]
    apply and_congr_right
    intro _
    rw [panics_bind, panics_createEcdhShare nonzero]
    simp

end Bridge

end Pomade.Signer
