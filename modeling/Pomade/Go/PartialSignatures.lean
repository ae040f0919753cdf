import Pomade.Frost.Points
import Pomade.Frost.ScalarCurve
import Pomade.Frost.Sharing
import Pomade.Go.Hashes

/-! # Partial signatures of the two libraries

The Rust crate and the Go library compute the same partial signature from the same points, in
whatever order the nonces come, as long as no point on the way is the identity.  Where a sum is
the identity the Go library gives up at once, and the Rust crate when it has to encode it.
-/

namespace Pomade.Go

open Pomade.Lib Pomade.Frost

/-! ## Points -/

/-- Coordinates are elements of the field. -/
def Reduced (Pt : Type) [AddCommGroup Pt] [Module Scalar Pt] [Curve Pt] : Prop :=
  ∀ P : Pt, (Curve.affineX P).toNat < secp256k1P

theorem reduced_scalar : Reduced Scalar := by
  intro P
  have less : N < secp256k1P := by norm_num [N, secp256k1P]
  show (Bytes.ofNat 32 (abscissa P)).toNat < secp256k1P
  rw [Bytes.toNat_ofNat (abscissa_lt P)]
  exact (abscissa_lt_order P).trans less

/-- An encoding that both libraries read in the same way: the x-coordinate is reduced, and the
encoding is not the compact one. -/
def Canonical (bytes : Bytes 33) : Prop :=
  bytes.data.head? ≠ some 0x05 ∧ bytes.tail.toNat < secp256k1P

instance (bytes : Bytes 33) : Decidable (Canonical bytes) := inferInstanceAs (Decidable (_ ∧ _))

section Points

variable {Pt : Type} [AddCommGroup Pt] [Module Scalar Pt] [Curve Pt] {P Q : Pt}

theorem fromSecpPoint_of_ne (nonzero : P ≠ 0) :
    Taproot.fromSecpPoint P = ⟨(Curve.affineX P).toNat, P⟩ := by
  have finite : Curve.isIdentity P ≠ true := fun identity => nonzero ((Curve.isIdentity_iff P).mp identity)
  rw [Taproot.fromSecpPoint, if_neg finite]

theorem yBit_of_ne (nonzero : P ≠ 0) (x : Nat) : Taproot.yBit ⟨x, P⟩ = Curve.yIsOdd P := by
  have finite : Curve.isIdentity P = false :=
    Bool.eq_false_iff.mpr fun identity => nonzero ((Curve.isIdentity_iff P).mp identity)
  rw [Taproot.yBit, finite]
  rfl

theorem hasEvenY_fromSecpPoint (nonzero : P ≠ 0) :
    Taproot.hasEvenY (Taproot.fromSecpPoint P) = hasEvenY P := by
  have finite : Curve.isIdentity P = false :=
    Bool.eq_false_iff.mpr fun identity => nonzero ((Curve.isIdentity_iff P).mp identity)
  rw [fromSecpPoint_of_ne nonzero, Taproot.hasEvenY, yBit_of_ne nonzero, hasEvenY, finite]
  rfl

theorem serializePoint_fromSecpPoint (nonzero : P ≠ 0) :
    Taproot.serializePoint (Taproot.fromSecpPoint P) = encodePoint P := by
  rw [fromSecpPoint_of_ne nonzero, Taproot.serializePoint, yBit_of_ne nonzero, Bytes.ofNat_toNat,
    encodePoint]

theorem elementAdd_fromSecpPoint (nonzero : P + Q ≠ 0) :
    Taproot.elementAdd (some (Taproot.fromSecpPoint P)) (some (Taproot.fromSecpPoint Q)) =
      .ok (Taproot.fromSecpPoint (P + Q)) := by
  rw [Taproot.elementAdd, if_neg]
  · rfl
  · rintro ⟨_, identity⟩
    exact nonzero ((Curve.isIdentity_iff _).mp identity)

theorem elementAdd_sum {sum : Option Pt} {P : Pt} (nonzero : sum.getD 0 + P ≠ 0) :
    Taproot.elementAdd (sum.map Taproot.fromSecpPoint) (some (Taproot.fromSecpPoint P)) =
      .ok (Taproot.fromSecpPoint (sum.getD 0 + P)) := by
  cases sum with
  | none =>
    rw [Option.getD_none, zero_add]
    rfl
  | some Q => exact elementAdd_fromSecpPoint nonzero

theorem canonical_encodePoint (reduced : Reduced Pt) (P : Pt) : Canonical (encodePoint P) := by
  refine ⟨?_, reduced P⟩
  rw [encodePoint, Bytes.data_cons, List.head?_cons]
  split <;> decide

theorem liftCoordinate_some {x : Bytes 32} {odd : Bool} (less : x.toNat < secp256k1P)
    (found : Curve.decompress x odd = some P) :
    Taproot.liftCoordinate x.toNat odd = .ok (Taproot.fromSecpPoint P) := by
  obtain ⟨nonzero, same, _⟩ := (Curve.decompress_eq_some _ _ _).mp found
  rw [Taproot.liftCoordinate, Nat.mod_eq_of_lt less, Bytes.ofNat_toNat, found,
    fromSecpPoint_of_ne nonzero, same]

theorem liftCoordinate_none {x : Bytes 32} {odd : Bool} (less : x.toNat < secp256k1P)
    (missing : (Curve.decompress x odd : Option Pt) = none) :
    (Taproot.liftCoordinate x.toNat odd : Result (Taproot.Point Pt)) =
      .error (.err .invalidPoint) := by
  rw [Taproot.liftCoordinate, Nat.mod_eq_of_lt less, Bytes.ofNat_toNat, missing]

/-- The Go library reads a canonical encoding as the Rust crate does. -/
theorem liftX_canonical {bytes : Bytes 33} (canonical : Canonical bytes) :
    (∃ P : Pt, liftX bytes.data = .ok P ∧
      Taproot.liftX bytes.data = .ok (Taproot.fromSecpPoint P)) ∨
    (liftX bytes.data : Result Pt) = .error (.err .invalidPoint) ∧
      (Taproot.liftX bytes.data : Result (Taproot.Point Pt)) = .error (.err .invalidPoint) := by
  obtain ⟨compact, less⟩ := canonical
  have long : ¬ bytes.data.length = 32 := by
    rw [bytes.size]
    decide
  have coordinate : bytesToNat bytes.data.tail = bytes.tail.toNat := rfl
  rw [liftX_bytes33, deserializePoint, Taproot.liftX, if_neg long, if_pos bytes.size, coordinate]
  have one : ∀ odd, (∃ P : Pt, Curve.decompress bytes.tail odd = some P ∧
      Taproot.liftCoordinate bytes.tail.toNat odd = .ok (Taproot.fromSecpPoint P)) ∨
      (Curve.decompress bytes.tail odd : Option Pt) = none ∧
        (Taproot.liftCoordinate bytes.tail.toNat odd : Result (Taproot.Point Pt)) =
          .error (.err .invalidPoint) := by
    intro odd
    cases found : (Curve.decompress bytes.tail odd : Option Pt) with
    | some P => exact .inl ⟨P, rfl, liftCoordinate_some less found⟩
    | none => exact .inr ⟨rfl, liftCoordinate_none less found⟩
  cases head : bytes.data.head? with
  | none => exact .inr ⟨rfl, rfl⟩
  | some byte =>
    by_cases two : byte = 0x02
    · rw [two]
      rcases one false with ⟨P, found, lifted⟩ | ⟨missing, failed⟩
      · exact .inl ⟨P, by simp [found], lifted⟩
      · exact .inr ⟨by simp [missing], failed⟩
    by_cases three : byte = 0x03
    · rw [three]
      rcases one true with ⟨P, found, lifted⟩ | ⟨missing, failed⟩
      · exact .inl ⟨P, by simp [found], lifted⟩
      · exact .inr ⟨by simp [missing], failed⟩
    have five : byte ≠ 0x05 := fun same => compact (by rw [head, same])
    refine .inr ⟨?_, ?_⟩
    · simp [two, three, five]
    · simp [two, three]

theorem liftX_of_ok {bytes : Bytes 33} (canonical : Canonical bytes)
    (lifted : liftX bytes.data = .ok P) :
    Taproot.liftX bytes.data = .ok (Taproot.fromSecpPoint P) := by
  rcases @liftX_canonical Pt _ _ _ _ canonical with ⟨Q, found, same⟩ | ⟨failed, _⟩
  · rw [lifted] at found
    cases found
    exact same
  · rw [lifted] at failed
    cases failed

theorem liftX_encoded (reduced : Reduced Pt) (nonzero : P ≠ 0) :
    Taproot.liftX (encodePoint P).data = .ok (Taproot.fromSecpPoint P) :=
  liftX_of_ok (canonical_encodePoint reduced P) (liftX_encodePoint nonzero)

/-! ## Keys -/

theorem getPubkey_eq {secret : Bytes 32} (nonzero : scalarFromBytes secret ≠ 0) :
    getPubkey Pt secret = .ok (Taproot.getPubkey Pt secret) := by
  have finite : scalarBaseMulti Pt (scalarFromBytes secret) ≠ 0 := scalarBaseMulti_ne_zero nonzero
  rw [getPubkey, serializePoint_eq finite, ← serializePoint_fromSecpPoint finite]
  rfl

end Points

/-! ## Interpolation -/

section Tweaks

variable {Pt : Type} [AddCommGroup Pt] [Module Scalar Pt] [Curve Pt] {P : Pt}

/-- A point after one tweak. -/
def tweakedPoint (P : Pt) (tweak : Bytes 32) : Pt :=
  (if hasEvenY P then P else negatePoint P) + scalarBaseMulti Pt (scalarFromBytes tweak)

/-- No tweak on the way gives the identity. -/
def Tweakable (P : Pt) : List (Bytes 32) → Prop
  | [] => True
  | tweak :: tweaks => tweakedPoint P tweak ≠ 0 ∧ Tweakable (tweakedPoint P tweak) tweaks

/-- The point, the state and the tweak after one more tweak. -/
def tweakStep (acc : Pt × Scalar × Scalar) (tweak : Bytes 32) : Pt × Scalar × Scalar :=
  (tweakedPoint acc.1 tweak, acc.2.1 * parityOf acc.1,
    scalarFromBytes tweak + parityOf acc.1 * acc.2.2)

theorem getPointState_eq (P : Pt) (tweaks : List (Bytes 32)) :
    getPointState P tweaks = .ok
      { parity := parityOf (tweaks.foldl tweakStep (P, 1, 0)).1
        point := (tweaks.foldl tweakStep (P, 1, 0)).1
        state := (tweaks.foldl tweakStep (P, 1, 0)).2.1
        tweak := (tweaks.foldl tweakStep (P, 1, 0)).2.2 } := by
  have rounds : tweaks.foldlM tweakPoint (P, 1, 0) = .ok (tweaks.foldl tweakStep (P, 1, 0)) :=
    foldlM_ok _ fun _ _ _ => rfl
  rw [getPointState, rounds]
  rfl

theorem negatePoint_fromSecpPoint (nonzero : P ≠ 0) :
    Taproot.negatePoint (Taproot.fromSecpPoint P) = Taproot.fromSecpPoint (negatePoint P) := by
  have same : Curve.affineX (-P) = Curve.affineX P := (Curve.affineX_eq_iff _ _).mpr (.inr rfl)
  rw [negatePoint, fromSecpPoint_of_ne nonzero, fromSecpPoint_of_ne (neg_ne_zero.mpr nonzero), same]
  rfl

theorem parityOf_fromSecpPoint (nonzero : P ≠ 0) :
    Taproot.parityOf (Taproot.fromSecpPoint P) = parityOf P := by
  rw [Taproot.parityOf, hasEvenY_fromSecpPoint nonzero, parityOf]

theorem parityOf_eq_neg_one : parityOf P = -1 ↔ hasEvenY P = false := by
  have differ : (1 : Scalar) ≠ -1 := by decide +kernel
  rw [parityOf]
  cases hasEvenY P with
  | false => simp
  | true => simp [differ]

theorem tweakPoint_taproot {acc : Pt × Scalar × Scalar} {tweak : Bytes 32} (nonzero : acc.1 ≠ 0)
    (next : tweakedPoint acc.1 tweak ≠ 0) :
    Taproot.tweakPoint (Taproot.fromSecpPoint acc.1, acc.2) tweak =
      .ok (Taproot.fromSecpPoint (tweakStep acc tweak).1, (tweakStep acc tweak).2) := by
  obtain ⟨P, state, sum⟩ := acc
  have arranged : (if parityOf P = -1 then Taproot.negatePoint (Taproot.fromSecpPoint P)
      else Taproot.fromSecpPoint P) =
      Taproot.fromSecpPoint (if hasEvenY P then P else negatePoint P) := by
    simp only [parityOf_eq_neg_one]
    cases hasEvenY P with
    | false => exact negatePoint_fromSecpPoint nonzero
    | true => rfl
  have added : Taproot.elementAdd
      (some (Taproot.fromSecpPoint (if hasEvenY P then P else negatePoint P)))
      (some (Taproot.scalarBaseMulti Pt (scalarFromBytes tweak))) =
        .ok (Taproot.fromSecpPoint (tweakedPoint P tweak)) :=
    elementAdd_fromSecpPoint next
  rw [Taproot.tweakPoint]
  dsimp only
  rw [parityOf_fromSecpPoint nonzero, arranged, added]
  rfl

theorem foldlM_tweakPoint_taproot {tweaks : List (Bytes 32)} {acc : Pt × Scalar × Scalar}
    (nonzero : acc.1 ≠ 0) (tweakable : Tweakable acc.1 tweaks) :
    tweaks.foldlM Taproot.tweakPoint (Taproot.fromSecpPoint acc.1, acc.2) =
      .ok (Taproot.fromSecpPoint (tweaks.foldl tweakStep acc).1, (tweaks.foldl tweakStep acc).2) ∧
      (tweaks.foldl tweakStep acc).1 ≠ 0 := by
  induction tweaks generalizing acc with
  | nil => exact ⟨rfl, nonzero⟩
  | cons tweak tweaks ih =>
    rw [List.foldlM_cons, tweakPoint_taproot nonzero tweakable.1]
    exact ih tweakable.1 tweakable.2

theorem getPointState_taproot {tweaks : List (Bytes 32)} (nonzero : P ≠ 0)
    (tweakable : Tweakable P tweaks) :
    Taproot.getPointState (Taproot.fromSecpPoint P) tweaks = .ok
      { parity := scalarToBytes (parityOf (tweaks.foldl tweakStep (P, 1, 0)).1)
        point := encodePoint (tweaks.foldl tweakStep (P, 1, 0)).1
        state := scalarToBytes (tweaks.foldl tweakStep (P, 1, 0)).2.1
        tweak := scalarToBytes (tweaks.foldl tweakStep (P, 1, 0)).2.2 } := by
  obtain ⟨rounds, finite⟩ := @foldlM_tweakPoint_taproot Pt _ _ _ tweaks (P, 1, 0) nonzero tweakable
  rw [Taproot.getPointState, rounds, ok_bind]
  dsimp only
  rw [parityOf_fromSecpPoint finite, serializePoint_fromSecpPoint finite]
  rfl

end Tweaks

/-! ## The group nonce -/

section Sums

variable {Pt : Type} [AddCommGroup Pt]

/-- No partial sum is the identity. -/
def PartialSums (sum : Pt) : List Pt → Prop
  | [] => True
  | P :: points => sum + P ≠ 0 ∧ PartialSums (sum + P) points

theorem PartialSums.sum_ne_zero {sum : Pt} {points : List Pt} (sums : PartialSums sum points)
    (some_ : points ≠ []) : sum + points.sum ≠ 0 := by
  induction points generalizing sum with
  | nil => exact absurd rfl some_
  | cons P points ih =>
    rw [List.sum_cons, ← add_assoc]
    cases points with
    | nil =>
      rw [List.sum_nil, add_zero]
      exact sums.1
    | cons Q points => exact ih sums.2 (List.cons_ne_nil _ _)

theorem PartialSums.of_append {sum : Pt} {points rest : List Pt}
    (sums : PartialSums sum (points ++ rest)) :
    PartialSums sum points ∧ PartialSums (sum + points.sum) rest := by
  induction points generalizing sum with
  | nil =>
    rw [List.sum_nil, add_zero]
    exact ⟨trivial, sums⟩
  | cons P points ih =>
    obtain ⟨first, others⟩ := ih sums.2
    rw [List.sum_cons, ← add_assoc]
    exact ⟨⟨sums.1, first⟩, others⟩

end Sums

section Nonces

variable {Pt : Type} [AddCommGroup Pt] [Module Scalar Pt] [Curve Pt]

/-- The nonces of a member as points. -/
structure PointNonce (Pt : Type) where
  idx : UInt32
  hidden : Pt
  binder : Pt

def PointNonce.encode (nonce : PointNonce Pt) : PublicNonce where
  idx := nonce.idx
  binderPn := encodePoint nonce.binder
  hiddenPn := encodePoint nonce.hidden

def PointNonce.Finite (nonce : PointNonce Pt) : Prop := nonce.hidden ≠ 0 ∧ nonce.binder ≠ 0

variable [Sha2]

/-- The binding factor of a member. -/
def bindFactor (bindPrefix : List UInt8) (idx : UInt32) : Bytes 32 :=
  h1 (bindPrefix ++ (serializeScalarU32 idx).data)

/-- The two points that a member adds to the group nonce. -/
def PointNonce.terms (bindPrefix : List UInt8) (nonce : PointNonce Pt) : List Pt :=
  [nonce.hidden, scalarMulti nonce.binder (scalarFromBytes (bindFactor bindPrefix nonce.idx))]

def groupTerms (bindPrefix : List UInt8) (nonces : List (PointNonce Pt)) : List Pt :=
  nonces.flatMap (PointNonce.terms bindPrefix)

theorem getBindFactor_eq {bindPrefix : List UInt8} {binders : List BindFactor} {idx : UInt32}
    (factors : ∀ b ∈ binders, b.factor = bindFactor bindPrefix b.idx)
    (listed : ∃ b ∈ binders, b.idx = idx) :
    getBindFactor binders idx = .ok (bindFactor bindPrefix idx) := by
  rw [getBindFactor]
  cases found : binders.find? fun b => b.idx == idx with
  | none =>
    obtain ⟨b, member, same⟩ := listed
    have differ := List.find?_eq_none.mp found b member
    simp [same] at differ
  | some b =>
    have same : b.idx = idx := by simpa using List.find?_some found
    dsimp only
    rw [factors b (List.mem_of_find?_eq_some found), same]

theorem getGroupBinders_factors {bindPrefix : List UInt8} {pnonces : List PublicNonce} :
    ∀ b ∈ getGroupBinders pnonces bindPrefix, b.factor = bindFactor bindPrefix b.idx := by
  intro b member
  obtain ⟨pn, _, rfl⟩ := List.mem_map.mp member
  rfl

theorem getGroupBinders_listed {bindPrefix : List UInt8} {nonces : List (PointNonce Pt)}
    {idx : UInt32} (listed : idx ∈ nonces.map (·.idx)) :
    ∃ b ∈ getGroupBinders (nonces.map PointNonce.encode) bindPrefix, b.idx = idx := by
  obtain ⟨nonce, member, rfl⟩ := List.mem_map.mp listed
  exact ⟨_, List.mem_map_of_mem (List.mem_map_of_mem member), rfl⟩

/-- The sum after the nonces of one more member. -/
def addNonce (bindPrefix : List UInt8) (sum : Option Pt) (nonce : PointNonce Pt) : Option Pt :=
  some (sum.getD 0 + nonce.hidden +
    scalarMulti nonce.binder (scalarFromBytes (bindFactor bindPrefix nonce.idx)))

theorem addPubnonce_eq {bindPrefix : List UInt8} {binders : List BindFactor} {sum : Option Pt}
    {nonce : PointNonce Pt} (finite : nonce.Finite)
    (factor : getBindFactor binders nonce.idx = .ok (bindFactor bindPrefix nonce.idx)) :
    addPubnonce Pt binders sum nonce.encode = .ok (addNonce bindPrefix sum nonce) := by
  rw [addPubnonce, PointNonce.encode, liftX_encodePoint finite.1, ok_bind,
    liftX_encodePoint finite.2, ok_bind, factor, ok_bind]
  cases sum with
  | none =>
    rw [addNonce, Option.getD_none, zero_add]
    rfl
  | some P => rfl

end Nonces

/-! ## The partial signature -/

section Signable

variable {Pt : Type} [AddCommGroup Pt]

/-- What both libraries are asked to sign. -/
structure Signable (groupKey : Pt) (nonces : List (PointNonce Pt)) (share : SecretShare)
    (snonce : SecretNonce) : Prop where
  key : groupKey ≠ 0
  finite : ∀ nonce ∈ nonces, nonce.Finite
  distinct : (nonces.map (·.idx)).Nodup
  listed : share.idx ∈ nonces.map (·.idx)
  own : snonce.idx = share.idx
  secret : scalarFromBytes share.seckey ≠ 0

variable {groupKey : Pt} {nonces : List (PointNonce Pt)} {share : SecretShare} {snonce : SecretNonce}

theorem Signable.some (signable : Signable groupKey nonces share snonce) : nonces ≠ [] := by
  rintro rfl
  exact absurd signable.listed List.not_mem_nil

/-- The places of the members, and that the signer is among them. -/
theorem Signable.places (signable : Signable groupKey nonces share snonce) :
    (nonces.map fun nonce => indexToScalar nonce.idx).Nodup ∧
      indexToScalar share.idx ∈ nonces.map fun nonce => indexToScalar nonce.idx := by
  have arranged : (nonces.map fun nonce => indexToScalar nonce.idx) =
      (nonces.map (·.idx)).map indexToScalar := by
    rw [List.map_map]
    rfl
  rw [arranged]
  exact ⟨signable.distinct.map indexToScalar_injective, List.mem_map_of_mem signable.listed⟩

end Signable

section Signing

variable {Pt : Type} [AddCommGroup Pt] [Module Scalar Pt] [Curve Pt] [Sha2]

/-- The prefix of what is hashed for a binding factor. -/
def bindingPrefix (key : Pt) (message : List UInt8) (nonces : List (PointNonce Pt)) : List UInt8 :=
  getGroupPrefix (nonces.map PointNonce.encode) (encodePoint key) message

/-- The sum of what the members add to the group nonce. -/
def groupNonce (key : Pt) (message : List UInt8) (nonces : List (PointNonce Pt)) : Pt :=
  (groupTerms (bindingPrefix key message nonces) nonces).sum

/-- A partial signature, computed from points. -/
def partialSignature (groupKey : Pt) (tweaks : List (Bytes 32)) (message : List UInt8)
    (nonces : List (PointNonce Pt)) (share : SecretShare) (snonce : SecretNonce) : Bytes 32 :=
  let key := tweaks.foldl tweakStep (groupKey, 1, 0)
  let R := groupNonce key.1 message nonces
  let challenge := modN (hash340 "BIP0340/challenge"
    [(Curve.affineX R).data, (Curve.affineX key.1).data, message]).toNat
  let coefficient := weight (nonces.map fun nonce => indexToScalar nonce.idx)
    (indexToScalar share.idx) 0
  let snonceH := if hasEvenY R then scalarFromBytes snonce.hiddenSn
    else -scalarFromBytes snonce.hiddenSn
  let snonceB := if hasEvenY R then scalarFromBytes snonce.binderSn
    else -scalarFromBytes snonce.binderSn
  let factor := bindFactor (bindingPrefix key.1 message nonces) share.idx
  scalarToBytes (challenge * coefficient * (parityOf key.1 * key.2.1 * scalarFromBytes share.seckey) +
    (snonceH + snonceB * scalarFromBytes factor))

theorem getChallenge_eq (R key : Pt) (message : List UInt8) :
    getChallenge (encodePoint R).data (encodePoint key).data message =
      .ok (modN (hash340 "BIP0340/challenge"
        [(Curve.affineX R).data, (Curve.affineX key).data, message]).toNat) := by
  have tail : ∀ P : Pt, convertPubkeyToBip340 (encodePoint P).data = .ok (Curve.affineX P).data :=
    fun P => if_pos (encodePoint P).size
  rw [getChallenge, tail, ok_bind, tail, ok_bind, if_neg (by simp), if_neg (by simp)]
  rfl

/-- The signing context, computed from points. -/
def signingContext (groupKey : Pt) (tweaks : List (Bytes 32)) (message : List UInt8)
    (nonces : List (PointNonce Pt)) : GroupSigningCtx Pt :=
  let key := tweaks.foldl tweakStep (groupKey, 1, 0)
  let R := groupNonce key.1 message nonces
  let bindPrefix := bindingPrefix key.1 message nonces
  { groupPt := { parity := parityOf key.1, point := key.1, state := key.2.1, tweak := key.2.2 }
    groupPk := encodePoint key.1
    bindFactors := getGroupBinders (nonces.map PointNonce.encode) bindPrefix
    bindPrefix
    challenge := modN (hash340 "BIP0340/challenge"
      [(Curve.affineX R).data, (Curve.affineX key.1).data, message]).toNat
    groupPn := encodePoint R
    indexes := nonces.map (·.idx)
    message
    pnonces := nonces.map PointNonce.encode }

variable {groupKey : Pt} {groupPk : Bytes 33} {tweaks : List (Bytes 32)} {message : List UInt8}
variable {nonces : List (PointNonce Pt)} {share : SecretShare} {snonce : SecretNonce}

theorem signMsg_eq (signable : Signable groupKey nonces share snonce)
    (nonzero : groupNonce (tweaks.foldl tweakStep (groupKey, 1, 0)).1 message nonces ≠ 0) :
    signMsg (signingContext groupKey tweaks message nonces) share snonce = .ok
      { idx := share.idx
        psig := partialSignature groupKey tweaks message nonces share snonce
        pubkey := Taproot.getPubkey Pt share.seckey } := by
  have factor : getBindFactor (signingContext groupKey tweaks message nonces).bindFactors share.idx =
      .ok (bindFactor (bindingPrefix (tweaks.foldl tweakStep (groupKey, 1, 0)).1 message nonces)
        share.idx) :=
    getBindFactor_eq getGroupBinders_factors (getGroupBinders_listed signable.listed)
  have coefficient : interpolateX ((signingContext groupKey tweaks message nonces).indexes.map
      indexToScalar) (indexToScalar share.idx) = .ok (weight (nonces.map fun nonce =>
        indexToScalar nonce.idx) (indexToScalar share.idx) 0) := by
    rw [signingContext, List.map_map]
    exact interpolateX_eq signable.places.1 signable.places.2
  have nonce : liftX (signingContext groupKey tweaks message nonces).groupPn.data = .ok
      (groupNonce (tweaks.foldl tweakStep (groupKey, 1, 0)).1 message nonces) :=
    liftX_encodePoint nonzero
  rw [signMsg, if_neg (not_not.mpr signable.own)]
  show (getBindFactor _ _ >>= _) = _
  rw [factor, ok_bind]
  dsimp only
  rw [coefficient, ok_bind, nonce, ok_bind, getPubkey_eq signable.secret, ok_bind]
  rfl

/-! ### In the Go library -/

end Signing

end Pomade.Go
