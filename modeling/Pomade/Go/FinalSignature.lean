import Pomade.Go.Verification

/-! # Verifying a final signature

`VerifyFinalSig` of `sign.go`, against the verification of BIP340.  The code reduces both halves
of the signature and the key where BIP340 rejects what is out of range, and has no point at
infinity to compare with.
-/

namespace Pomade.Go

open Pomade.Lib Pomade.Frost

namespace Taproot

/-- Verifies a final aggregated BIP340 Schnorr signature.  Of the context it reads the key. -/
def verifyFinalSig (Pt : Type) [AddCommGroup Pt] [Module Scalar Pt] [Curve Pt] [Sha2]
    (groupPk : Bytes 33) (message : List UInt8) (signature : Bytes 64) : Result Bool :=
  let pkBytes := groupPk.data.tail
  match (liftX (signature.data.take 32) : Result (Point Pt)) with
  | .error _ => .ok false
  | .ok rPoint =>
    let s := bytesToNat (signature.data.drop 32)
    match (liftX pkBytes : Result (Point Pt)) with
    | .error _ => .ok false
    | .ok pkPoint => do
      let challenge ← getChallenge (signature.data.take 32) groupPk.data message
      -- s*G = R + challenge*P
      let sG := scalarBaseMulti Pt (modN s)
      let cP := scalarMulti pkPoint challenge
      let rhs ← elementAdd (some rPoint) (some cP)
      -- for one x there are two values of y, of different parity
      return decide (sG.x = rhs.x) && (yBit sG == yBit rhs)

end Taproot

/-! ## BIP340 -/

/-- The two halves of a signature. -/
def rBytes (signature : Bytes 64) : Bytes 32 := ⟨signature.data.take 32, by simp⟩

def sBytes (signature : Bytes 64) : Bytes 32 := ⟨signature.data.drop 32, by simp⟩

section Bip340

variable [Sha2]

/-- The challenge is hashed from the bytes, whatever number they denote. -/
def bip340Challenge (x r : Bytes 32) (message : List UInt8) : Scalar :=
  modN (hash340 "BIP0340/challenge" [r.data, x.data, message]).toNat

variable (Pt : Type) [AddCommGroup Pt] [Module Scalar Pt] [Curve Pt]

/-- BIP340 verification of the signature (r, s) for the key with the x-coordinate x: nothing is
out of range, the key is a point P with even y, and s*G - e*P is a point with even y and the
x-coordinate r. -/
def Bip340 (x : Bytes 32) (message : List UInt8) (r s : Bytes 32) : Prop :=
  x.toNat < secp256k1P ∧ r.toNat < secp256k1P ∧ s.toNat < N ∧
    ∃ P R : Pt, Curve.decompress x false = some P ∧
      R = modN s.toNat • Curve.generator - bip340Challenge x r message • P ∧
      R ≠ 0 ∧ Curve.affineX R = r ∧ Curve.yIsOdd R = false

/-- The equation s*G = R + e*P, with the coordinates and s read modulo the field prime and the
order. -/
def Balanced (x : Bytes 32) (message : List UInt8) (r s : Bytes 32) : Prop :=
  ∃ P R : Pt, Curve.decompress (Bytes.ofNat 32 (x.toNat % secp256k1P)) false = some P ∧
    Curve.decompress (Bytes.ofNat 32 (r.toNat % secp256k1P)) false = some R ∧
    modN s.toNat • Curve.generator = R + bip340Challenge x r message • P

end Bip340

/-- Nothing is out of range and s is not zero; or s is a multiple of the order, and BIP340 rejects
s or the key. -/
def InRange (x r s : Nat) : Prop :=
  r < secp256k1P ∧ (x < secp256k1P ∧ 0 < s ∧ s < N ∨ N ∣ s ∧ (secp256k1P ≤ x ∨ N ≤ s))

section Verify

variable {Pt : Type} [AddCommGroup Pt] [Module Scalar Pt] [Curve Pt] {x r s : Bytes 32}
variable {message : List UInt8}

/-! ## Coordinates -/

theorem lt_of_mod_secp256k1P (x : Nat) : x % secp256k1P < 256 ^ 32 :=
  (Nat.mod_lt x (by simp [secp256k1P])).trans (by simp [secp256k1P])

/-- Points are equal if and only if their coordinates are. -/
theorem coordinates_eq_iff (apart : NoZeroAbscissa Pt) (P Q : Pt) :
    (Taproot.fromSecpPoint P).x = (Taproot.fromSecpPoint Q).x ∧
      Taproot.yBit (Taproot.fromSecpPoint P) = Taproot.yBit (Taproot.fromSecpPoint Q) ↔ P = Q := by
  -- The identity has the coordinate zero, which no other point has.
  have finite : ∀ P : Pt, P ≠ 0 → (Taproot.fromSecpPoint P).x ≠ (Taproot.fromSecpPoint (0 : Pt)).x := by
    intro P nonzero same
    rw [fromSecpPoint_of_ne nonzero, Taproot.fromSecpPoint,
      if_pos ((Curve.isIdentity_iff (0 : Pt)).mpr rfl)] at same
    apply apart P nonzero
    rw [← Bytes.ofNat_toNat (Curve.affineX P)]
    exact congrArg (Bytes.ofNat 32) same
  constructor
  · rintro ⟨abscissa, parity⟩
    by_cases zeroP : P = 0
    · by_cases zeroQ : Q = 0
      · rw [zeroP, zeroQ]
      · rw [zeroP] at abscissa
        exact absurd abscissa.symm (finite Q zeroQ)
    by_cases zeroQ : Q = 0
    · rw [zeroQ] at abscissa
      exact absurd abscissa (finite P zeroP)
    cases (fromSecpPoint_x_eq zeroP zeroQ).mp abscissa with
    | inl same => exact same
    | inr opposite =>
      rw [fromSecpPoint_of_ne zeroP, fromSecpPoint_of_ne zeroQ, yBit_of_ne zeroP, yBit_of_ne zeroQ,
        opposite, Curve.yIsOdd_neg Q zeroQ] at parity
      simp at parity
  · intro same
    rw [same]
    exact ⟨rfl, rfl⟩

/-- An x-only key is lifted at its coordinate modulo the field prime. -/
theorem liftX_xonly (x : Bytes 32) :
    (Taproot.liftX x.data : Result (Taproot.Point Pt)) = Taproot.liftCoordinate x.toNat false := by
  rw [Taproot.liftX, if_pos x.size]
  rfl

/-- A point and its negative have one coordinate, unless the one that was lifted is not reduced. -/
theorem opposite_iff {R C : Pt}
    (lifted : Curve.decompress (Bytes.ofNat 32 (r.toNat % secp256k1P)) false = some R) :
    r.toNat = (Taproot.fromSecpPoint C).x ∧ Curve.isIdentity (R + C) = true ↔
      r.toNat < secp256k1P ∧ R + C = 0 := by
  obtain ⟨nonzero, abscissa, _⟩ := (Curve.decompress_eq_some _ _ _).mp lifted
  rw [Curve.isIdentity_iff]
  refine and_congr_left fun zero => ?_
  have negated : C = -R := (neg_eq_of_add_eq_zero_right zero).symm
  have same : Curve.affineX C = Bytes.ofNat 32 (r.toNat % secp256k1P) := by
    rw [← abscissa, negated]
    exact (Curve.affineX_eq_iff _ _).mpr (.inr rfl)
  have finite : C ≠ 0 := by simpa [negated] using nonzero
  rw [fromSecpPoint_of_ne finite, same, Bytes.toNat_ofNat (lt_of_mod_secp256k1P _)]
  constructor
  · intro reduced
    rw [reduced]
    exact Nat.mod_lt _ (by simp [secp256k1P])
  · intro less
    exact (Nat.mod_eq_of_lt less).symm

/-- The sum of a lifted point and another one, which is an error where the code sees the
identity. -/
theorem elementAdd_lifted {R C : Pt}
    (lifted : Curve.decompress (Bytes.ofNat 32 (r.toNat % secp256k1P)) false = some R) :
    (r.toNat < secp256k1P ∧ R + C = 0 →
      Taproot.elementAdd (some ⟨r.toNat, R⟩) (some (Taproot.fromSecpPoint C)) =
        .error (.err .invalidPoint)) ∧
    (¬ (r.toNat < secp256k1P ∧ R + C = 0) →
      Taproot.elementAdd (some ⟨r.toNat, R⟩) (some (Taproot.fromSecpPoint C)) =
        .ok (Taproot.fromSecpPoint (R + C))) := by
  rw [← opposite_iff lifted, Taproot.elementAdd]
  constructor
  · intro opposite
    exact if_pos opposite
  · intro apart
    exact if_neg apart

/-! ## What the code accepts -/

variable [Sha2]

theorem getChallenge_xonly (groupPk : Bytes 33) (r : Bytes 32) (message : List UInt8) :
    Taproot.getChallenge r.data groupPk.data message =
      .ok (bip340Challenge groupPk.tail r message) := by
  have key : convertPubkeyToBip340 groupPk.data = .ok groupPk.tail.data := by
    rw [convertPubkeyToBip340, if_pos groupPk.size]
    rfl
  have nonce : convertPubkeyToBip340 r.data = .ok r.data := by
    rw [convertPubkeyToBip340, if_neg (by simp), if_pos r.size]
  rw [Taproot.getChallenge, nonce, ok_bind, key, ok_bind, if_neg (by simp), if_neg (by simp)]
  rfl

omit [Sha2] in
theorem modN_eq_zero {s : Nat} : modN s = 0 ↔ N ∣ s := ZMod.natCast_eq_zero_iff s N

omit [Sha2] in
/-- What the code does with two points that were lifted. -/
theorem compare_iff (apart : NoZeroAbscissa Pt) {R C : Pt}
    (lifted : Curve.decompress (Bytes.ofNat 32 (r.toNat % secp256k1P)) false = some R) (k : Scalar) :
    (Taproot.elementAdd (some ⟨r.toNat, R⟩) (some (Taproot.fromSecpPoint C)) >>= fun rhs =>
      Except.ok (decide ((Taproot.scalarBaseMulti Pt k).x = rhs.x) &&
        (Taproot.yBit (Taproot.scalarBaseMulti Pt k) == Taproot.yBit rhs))) = .ok true ↔
      k • Curve.generator = R + C ∧ ¬ (r.toNat < secp256k1P ∧ k = 0) := by
  obtain ⟨failed, added⟩ := elementAdd_lifted (C := C) lifted
  have identity : k • (Curve.generator : Pt) = 0 ↔ k = 0 := scalarBaseMulti_eq_zero
  by_cases opposite : r.toNat < secp256k1P ∧ R + C = 0
  · rw [failed opposite, error_bind]
    constructor
    · intro done
      cases done
    · rintro ⟨same, nonzero⟩
      rw [opposite.2, identity] at same
      exact absurd ⟨opposite.1, same⟩ nonzero
  · rw [added opposite, ok_bind, Except.ok.injEq, Bool.and_eq_true, decide_eq_true_iff,
      beq_iff_eq, Taproot.scalarBaseMulti, coordinates_eq_iff apart]
    constructor
    · intro same
      refine ⟨same, ?_⟩
      rintro ⟨less, zero⟩
      apply opposite
      rw [← same, identity.mpr zero]
      exact ⟨less, rfl⟩
    · intro balanced
      exact balanced.1

/-- The code accepts what satisfies the equation, unless it takes the sum for the identity. -/
theorem verifyFinalSig_iff (apart : NoZeroAbscissa Pt) (groupPk : Bytes 33)
    (message : List UInt8) (signature : Bytes 64) :
    Taproot.verifyFinalSig Pt groupPk message signature = .ok true ↔
      Balanced Pt groupPk.tail message (rBytes signature) (sBytes signature) ∧
        ¬ ((rBytes signature).toNat < secp256k1P ∧ N ∣ (sBytes signature).toNat) := by
  have halves : signature.data.take 32 = (rBytes signature).data := rfl
  have key : groupPk.data.tail = groupPk.tail.data := rfl
  have scalar : bytesToNat (signature.data.drop 32) = (sBytes signature).toNat := rfl
  rw [Taproot.verifyFinalSig, halves, key, scalar, liftX_xonly, liftX_xonly, Taproot.liftCoordinate,
    Taproot.liftCoordinate, Balanced]
  cases nonce : (Curve.decompress (Bytes.ofNat 32 ((rBytes signature).toNat % secp256k1P)) false :
      Option Pt) with
  | none => simp
  | some R =>
    cases lifted : (Curve.decompress (Bytes.ofNat 32 (groupPk.tail.toNat % secp256k1P)) false :
        Option Pt) with
    | none => simp
    | some P =>
      have compared := compare_iff apart (C := bip340Challenge groupPk.tail (rBytes signature) message • P)
        nonce (modN (sBytes signature).toNat)
      rw [modN_eq_zero] at compared
      simp only [Option.some.injEq, exists_and_left, exists_eq_left', getChallenge_xonly, ok_bind]
      exact compared

/-! ## When it is BIP340 -/

/-- BIP340 asks for the equation with nothing out of range. -/
theorem bip340_iff :
    Bip340 Pt x message r s ↔
      Balanced Pt x message r s ∧ x.toNat < secp256k1P ∧ r.toNat < secp256k1P ∧ s.toNat < N := by
  constructor
  · intro ⟨key, nonce, scalar, P, R, lifted, point, nonzero, abscissa, even⟩
    refine ⟨⟨P, R, ?_, ?_, ?_⟩, key, nonce, scalar⟩
    · rwa [Nat.mod_eq_of_lt key, Bytes.ofNat_toNat]
    · rw [Nat.mod_eq_of_lt nonce, Bytes.ofNat_toNat]
      exact (Curve.decompress_eq_some _ _ _).mpr ⟨nonzero, abscissa, even⟩
    · rw [point, sub_add_cancel]
  · intro ⟨⟨P, R, lifted, found, equation⟩, key, nonce, scalar⟩
    rw [Nat.mod_eq_of_lt key, Bytes.ofNat_toNat] at lifted
    rw [Nat.mod_eq_of_lt nonce, Bytes.ofNat_toNat] at found
    obtain ⟨nonzero, abscissa, even⟩ := (Curve.decompress_eq_some _ _ _).mp found
    exact ⟨key, nonce, scalar, P, R, lifted, eq_sub_of_add_eq equation.symm, nonzero, abscissa, even⟩

omit [Sha2] in
/-- What the code accepts of balanced signatures, and what BIP340 does. -/
theorem inRange_iff (x r s : Nat) :
    (¬ (r < secp256k1P ∧ N ∣ s) ↔ x < secp256k1P ∧ r < secp256k1P ∧ s < N) ↔ InRange x r s := by
  rw [InRange]
  by_cases multiple : N ∣ s
  · -- Zero is the only multiple below the order.
    have least : s < N ↔ s = 0 := by
      constructor
      · exact Nat.eq_zero_of_dvd_of_lt multiple
      · intro zero
        rw [zero]
        simp [N]
    simp only [multiple, ← not_lt, least, and_true, true_and]
    by_cases zero : s = 0
    · simp only [zero]
      tauto
    · simp only [zero]
      tauto
  · have positive : 0 < s := Nat.pos_of_ne_zero fun zero => multiple (zero ▸ dvd_zero N)
    simp only [multiple, positive]
    tauto

/-- The code decides BIP340 verification if and only if the signature and the key, as the code
reads them, do not satisfy the equation, or are in range. -/
theorem final_signature_exact_iff (apart : NoZeroAbscissa Pt) (groupPk : Bytes 33)
    (message : List UInt8) (signature : Bytes 64) :
    (Taproot.verifyFinalSig Pt groupPk message signature = .ok true ↔
      Bip340 Pt groupPk.tail message (rBytes signature) (sBytes signature)) ↔
    (Balanced Pt groupPk.tail message (rBytes signature) (sBytes signature) →
      InRange groupPk.tail.toNat (rBytes signature).toNat (sBytes signature).toNat) := by
  rw [verifyFinalSig_iff apart, bip340_iff, ← inRange_iff]
  tauto

end Verify

/-! ## A signature and another one -/

/-- The number one on as many bytes as a digest, so that the challenge is one. -/
def oneMessage : List UInt8 := (Bytes.ofNat 32 1).data

/-- The key of the secret two. -/
def keyOfSecretTwo : Bytes 33 := Bytes.cons 0x02 (Bytes.ofNat 32 2)

/-- A signature with the nonce three. -/
def withScalar (s : Nat) : Bytes 64 := (Bytes.ofNat 32 3).append (Bytes.ofNat 32 s)

theorem halves_append (r s : Bytes 32) : rBytes (r.append s) = r ∧ sBytes (r.append s) = s := by
  constructor
  · apply Bytes.ext
    simp [rBytes, Bytes.append]
  · apply Bytes.ext
    simp [sBytes, Bytes.append]

theorem halves_withScalar (s : Nat) :
    rBytes (withScalar s) = Bytes.ofNat 32 3 ∧ sBytes (withScalar s) = Bytes.ofNat 32 s :=
  halves_append _ _

/-- For the scalar five and what is congruent to it the equation holds. -/
theorem balanced_withScalar {s : Nat} (bound : s < 256 ^ 32) (five : modN s = 5) :
    let _ := lastBytes
    Balanced Scalar keyOfSecretTwo.tail oneMessage (rBytes (withScalar s)) (sBytes (withScalar s)) := by
  intro hash
  have challenge : bip340Challenge keyOfSecretTwo.tail (Bytes.ofNat 32 3) oneMessage = 1 := by
    decide +kernel
  have key : (Curve.decompress (Bytes.ofNat 32 (keyOfSecretTwo.tail.toNat % secp256k1P)) false :
      Option Scalar) = some 2 := by
    decide +kernel
  have nonce : (Curve.decompress (Bytes.ofNat 32 ((Bytes.ofNat 32 3).toNat % secp256k1P)) false :
      Option Scalar) = some 3 := by
    decide +kernel
  rw [(halves_withScalar s).1, (halves_withScalar s).2, Balanced, challenge,
    Bytes.toNat_ofNat bound, five, key, nonce]
  exact ⟨2, 3, rfl, rfl, by decide +kernel⟩

/-- The signature with the scalar five is verified, and is right. -/
theorem final_signature_exact_five :
    let _ := lastBytes
    Taproot.verifyFinalSig Scalar keyOfSecretTwo oneMessage (withScalar 5) = .ok true ↔
      Bip340 Scalar keyOfSecretTwo.tail oneMessage (rBytes (withScalar 5)) (sBytes (withScalar 5)) := by
  intro hash
  refine (final_signature_exact_iff noZeroAbscissa_scalar keyOfSecretTwo oneMessage (withScalar 5)).mpr ?_
  intro _
  rw [(halves_withScalar 5).1, (halves_withScalar 5).2, InRange]
  decide +kernel

/-- So is the signature with the order added to the scalar, which BIP340 rejects. -/
theorem scalar_out_of_range_accepted :
    let _ := lastBytes
    Taproot.verifyFinalSig Scalar keyOfSecretTwo oneMessage (withScalar (5 + N)) = .ok true ∧
      ¬ Bip340 Scalar keyOfSecretTwo.tail oneMessage (rBytes (withScalar (5 + N)))
        (sBytes (withScalar (5 + N))) := by
  intro hash
  have bound : 5 + N < 256 ^ 32 := by decide +kernel
  have five : modN (5 + N) = 5 := by decide +kernel
  have scalar : (sBytes (withScalar (5 + N))).toNat = 5 + N := by
    rw [(halves_withScalar _).2, Bytes.toNat_ofNat bound]
  constructor
  · rw [verifyFinalSig_iff noZeroAbscissa_scalar, scalar]
    refine ⟨balanced_withScalar bound five, fun identity => ?_⟩
    rw [← modN_eq_zero, five] at identity
    exact absurd identity.2 (by decide +kernel)
  · rw [bip340_iff, scalar]
    intro valid
    omega

end Pomade.Go
