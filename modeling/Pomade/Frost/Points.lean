import Pomade.Frost.Curve

/-! # Encoding points

A point other than the identity is what its 33 bytes say it is.
-/

namespace Pomade.Frost

open Pomade.Lib

section Points

variable {Pt : Type} [AddCommGroup Pt] [Module Scalar Pt] [Curve Pt] {P : Pt}

/-- The compressed encoding of a point that is not the identity. -/
def encodePoint (P : Pt) : Bytes 33 :=
  Bytes.cons (if Curve.yIsOdd P then 0x03 else 0x02) (Curve.affineX P)

theorem serializePoint_eq (nonzero : P ≠ 0) : serializePoint P = .ok (encodePoint P) := by
  have finite : Curve.isIdentity P ≠ true := fun identity => nonzero ((Curve.isIdentity_iff P).mp identity)
  rw [serializePoint, if_neg finite]
  rfl

theorem serializePoint_ok {bytes : Bytes 33} (serialized : serializePoint P = .ok bytes) : P ≠ 0 := by
  rintro rfl
  rw [serializePoint, if_pos ((Curve.isIdentity_iff 0).mpr rfl)] at serialized
  cases serialized

theorem deserializePoint_encodePoint (nonzero : P ≠ 0) :
    deserializePoint (encodePoint P) = .ok P := by
  have found : Curve.decompress (Curve.affineX P) (Curve.yIsOdd P) = some P :=
    (Curve.decompress_eq_some _ _ _).mpr ⟨nonzero, rfl, rfl⟩
  cases odd : Curve.yIsOdd P with
  | false =>
    rw [odd] at found
    simp [deserializePoint, encodePoint, odd, found]
  | true =>
    rw [odd] at found
    simp [deserializePoint, encodePoint, odd, found]

theorem liftX_bytes33 (bytes : Bytes 33) : (liftX bytes.data : Result Pt) = deserializePoint bytes := by
  have short : Bytes.ofList 32 bytes.data = none := by
    rw [Bytes.ofList, dif_neg]
    rw [bytes.data_length]
    decide
  have whole : Bytes.ofList 33 bytes.data = some bytes := by simp
  rw [liftX, short, whole]

@[simp] theorem liftX_encodePoint (nonzero : P ≠ 0) : liftX (encodePoint P).data = .ok P := by
  rw [liftX_bytes33, deserializePoint_encodePoint nonzero]

theorem ne_zero_of_deserializePoint {bytes : Bytes 33} (decoded : deserializePoint bytes = .ok P) :
    P ≠ 0 := by
  rw [deserializePoint] at decoded
  split at decoded
  next Q found =>
    cases decoded
    split at found
    · exact ((Curve.decompress_eq_some _ _ _).mp found).1
    · exact ((Curve.decompress_eq_some _ _ _).mp found).1
    · exact ((Curve.decompress_eq_some _ _ _).mp found).1
    · cases found
  next => cases decoded

/-- Nothing lifts to the identity. -/
theorem ne_zero_of_liftX {bytes : List UInt8} (lifted : liftX bytes = .ok P) : P ≠ 0 := by
  rw [liftX] at lifted
  split at lifted
  · exact ne_zero_of_deserializePoint lifted
  · exact ne_zero_of_deserializePoint lifted
  · cases lifted

theorem scalarBaseMulti_ne_zero {k : Scalar} (nonzero : k ≠ 0) : scalarBaseMulti Pt k ≠ 0 :=
  smul_ne_zero nonzero Curve.generator_ne_zero

theorem scalarBaseMulti_eq_zero {k : Scalar} : scalarBaseMulti Pt k = 0 ↔ k = 0 := by
  rw [scalarBaseMulti, smul_eq_zero, or_iff_left Curve.generator_ne_zero]

/-- Of a point and its negative the parity of y tells which one it is. -/
theorem add_lost {P asked : Pt} (same : P = asked ∨ P = -asked) :
    P + (if Curve.yIsOdd P = Curve.yIsOdd asked then 0 else asked + asked) = asked := by
  rcases same with rfl | rfl
  · rw [if_pos rfl, add_zero]
  · by_cases zero : asked = 0
    · subst zero
      simp
    · have turned : Curve.yIsOdd (-asked) ≠ Curve.yIsOdd asked := by
        rw [Curve.yIsOdd_neg asked zero]
        simp
      rw [if_neg turned, neg_add_cancel_left]

end Points

end Pomade.Frost
