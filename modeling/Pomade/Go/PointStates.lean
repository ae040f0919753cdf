import Pomade.Go.PartialSignatures

/-! # The state of a tweaked key

What `get_point_state` accumulates over a list of tweaks.  A round replaces the point by its
negative when y is odd, and so the sign of the starting element and everything that was added to it
change together: the point is always the element, with the sign of the state, moved by a known
multiple of the generator.
-/

namespace Pomade.Go

open Pomade.Lib Pomade.Frost

variable {Pt : Type} [AddCommGroup Pt] [Module Scalar Pt] [Curve Pt]

/-! ## Signs -/

/-- One or minus one. -/
def IsSign (k : Scalar) : Prop := k = 1 ∨ k = -1

theorem IsSign.mul {a b : Scalar} (first : IsSign a) (second : IsSign b) : IsSign (a * b) := by
  cases first with
  | inl one => rwa [one, one_mul]
  | inr minus =>
    rw [minus, neg_one_mul]
    cases second with
    | inl one => exact .inr (by rw [one])
    | inr minus => exact .inl (by rw [minus, neg_neg])

theorem parityOf_sign (P : Pt) : IsSign (parityOf P) := by
  rw [parityOf]
  cases hasEvenY P with
  | false => exact .inr (by simp)
  | true => exact .inl (by simp)

/-- Of a point and its negative the code goes on with the one that the parity selects. -/
theorem parityOf_smul (P : Pt) : (if hasEvenY P then P else negatePoint P) = parityOf P • P := by
  rw [parityOf]
  cases hasEvenY P with
  | false => simp [negatePoint]
  | true => simp

/-! ## The invariant of the loop -/

/-- The point is the element with the sign of the state, moved by a multiple of the generator. -/
structure Accumulated (element : Pt) (acc : Pt × Scalar × Scalar) : Prop where
  point : acc.1 = scalarMulti element acc.2.1 + scalarBaseMulti Pt acc.2.2
  sign : IsSign acc.2.1

theorem accumulated_start (element : Pt) : Accumulated element (element, 1, 0) where
  point := by simp [scalarMulti, scalarBaseMulti]
  sign := .inl rfl

/-- A round multiplies all that was accumulated with the parity, and adds one more tweak. -/
theorem accumulated_step {element : Pt} {acc : Pt × Scalar × Scalar}
    (accumulated : Accumulated element acc) (tweak : Bytes 32) :
    Accumulated element (tweakStep acc tweak) where
  point := by
    obtain ⟨point, state, sum⟩ := acc
    have reached : point = state • element + sum • Curve.generator := accumulated.point
    show (if hasEvenY point then point else negatePoint point) +
        scalarFromBytes tweak • Curve.generator =
      (state * parityOf point) • element +
        (scalarFromBytes tweak + parityOf point * sum) • Curve.generator
    calc (if hasEvenY point then point else negatePoint point) +
          scalarFromBytes tweak • Curve.generator
        = parityOf point • (state • element + sum • Curve.generator) +
            scalarFromBytes tweak • Curve.generator := by rw [parityOf_smul, ← reached]
      _ = (parityOf point * state) • element + ((parityOf point * sum) • Curve.generator +
            scalarFromBytes tweak • Curve.generator) := by
          rw [smul_add, smul_smul, smul_smul, add_assoc]
      _ = (state * parityOf point) • element +
            (scalarFromBytes tweak + parityOf point * sum) • Curve.generator := by
          rw [mul_comm (parityOf point) state, ← add_smul, add_comm (parityOf point * sum)]
  sign := accumulated.sign.mul (parityOf_sign acc.1)

theorem accumulated_run {element : Pt} {acc : Pt × Scalar × Scalar}
    (accumulated : Accumulated element acc) (tweaks : List (Bytes 32)) :
    Accumulated element (tweaks.foldl tweakStep acc) := by
  induction tweaks generalizing acc with
  | nil => exact accumulated
  | cons tweak tweaks ih => exact ih (accumulated_step accumulated tweak)

/-! ## Both libraries -/

/-- The fields as the Go library returns them. -/
def encodeState (state : PointState Pt) : Taproot.PointState where
  parity := scalarToBytes state.parity
  point := encodePoint state.point
  state := scalarToBytes state.state
  tweak := scalarToBytes state.tweak

/-- An x-coordinate that is not reduced is not looked at: the first round reduces it. -/
theorem tweakPoint_coordinate {P : Pt} {tweak : Bytes 32} (x : Nat) (state sum : Scalar)
    (nonzero : P ≠ 0) (finite : tweakedPoint P tweak ≠ 0) :
    Taproot.tweakPoint (⟨x, P⟩, state, sum) tweak =
      Taproot.tweakPoint (Taproot.fromSecpPoint P, state, sum) tweak := by
  have parity : Taproot.parityOf (⟨x, P⟩ : Taproot.Point Pt) = parityOf P :=
    parityOf_fromSecpPoint nonzero
  have arranged : (if parityOf P = -1 then Taproot.negatePoint ⟨x, P⟩ else ⟨x, P⟩) =
      (⟨x, if hasEvenY P then P else negatePoint P⟩ : Taproot.Point Pt) := by
    simp only [parityOf_eq_neg_one]
    cases hasEvenY P with
    | false => rfl
    | true => rfl
  have added : Taproot.elementAdd
      (some ⟨x, if hasEvenY P then P else negatePoint P⟩)
      (some (Taproot.scalarBaseMulti Pt (scalarFromBytes tweak))) =
        .ok (Taproot.fromSecpPoint (tweakedPoint P tweak)) := by
    rw [Taproot.elementAdd, if_neg]
    · rfl
    · intro both
      exact finite ((Curve.isIdentity_iff _).mp both.2)
  have expected : Taproot.tweakPoint (Taproot.fromSecpPoint P, state, sum) tweak = _ :=
    @tweakPoint_taproot Pt _ _ _ (P, state, sum) tweak nonzero finite
  rw [expected, Taproot.tweakPoint, parity, arranged, added]
  rfl

/-- With a tweak it makes no difference whether the coordinate of the element is reduced. -/
theorem getPointState_coordinate {element : Pt} {tweaks : List (Bytes 32)} {x : Nat}
    (nonzero : element ≠ 0) (tweakable : Tweakable element tweaks)
    (reduced : x = (Curve.affineX element).toNat ∨ tweaks ≠ []) :
    Taproot.getPointState (⟨x, element⟩ : Taproot.Point Pt) tweaks =
      Taproot.getPointState (Taproot.fromSecpPoint element) tweaks := by
  cases tweaks with
  | nil =>
    cases reduced with
    | inl same => rw [same, fromSecpPoint_of_ne nonzero]
    | inr tweaked => exact absurd rfl tweaked
  | cons tweak tweaks =>
    rw [Taproot.getPointState, Taproot.getPointState, List.foldlM_cons, List.foldlM_cons,
      tweakPoint_coordinate x 1 0 nonzero tweakable.1]

/-- The Rust crate accumulates the sign and the tweak of whatever it is given, and the parity is
that of the point it returns.  The Go library computes the same fields, unless it starts from the
identity or comes to it, where it has a parity of its own or stops.  An x-coordinate that
`LiftX` has not reduced shows only where there is no tweak. -/
theorem pointState_accumulated (element : Pt) (tweaks : List (Bytes 32)) :
    ∃ state, getPointState element tweaks = .ok state ∧
      state.point = scalarMulti element state.state + scalarBaseMulti Pt state.tweak ∧
      (state.state = 1 ∨ state.state = -1) ∧
      state.parity = (if hasEvenY state.point then 1 else -1) ∧
      (element ≠ 0 → Tweakable element tweaks → ∀ x,
        x = (Curve.affineX element).toNat ∨ tweaks ≠ [] →
        Taproot.getPointState ⟨x, element⟩ tweaks = .ok (encodeState state)) := by
  have accumulated := accumulated_run (accumulated_start element) tweaks
  refine ⟨_, getPointState_eq element tweaks, accumulated.point, accumulated.sign, rfl, ?_⟩
  intro nonzero tweakable x reduced
  rw [getPointState_coordinate nonzero tweakable reduced]
  exact getPointState_taproot nonzero tweakable

/-- An odd element is negated before the first tweak is added. -/
theorem pointState_accumulated_odd :
    ∃ state, getPointState (-1 : Scalar) [Bytes.ofNat 32 2, Bytes.ofNat 32 5] = .ok state ∧
      (state.state = 1 ∨ state.state = -1) ∧
      Taproot.getPointState (Taproot.fromSecpPoint (-1 : Scalar))
        [Bytes.ofNat 32 2, Bytes.ofNat 32 5] = .ok (encodeState state) := by
  have nonzero : (-1 : Scalar) ≠ 0 := by decide +kernel
  have first : tweakedPoint (-1 : Scalar) (Bytes.ofNat 32 2) ≠ 0 := by decide +kernel
  have second :
      tweakedPoint (tweakedPoint (-1 : Scalar) (Bytes.ofNat 32 2)) (Bytes.ofNat 32 5) ≠ 0 := by
    decide +kernel
  obtain ⟨state, returned, _, sign, _, same⟩ :=
    pointState_accumulated (-1 : Scalar) [Bytes.ofNat 32 2, Bytes.ofNat 32 5]
  refine ⟨state, returned, sign, ?_⟩
  rw [fromSecpPoint_of_ne nonzero]
  exact same nonzero ⟨first, second, trivial⟩ _ (.inl rfl)

end Pomade.Go
