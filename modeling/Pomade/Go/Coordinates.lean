import Pomade.Go.Field
import Pomade.Go.Taproot

/-! # Encodings of points

`LiftX` and `SerializePoint` of `ecc/util.go` on coordinates.  `LiftX` does not compare x with the
field prime, and keeps it as it came; so what it lifts it serializes to the same bytes, and a
point with a small x-coordinate has two encodings.
-/

namespace Pomade.Go

open Pomade.Lib Pomade.Frost

namespace Ecc

/-- A point on the curve by its coordinates. -/
structure Point where
  x : Nat
  y : Nat
deriving DecidableEq

/-- The bytes of x, and for a compressed point whether y is wanted odd. -/
def splitEncoding (bytes : List UInt8) : Except String (List UInt8 × Option Bool) :=
  if bytes.length = 32 then .ok (bytes, none)
  else if bytes.length = 33 then
    if bytes.head? ≠ some 0x02 ∧ bytes.head? ≠ some 0x03 then .error "invalid point prefix"
    else .ok (bytes.tail, some (bytes.head? == some 0x03))
  else .error ("invalid point encoding length: " ++ toString bytes.length)

/-- Lifts an x-only or compressed pubkey to a point. -/
def liftX (bytes : List UInt8) : Except String Point := do
  let (xBytes, wantOdd) ← splitEncoding bytes
  let x := bytesToNat xBytes
  -- y^2 = x^3 + 7 mod P
  let x3 := powMod secp256k1P x 3
  let y2 := (x3 + 7) % secp256k1P
  match modSqrt y2 secp256k1P with
  | none => throw "no square root for x"
  | some y =>
    match wantOdd with
    | some odd =>
      if (y % 2 == 1) ≠ odd then return { x, y := secp256k1P - y }
      else return { x, y }
    | none =>
      -- x-only input: use even Y
      if y % 2 ≠ 0 then return { x, y := secp256k1P - y }
      else return { x, y }

/-- Serializes a point to 33-byte compressed format. -/
def serializePoint (p : Point) : Bytes 33 :=
  Bytes.cons (if p.y % 2 = 0 then 0x02 else 0x03) (Bytes.ofNat 32 p.x)

end Ecc

/-! ## Encodings -/

/-- The x-coordinate in the last bytes. -/
def xCoordinate (bytes : List UInt8) : Nat :=
  bytesToNat (if bytes.length = 33 then bytes.tail else bytes)

def WellPrefixed (bytes : List UInt8) : Prop :=
  bytes.length = 33 → bytes.head? = some 0x02 ∨ bytes.head? = some 0x03

def wantsOdd (bytes : List UInt8) : Bool := bytes.length == 33 && bytes.head? == some 0x03

/-- The point has coordinates in the field, which satisfy the equation of the curve. -/
def OnCurve (p : Ecc.Point) : Prop :=
  p.x < secp256k1P ∧ p.y < secp256k1P ∧ p.y * p.y % secp256k1P = (p.x ^ 3 + 7) % secp256k1P

/-- A number that is the x-coordinate of a point, modulo the field prime. -/
def IsAbscissa (x : Nat) : Prop := ∃ y, y * y % secp256k1P = (x ^ 3 + 7) % secp256k1P

/-- Two points with coordinates that may not be reduced are one point. -/
def SamePoint (p q : Ecc.Point) : Prop := p.x % secp256k1P = q.x % secp256k1P ∧ p.y = q.y

/-! ## The root with a parity -/

/-- The one of the two roots that the code takes. -/
def chosenRoot (y : Nat) (odd : Bool) : Nat := if (y % 2 == 1) ≠ odd then secp256k1P - y else y

theorem chosenRoot_parity {y : Nat} (less : y < secp256k1P) (odd : Bool) :
    (chosenRoot y odd % 2 == 1) = odd := by
  have shape : secp256k1P % 2 = 1 := by simp [secp256k1P]
  rw [chosenRoot]
  by_cases same : (y % 2 == 1) = odd
  · rwa [if_neg (not_not.mpr same)]
  · rw [if_pos same]
    cases odd
    · simp at same ⊢
      omega
    · simp at same ⊢
      omega

theorem chosenRoot_lt {y : Nat} (less : y < secp256k1P) (positive : 0 < y) (odd : Bool) :
    0 < chosenRoot y odd ∧ chosenRoot y odd < secp256k1P := by
  rw [chosenRoot]
  split
  · omega
  · omega

theorem chosenRoot_square {y : Nat} (less : y < secp256k1P) (odd : Bool) :
    chosenRoot y odd * chosenRoot y odd % secp256k1P = y * y % secp256k1P := by
  rw [chosenRoot]
  split
  · exact opposite_square less.le
  · rfl

/-- A root is never zero. -/
theorem root_pos {x y : Nat} (root : y * y % secp256k1P = (x ^ 3 + 7) % secp256k1P) : 0 < y := by
  apply Nat.pos_of_ne_zero
  intro zero
  rw [zero] at root
  exact cube_add_seven_ne_zero x (by simpa using root.symm)

/-- There is one root of each parity. -/
theorem eq_of_parity {x y z : Nat} (less : y < secp256k1P) (less' : z < secp256k1P)
    (root : y * y % secp256k1P = (x ^ 3 + 7) % secp256k1P)
    (root' : z * z % secp256k1P = (x ^ 3 + 7) % secp256k1P)
    (parity : (y % 2 == 1) = (z % 2 == 1)) : y = z := by
  have shape : secp256k1P % 2 = 1 := by simp [secp256k1P]
  cases eq_or_opposite less less' (root_pos root) (root.trans root'.symm) with
  | inl same => exact same
  | inr opposite =>
    rw [Bool.eq_iff_iff, beq_iff_eq, beq_iff_eq] at parity
    omega

/-! ## What is lifted -/

section Lift

variable {bytes : List UInt8} {p : Ecc.Point}

theorem splitEncoding_eq (length : bytes.length = 32 ∨ bytes.length = 33) :
    (WellPrefixed bytes → ∃ xBytes wantOdd, Ecc.splitEncoding bytes = .ok (xBytes, wantOdd) ∧
      bytesToNat xBytes = xCoordinate bytes ∧ wantOdd.getD false = wantsOdd bytes) ∧
    (¬ WellPrefixed bytes → Ecc.splitEncoding bytes = .error "invalid point prefix") := by
  rw [Ecc.splitEncoding, xCoordinate, wantsOdd, WellPrefixed]
  cases length with
  | inl short => simp [short]
  | inr long =>
    by_cases known : bytes.head? = some 0x02 ∨ bytes.head? = some 0x03
    · have passed : ¬ (bytes.head? ≠ some 0x02 ∧ bytes.head? ≠ some 0x03) := by tauto
      simp [long, known, passed]
    · have failed : bytes.head? ≠ some 0x02 ∧ bytes.head? ≠ some 0x03 := by tauto
      simp [long, failed]

/-- The code takes the root with the wanted parity, if there is a root. -/
theorem liftX_of_split {xBytes : List UInt8} {wantOdd : Option Bool}
    (split : Ecc.splitEncoding bytes = .ok (xBytes, wantOdd)) :
    Ecc.liftX bytes =
      match modSqrt ((bytesToNat xBytes ^ 3 + 7) % secp256k1P) secp256k1P with
      | none => .error "no square root for x"
      | some y => .ok ⟨bytesToNat xBytes, chosenRoot y (wantOdd.getD false)⟩ := by
  have cubed : (powMod secp256k1P (bytesToNat xBytes) 3 + 7) % secp256k1P =
      (bytesToNat xBytes ^ 3 + 7) % secp256k1P := by
    rw [powMod_eq, Nat.mod_add_mod]
  rw [Ecc.liftX, split, ← cubed]
  simp only [bind, Except.bind]
  cases modSqrt ((powMod secp256k1P (bytesToNat xBytes) 3 + 7) % secp256k1P) secp256k1P with
  | none => rfl
  | some y =>
    cases wantOdd with
    | none =>
      by_cases even : y % 2 = 0
      · simp [chosenRoot, even]
        rfl
      · have odd : y % 2 = 1 := by omega
        simp [chosenRoot, odd]
        rfl
    | some odd =>
      by_cases same : (y % 2 == 1) = odd
      · simp [chosenRoot, same]
        rfl
      · simp [chosenRoot, same]
        rfl

/-- A point is lifted from the bytes of its x-coordinate, reduced or not, with the wanted root. -/
theorem liftX_ok_iff (length : bytes.length = 32 ∨ bytes.length = 33) :
    Ecc.liftX bytes = .ok p ↔
      WellPrefixed bytes ∧ p.x = xCoordinate bytes ∧ p.y < secp256k1P ∧
        p.y * p.y % secp256k1P = (xCoordinate bytes ^ 3 + 7) % secp256k1P ∧
        (p.y % 2 == 1) = wantsOdd bytes := by
  obtain ⟨read, failed⟩ := splitEncoding_eq length
  by_cases known : WellPrefixed bytes
  · obtain ⟨xBytes, wantOdd, split, coordinate, parity⟩ := read known
    rw [liftX_of_split split, coordinate, parity]
    cases found : modSqrt ((xCoordinate bytes ^ 3 + 7) % secp256k1P) secp256k1P with
    | none =>
      have missing := modSqrt_none secp256k1P_shape found
      simp only [Nat.mod_mod] at missing
      simp [missing]
    | some y =>
      obtain ⟨less, square⟩ := modSqrt_some secp256k1P_prime.pos found
      rw [Nat.mod_mod] at square
      have root := (chosenRoot_square less (wantsOdd bytes)).trans square
      have bounds := chosenRoot_lt less (root_pos square) (wantsOdd bytes)
      constructor
      · intro lifted
        cases lifted
        exact ⟨known, rfl, bounds.2, root, chosenRoot_parity less _⟩
      · intro ⟨_, sameX, less', root', parity'⟩
        have sameY : p.y = chosenRoot y (wantsOdd bytes) :=
          eq_of_parity less' bounds.2 root' root
            (parity'.trans (chosenRoot_parity less _).symm)
        dsimp only
        rw [← sameX, ← sameY]
  · rw [Ecc.liftX, failed known]
    refine ⟨fun lifted => ?_, fun lifted => absurd lifted.1 known⟩
    cases lifted

/-- Whatever x-coordinate of a point the bytes hold, it is lifted. -/
theorem exists_lifted (length : bytes.length = 32 ∨ bytes.length = 33)
    (known : WellPrefixed bytes) (abscissa : IsAbscissa (xCoordinate bytes)) :
    ∃ p, Ecc.liftX bytes = .ok p := by
  obtain ⟨y, root⟩ := abscissa
  have less : y % secp256k1P < secp256k1P := Nat.mod_lt _ secp256k1P_prime.pos
  have root' : y % secp256k1P * (y % secp256k1P) % secp256k1P =
      (xCoordinate bytes ^ 3 + 7) % secp256k1P := by
    rw [← root, ← Nat.mul_mod]
  refine ⟨⟨xCoordinate bytes, chosenRoot (y % secp256k1P) (wantsOdd bytes)⟩, ?_⟩
  rw [liftX_ok_iff length]
  exact ⟨known, rfl, (chosenRoot_lt less (root_pos root') _).2,
    (chosenRoot_square less _).trans root', chosenRoot_parity less _⟩

theorem abscissa_of_lifted (length : bytes.length = 32 ∨ bytes.length = 33)
    (lifted : Ecc.liftX bytes = .ok p) : IsAbscissa (xCoordinate bytes) := by
  obtain ⟨_, _, _, root, _⟩ := (liftX_ok_iff length).mp lifted
  exact ⟨p.y, root⟩

/-! ## Round trips -/

/-- The prefix of what is serialized. -/
theorem serializePoint_data (p : Ecc.Point) :
    (Ecc.serializePoint p).data =
      (if p.y % 2 = 0 then 0x02 else 0x03) :: (Bytes.ofNat 32 p.x).data := rfl

theorem xCoordinate_serializePoint {p : Ecc.Point} (bound : p.x < 256 ^ 32) :
    xCoordinate (Ecc.serializePoint p).data = p.x := by
  have long : (Ecc.serializePoint p).data.length = 33 := (Ecc.serializePoint p).size
  have read : bytesToNat (Bytes.ofNat 32 p.x).data = p.x := Bytes.toNat_ofNat bound
  rw [xCoordinate, if_pos long, serializePoint_data, List.tail_cons, read]

theorem xCoordinate_lt (long : bytes.length = 33) : xCoordinate bytes < 256 ^ 32 := by
  have size : bytes.tail.length = 32 := by simp [long]
  have written := bytesToNat_natToBytes 32 (bytesToNat bytes.tail)
  rw [← size, natToBytes_bytesToNat, size] at written
  rw [xCoordinate, if_pos long, written]
  exact Nat.mod_lt _ (by simp)

/-- What is lifted is serialized to the same bytes, reduced or not. -/
theorem serializePoint_of_lifted (long : bytes.length = 33) (lifted : Ecc.liftX bytes = .ok p) :
    (Ecc.serializePoint p).data = bytes := by
  obtain ⟨known, sameX, _, _, parity⟩ := (liftX_ok_iff (.inr long)).mp lifted
  cases bytes with
  | nil => cases long
  | cons first rest =>
    have size : rest.length = 32 := by simpa using long
    have coordinate : xCoordinate (first :: rest) = bytesToNat rest := by
      rw [xCoordinate, if_pos long, List.tail_cons]
    have written : (Bytes.ofNat 32 p.x).data = rest := by
      rw [sameX, coordinate, ← size]
      exact natToBytes_bytesToNat rest
    rw [wantsOdd, long, List.head?_cons] at parity
    rw [serializePoint_data, written]
    cases known long with
    | inl head =>
      have same : first = 0x02 := by simpa using head
      have even : p.y % 2 = 0 := by simpa [same] using parity
      rw [if_pos even, same]
    | inr head =>
      have same : first = 0x03 := by simpa using head
      have odd : p.y % 2 = 1 := by simpa [same] using parity
      rw [if_neg (by omega), same]

/-- What is serialized is lifted to the same point. -/
theorem liftX_serializePoint (affine : OnCurve p) :
    Ecc.liftX (Ecc.serializePoint p).data = .ok p := by
  obtain ⟨lessX, lessY, root⟩ := affine
  have long : (Ecc.serializePoint p).data.length = 33 := (Ecc.serializePoint p).size
  have bound : p.x < 256 ^ 32 := lessX.trans (by simp [secp256k1P])
  have coordinate := xCoordinate_serializePoint bound
  rw [liftX_ok_iff (.inr long), coordinate]
  refine ⟨?_, rfl, lessY, root, ?_⟩
  · intro _
    rw [serializePoint_data, List.head?_cons]
    split
    · exact .inl rfl
    · exact .inr rfl
  · rw [wantsOdd, long, serializePoint_data, List.head?_cons]
    by_cases even : p.y % 2 = 0
    · simp [even]
    · have odd : p.y % 2 = 1 := by omega
      simp [odd]

/-! ## When decoding is canonical -/

/-- The bytes are lifted exactly if they encode a point in the one way there is; and what they
are lifted to is serialized to them, and nothing else is lifted to it. -/
structure CanonicalAt (bytes : List UInt8) : Prop where
  exact (p : Ecc.Point) : Ecc.liftX bytes = .ok p ↔
    WellPrefixed bytes ∧ xCoordinate bytes < secp256k1P ∧ OnCurve p ∧ p.x = xCoordinate bytes ∧
      (p.y % 2 == 1) = wantsOdd bytes
  back : bytes.length = 33 → ∀ p, Ecc.liftX bytes = .ok p → (Ecc.serializePoint p).data = bytes
  unique : bytes.length = 33 → ∀ p other q, other.length = 33 → Ecc.liftX bytes = .ok p →
    Ecc.liftX other = .ok q → SamePoint p q → other = bytes

/-- If the bytes hold the x-coordinate of a point, it is reduced, and in a compressed encoding the
field prime added to it does not fit. -/
def Unambiguous (bytes : List UInt8) : Prop :=
  WellPrefixed bytes → IsAbscissa (xCoordinate bytes) →
    xCoordinate bytes < secp256k1P ∧
      (bytes.length = 33 → 256 ^ 32 ≤ xCoordinate bytes + secp256k1P)

theorem exact_iff (length : bytes.length = 32 ∨ bytes.length = 33)
    (reduced : WellPrefixed bytes → IsAbscissa (xCoordinate bytes) → xCoordinate bytes < secp256k1P)
    (p : Ecc.Point) :
    Ecc.liftX bytes = .ok p ↔
      WellPrefixed bytes ∧ xCoordinate bytes < secp256k1P ∧ OnCurve p ∧ p.x = xCoordinate bytes ∧
        (p.y % 2 == 1) = wantsOdd bytes := by
  rw [liftX_ok_iff length, OnCurve]
  constructor
  · intro ⟨known, same, less, root, parity⟩
    have less' := reduced known ⟨p.y, root⟩
    rw [same]
    exact ⟨known, less', ⟨less', less, root⟩, rfl, parity⟩
  · intro ⟨known, _, ⟨_, less, root⟩, same, parity⟩
    rw [same] at root
    exact ⟨known, same, less, root, parity⟩

/-- The same coordinate with the field prime added to it. -/
theorem lifted_twice (long : bytes.length = 33) (lifted : Ecc.liftX bytes = .ok p)
    (room : xCoordinate bytes + secp256k1P < 256 ^ 32) :
    ∃ other q, other.length = 33 ∧ Ecc.liftX other = .ok q ∧ SamePoint p q ∧ other ≠ bytes := by
  obtain ⟨known, sameX, less, root, parity⟩ := (liftX_ok_iff (.inr long)).mp lifted
  let q : Ecc.Point := ⟨p.x + secp256k1P, p.y⟩
  have same : SamePoint p q := ⟨(Nat.add_mod_right _ _).symm, rfl⟩
  have size : (Ecc.serializePoint q).data.length = 33 := (Ecc.serializePoint q).size
  have coordinate : xCoordinate (Ecc.serializePoint q).data = xCoordinate bytes + secp256k1P := by
    rw [← sameX] at room ⊢
    exact xCoordinate_serializePoint room
  have heads : (Ecc.serializePoint q).data.head? = bytes.head? := by
    rw [← serializePoint_of_lifted long lifted, serializePoint_data, serializePoint_data,
      List.head?_cons, List.head?_cons]
  have cubes : ((xCoordinate bytes + secp256k1P) ^ 3 + 7) % secp256k1P =
      (xCoordinate bytes ^ 3 + 7) % secp256k1P := by
    have congruent : xCoordinate bytes + secp256k1P ≡ xCoordinate bytes [MOD secp256k1P] :=
      Nat.add_mod_right _ _
    exact (congruent.pow 3).add_right 7
  refine ⟨(Ecc.serializePoint q).data, q, size, ?_, same, ?_⟩
  · rw [liftX_ok_iff (.inr size), coordinate, cubes]
    refine ⟨?_, ?_, less, root, ?_⟩
    · rw [WellPrefixed, heads]
      exact fun _ => known long
    · rw [← sameX]
    · rw [wantsOdd, heads, size, parity, wantsOdd, long]
  · intro equal
    rw [equal] at coordinate
    have := secp256k1P_prime.pos
    omega

/-- Decoding is canonical exactly where the coordinate that the bytes hold has one encoding.  The
serialization of a point is always lifted to it. -/
theorem decoding_canonical_iff (length : bytes.length = 32 ∨ bytes.length = 33) :
    (∀ p, OnCurve p → Ecc.liftX (Ecc.serializePoint p).data = .ok p) ∧
      (CanonicalAt bytes ↔ Unambiguous bytes) := by
  refine ⟨fun p affine => liftX_serializePoint affine, ?_⟩
  constructor
  · intro canonical known abscissa
    obtain ⟨p, lifted⟩ := exists_lifted length known abscissa
    refine ⟨((canonical.exact p).mp lifted).2.1, fun long => ?_⟩
    by_contra room
    obtain ⟨other, q, size, lifted', same, different⟩ := lifted_twice long lifted (by omega)
    exact different (canonical.unique long p other q size lifted lifted' same)
  · intro clear
    refine ⟨?_, fun long p lifted => serializePoint_of_lifted long lifted, ?_⟩
    · exact exact_iff length fun known abscissa => (clear known abscissa).1
    · intro long p other q size lifted lifted' same
      obtain ⟨known, sameX, _⟩ := (liftX_ok_iff (.inr long)).mp lifted
      obtain ⟨_, sameX', _⟩ := (liftX_ok_iff (.inr size)).mp lifted'
      obtain ⟨reduced, tight⟩ := clear known (abscissa_of_lifted (.inr long) lifted)
      have tight := tight long
      -- The coordinates are congruent, and there is no room for two of them.
      have bound := xCoordinate_lt size
      have equal : p = q := by
        obtain ⟨congruent, sameY⟩ := same
        rw [sameX, sameX', Nat.mod_eq_of_lt reduced] at congruent
        have sum := Nat.mod_add_div (xCoordinate other) secp256k1P
        have none : xCoordinate other / secp256k1P = 0 := by
          by_contra some_
          have := Nat.le_mul_of_pos_right secp256k1P (Nat.pos_of_ne_zero some_)
          omega
        rw [none, mul_zero, add_zero, ← congruent, ← sameX, ← sameX'] at sum
        cases p
        cases q
        exact congrArg₂ Ecc.Point.mk sum sameY
      rw [← serializePoint_of_lifted long lifted, ← serializePoint_of_lifted size lifted', equal]

end Lift

/-! ## A curve of these points -/

/-- The points of a curve have these coordinates, and are all there are. -/
structure Coordinatized (Pt : Type) [AddCommGroup Pt] [Module Scalar Pt] [Curve Pt]
    (ordinate : Pt → Nat) : Prop where
  onCurve (P : Pt) : P ≠ 0 → OnCurve ⟨(Curve.affineX P).toNat, ordinate P⟩
  parity (P : Pt) : P ≠ 0 → Curve.yIsOdd P = (ordinate P % 2 == 1)
  complete (p : Ecc.Point) : OnCurve p →
    ∃ P : Pt, P ≠ 0 ∧ (Curve.affineX P).toNat = p.x ∧ ordinate P = p.y

section Refinement

variable {Pt : Type} [AddCommGroup Pt] [Module Scalar Pt] [Curve Pt] {ordinate : Pt → Nat}
variable {bytes : List UInt8}

theorem taproot_liftX_eq (length : bytes.length = 32 ∨ bytes.length = 33) :
    (Taproot.liftX bytes : Result (Taproot.Point Pt)) =
      if bytes.length = 33 ∧ bytes.head? ≠ some 0x02 ∧ bytes.head? ≠ some 0x03 then
        .error (.err .invalidPoint)
      else Taproot.liftCoordinate (xCoordinate bytes) (wantsOdd bytes) := by
  rw [Taproot.liftX, xCoordinate, wantsOdd]
  cases length with
  | inl short => simp [short]
  | inr long =>
    cases bytes with
    | nil => cases long
    | cons first rest =>
      have size : rest.length = 32 := by simpa using long
      by_cases two : first = 0x02
      · simp [size, two]
      by_cases three : first = 0x03
      · simp [size, three]
      · simp [size, two, three]

/-- The coordinate that is looked up is the one of the bytes modulo the field prime. -/
theorem root_mod (x y : Nat) :
    y * y % secp256k1P = ((x % secp256k1P) ^ 3 + 7) % secp256k1P ↔
      y * y % secp256k1P = (x ^ 3 + 7) % secp256k1P := by
  have congruent : x % secp256k1P ≡ x [MOD secp256k1P] := Nat.mod_mod _ _
  have cubes : ((x % secp256k1P) ^ 3 + 7) % secp256k1P = (x ^ 3 + 7) % secp256k1P :=
    (congruent.pow 3).add_right 7
  rw [cubes]

/-- On a curve with coordinates what is lifted to a point is lifted to its coordinates, and the
other way round. -/
theorem taproot_liftX_iff (coordinates : Coordinatized Pt ordinate)
    (length : bytes.length = 32 ∨ bytes.length = 33) (p : Ecc.Point) :
    (∃ P : Pt, Taproot.liftX bytes = .ok ⟨p.x, P⟩ ∧ ordinate P = p.y) ↔
      Ecc.liftX bytes = .ok p := by
  have bound : xCoordinate bytes % secp256k1P < 256 ^ 32 :=
    (Nat.mod_lt _ secp256k1P_prime.pos).trans (by simp [secp256k1P])
  rw [taproot_liftX_eq length, liftX_ok_iff length]
  -- A prefix that is neither 2 nor 3 is refused on both sides.
  by_cases unknown : bytes.length = 33 ∧ bytes.head? ≠ some 0x02 ∧ bytes.head? ≠ some 0x03
  · rw [if_pos unknown]
    constructor
    · rintro ⟨P, lifted, _⟩
      cases lifted
    · intro lifted
      exact absurd (lifted.1 unknown.1) (by tauto)
  rw [if_neg unknown, Taproot.liftCoordinate]
  have known : WellPrefixed bytes := by
    intro long
    tauto
  constructor
  · rintro ⟨P, lifted, sameY⟩
    cases found : (Curve.decompress (Bytes.ofNat 32 (xCoordinate bytes % secp256k1P))
        (wantsOdd bytes) : Option Pt) with
    | none =>
      rw [found] at lifted
      cases lifted
    | some Q =>
      rw [found] at lifted
      have same : (⟨xCoordinate bytes, Q⟩ : Taproot.Point Pt) = ⟨p.x, P⟩ := Except.ok.inj lifted
      obtain ⟨sameX, rfl⟩ := Taproot.Point.mk.inj same
      obtain ⟨nonzero, abscissa, parity⟩ := (Curve.decompress_eq_some _ _ _).mp found
      obtain ⟨_, less, root⟩ := coordinates.onCurve Q nonzero
      rw [abscissa, Bytes.toNat_ofNat bound] at root
      dsimp only at less root
      rw [sameY] at less root
      rw [coordinates.parity Q nonzero, sameY] at parity
      exact ⟨known, sameX.symm, less, (root_mod _ _).mp root, parity⟩
  · rintro ⟨_, sameX, less, root, parity⟩
    -- The coordinates are of the curve, so some point has them: it is the one that is decompressed.
    obtain ⟨P, nonzero, abscissa, sameY⟩ := coordinates.complete
      ⟨xCoordinate bytes % secp256k1P, p.y⟩
      ⟨Nat.mod_lt _ secp256k1P_prime.pos, less, (root_mod _ _).mpr root⟩
    have found : Curve.decompress (Bytes.ofNat 32 (xCoordinate bytes % secp256k1P))
        (wantsOdd bytes) = some P := by
      rw [Curve.decompress_eq_some, coordinates.parity P nonzero, sameY]
      refine ⟨nonzero, ?_, parity⟩
      rw [← Bytes.ofNat_toNat (Curve.affineX P), abscissa]
    refine ⟨P, ?_, sameY⟩
    rw [found, sameX]

end Refinement

/-! ## Two encodings of one point -/

/-- The compressed encoding of an x-coordinate with an even y. -/
def compressed (x : Nat) : List UInt8 := 0x02 :: (Bytes.ofNat 32 x).data

/-- The x-coordinate of the generator, for which the field prime added to it does not fit. -/
def generatorCoordinate : Nat := 0x79BE667EF9DCBBAC55A06295CE870B07029BFCDB2DCE28D959F2815B16F81798

/-- The generator has one encoding. -/
theorem decoding_canonical_generator : CanonicalAt (compressed generatorCoordinate) := by
  have long : (compressed generatorCoordinate).length = 33 := by simp [compressed]
  have coordinate : xCoordinate (compressed generatorCoordinate) = generatorCoordinate := by decide +kernel
  apply (decoding_canonical_iff (.inr long)).2.mpr
  intro _ _
  rw [coordinate]
  exact ⟨by decide +kernel, fun _ => by decide +kernel⟩

/-- The even y-coordinate of the points with the x-coordinate one. -/
def ordinateOfOne : Nat := 0x4218f20ae6c646b363db68605822fb14264ca8d2587fdd6fbc750d587e76a7ee

/-- The coordinate one and the field prime added to it are both lifted, to one point. -/
theorem lifted_out_of_range :
    Ecc.liftX (compressed 1) = .ok ⟨1, ordinateOfOne⟩ ∧
      Ecc.liftX (compressed (secp256k1P + 1)) = .ok ⟨secp256k1P + 1, ordinateOfOne⟩ ∧
      SamePoint ⟨1, ordinateOfOne⟩ ⟨secp256k1P + 1, ordinateOfOne⟩ ∧
      ¬ CanonicalAt (compressed (secp256k1P + 1)) := by
  have long : ∀ x, (compressed x).length = 33 := by simp [compressed]
  have coordinate : xCoordinate (compressed (secp256k1P + 1)) = secp256k1P + 1 := by decide +kernel
  have lifted : Ecc.liftX (compressed (secp256k1P + 1)) =
      .ok ⟨secp256k1P + 1, ordinateOfOne⟩ := by
    rw [liftX_ok_iff (.inr (long _)), coordinate]
    refine ⟨fun _ => .inl rfl, rfl, ?_⟩
    decide +kernel
  refine ⟨?_, lifted, ⟨by decide +kernel, rfl⟩, ?_⟩
  · have coordinate : xCoordinate (compressed 1) = 1 := by decide +kernel
    rw [liftX_ok_iff (.inr (long _)), coordinate]
    refine ⟨fun _ => .inl rfl, rfl, ?_⟩
    decide +kernel
  · intro canonical
    have less := ((canonical.exact _).mp lifted).2.1
    rw [coordinate] at less
    omega

end Pomade.Go
