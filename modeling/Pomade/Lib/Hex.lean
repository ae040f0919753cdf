import Mathlib.Tactic.IntervalCases
import Pomade.Lib.Bytes

/-! # Texts and hexadecimal

A text is the list of its characters.  `hexEncode` writes lower-case digits;
`hexDecode` reads either case and refuses an odd number of digits.
-/

namespace Pomade.Lib

abbrev Str : Type := List Char

/-- Under a name of its own, so that a membership test on texts needs no other proof. -/
instance lawfulBEqStr : LawfulBEq Str := inferInstance

def hexDigit (value : Nat) : Char :=
  Char.ofNat (if value < 10 then value + 48 else value + 87)

def hexValue (c : Char) : Option Nat :=
  if 48 ≤ c.toNat ∧ c.toNat ≤ 57 then some (c.toNat - 48)
  else if 97 ≤ c.toNat ∧ c.toNat ≤ 102 then some (c.toNat - 87)
  else if 65 ≤ c.toNat ∧ c.toNat ≤ 70 then some (c.toNat - 55)
  else none

def hexEncode (bytes : List UInt8) : Str :=
  bytes.flatMap fun byte => [hexDigit (byte.toNat / 16), hexDigit (byte.toNat % 16)]

def hexDecode : Str → Option (List UInt8)
  | [] => some []
  | [_] => none
  | high :: low :: rest => do
    let h ← hexValue high
    let l ← hexValue low
    let bytes ← hexDecode rest
    return UInt8.ofNat (16 * h + l) :: bytes

/-- `char::is_ascii_hexdigit`. -/
def isHexDigit (c : Char) : Bool := (hexValue c).isSome

/-- The lower-case digits, `[0-9a-f]`. -/
def isLowerHexDigit (c : Char) : Bool :=
  decide (48 ≤ c.toNat ∧ c.toNat ≤ 57 ∨ 97 ≤ c.toNat ∧ c.toNat ≤ 102)

theorem hexValue_hexDigit {value : Nat} (digit : value < 16) :
    hexValue (hexDigit value) = some value := by
  interval_cases value <;> rfl

theorem isLowerHexDigit_hexDigit {value : Nat} (digit : value < 16) :
    isLowerHexDigit (hexDigit value) = true := by
  interval_cases value <;> rfl

theorem isHexDigit_hexDigit {value : Nat} (digit : value < 16) :
    isHexDigit (hexDigit value) = true := by
  rw [isHexDigit, hexValue_hexDigit digit]
  rfl

theorem hexEncode_length (bytes : List UInt8) : (hexEncode bytes).length = 2 * bytes.length := by
  induction bytes with
  | nil => rfl
  | cons byte bytes ih =>
    simp only [hexEncode, List.flatMap_cons, List.length_append, List.length_cons,
      List.length_nil] at ih ⊢
    omega

theorem hexEncode_lower (bytes : List UInt8) :
    ∀ c ∈ hexEncode bytes, isLowerHexDigit c = true := by
  intro c member
  simp only [hexEncode, List.mem_flatMap, List.mem_cons, List.not_mem_nil, or_false] at member
  obtain ⟨byte, _, rfl | rfl⟩ := member
  · exact isLowerHexDigit_hexDigit (by have := byte.toNat_lt; omega)
  · exact isLowerHexDigit_hexDigit (by omega)

/-- Writing bytes in hexadecimal and reading them back. -/
@[simp] theorem hexDecode_hexEncode (bytes : List UInt8) :
    hexDecode (hexEncode bytes) = some bytes := by
  induction bytes with
  | nil => rfl
  | cons byte bytes ih =>
    have high : hexValue (hexDigit (byte.toNat / 16)) = some (byte.toNat / 16) :=
      hexValue_hexDigit (by have := byte.toNat_lt; omega)
    have low : hexValue (hexDigit (byte.toNat % 16)) = some (byte.toNat % 16) :=
      hexValue_hexDigit (by omega)
    have both : UInt8.ofNat (16 * (byte.toNat / 16) + byte.toNat % 16) = byte := by
      rw [Nat.div_add_mod, UInt8.ofNat_toNat]
    have step : hexEncode (byte :: bytes) =
        hexDigit (byte.toNat / 16) :: hexDigit (byte.toNat % 16) :: hexEncode bytes := rfl
    simp only [step, hexDecode, high, low, ih, Option.pure_def, Option.bind_eq_bind,
      Option.bind_some, both]

theorem hexDigit_hexValue {c : Char} {value : Nat} (lower : isLowerHexDigit c = true)
    (read : hexValue c = some value) : hexDigit value = c ∧ value < 16 := by
  have same : ∀ n, n = c.toNat → Char.ofNat n = c := by
    rintro n rfl
    exact Char.ofNat_toNat c
  rw [isLowerHexDigit, decide_eq_true_iff] at lower
  rw [hexValue] at read
  rw [hexDigit]
  split at read
  next digit =>
    cases read
    rw [if_pos (by omega)]
    exact ⟨same _ (by omega), by omega⟩
  next other =>
    rw [if_pos (by omega)] at read
    cases read
    rw [if_neg (by omega)]
    exact ⟨same _ (by omega), by omega⟩

/-- What is spelled in lower case is what its bytes are written as. -/
theorem hexEncode_of_hexDecode {s : Str} {bytes : List UInt8}
    (lower : ∀ c ∈ s, isLowerHexDigit c = true) (decoded : hexDecode s = some bytes) :
    hexEncode bytes = s := by
  induction s using hexDecode.induct generalizing bytes with
  | case1 =>
    cases decoded
    rfl
  | case2 c => cases decoded
  | case3 high low rest ih =>
    rw [List.forall_mem_cons, List.forall_mem_cons] at lower
    simp only [hexDecode, Option.pure_def, Option.bind_eq_bind, Option.bind_eq_some_iff,
      Option.some.injEq] at decoded
    obtain ⟨h, readHigh, l, readLow, others, decodedRest, rfl⟩ := decoded
    obtain ⟨digitHigh, small⟩ := hexDigit_hexValue lower.1 readHigh
    obtain ⟨digitLow, small'⟩ := hexDigit_hexValue lower.2.1 readLow
    have value : (UInt8.ofNat (16 * h + l)).toNat = 16 * h + l := by
      rw [UInt8.toNat_ofNat']
      omega
    have step : hexEncode (UInt8.ofNat (16 * h + l) :: others) =
        hexDigit ((UInt8.ofNat (16 * h + l)).toNat / 16) ::
          hexDigit ((UInt8.ofNat (16 * h + l)).toNat % 16) :: hexEncode others := rfl
    have upper : (16 * h + l) / 16 = h := by omega
    have lower' : (16 * h + l) % 16 = l := by omega
    rw [step, value, upper, lower', digitHigh, digitLow, ih lower.2.2 decodedRest]

theorem hexEncode_injective : Function.Injective hexEncode := by
  intro a b h
  have := congrArg hexDecode h
  simpa using this

/-- A text of digits denotes half as many bytes. -/
theorem hexDecode_digits {s : Str} (even : s.length % 2 = 0) (digits : s.all isHexDigit = true) :
    ∃ bytes, hexDecode s = some bytes ∧ 2 * bytes.length = s.length := by
  fun_induction hexDecode s with
  | case1 => exact ⟨[], rfl, rfl⟩
  | case2 => simp at even
  | case3 high low rest ih =>
    simp only [List.all_cons, Bool.and_eq_true, isHexDigit] at digits
    obtain ⟨h, first⟩ := Option.isSome_iff_exists.mp digits.1
    obtain ⟨l, second⟩ := Option.isSome_iff_exists.mp digits.2.1
    rw [List.length_cons, List.length_cons] at even
    obtain ⟨bytes, decoded, size⟩ := ih (by omega) digits.2.2
    refine ⟨UInt8.ofNat (16 * h + l) :: bytes, ?_, ?_⟩
    · rw [first, second, decoded]
      rfl
    · rw [List.length_cons, List.length_cons, List.length_cons]
      omega

/-! ## Letter case -/

/-- `to_ascii_lowercase`. -/
def lowerCase (s : Str) : Str := s.map Char.toLower

/-- A digit in lower case has the same value, and is one of the digits that are written. -/
theorem hexValue_toLower {c : Char} (digit : isHexDigit c = true) :
    hexValue c.toLower = hexValue c ∧ isLowerHexDigit c.toLower = true := by
  have range : 48 ≤ c.toNat ∧ c.toNat ≤ 57 ∨ 97 ≤ c.toNat ∧ c.toNat ≤ 102 ∨
      65 ≤ c.toNat ∧ c.toNat ≤ 70 := by
    by_contra outside
    simp only [not_or] at outside
    simp [isHexDigit, hexValue, outside] at digit
  rw [← Char.ofNat_toNat c]
  generalize c.toNat = n at range
  obtain ⟨low, high⟩ | ⟨low, high⟩ | ⟨low, high⟩ := range <;> interval_cases n <;> decide

theorem isHexDigit_of_hexDecode {s : Str} {bytes : List UInt8} (decoded : hexDecode s = some bytes) :
    ∀ c ∈ s, isHexDigit c = true := by
  induction s using hexDecode.induct generalizing bytes with
  | case1 => exact nofun
  | case2 c => cases decoded
  | case3 high low rest ih =>
    simp only [hexDecode, Option.pure_def, Option.bind_eq_bind, Option.bind_eq_some_iff,
      Option.some.injEq] at decoded
    obtain ⟨h, readHigh, l, readLow, others, decodedRest, _⟩ := decoded
    rw [List.forall_mem_cons, List.forall_mem_cons]
    exact ⟨by rw [isHexDigit, readHigh]; rfl, by rw [isHexDigit, readLow]; rfl, ih decodedRest⟩

theorem hexDecode_lowerCase {s : Str} (digits : ∀ c ∈ s, isHexDigit c = true) :
    hexDecode (lowerCase s) = hexDecode s := by
  induction s using hexDecode.induct with
  | case1 => rfl
  | case2 c => rfl
  | case3 high low rest ih =>
    rw [List.forall_mem_cons, List.forall_mem_cons] at digits
    have rest' : hexDecode (rest.map Char.toLower) = hexDecode rest := ih digits.2.2
    simp only [lowerCase, List.map_cons, hexDecode, (hexValue_toLower digits.1).1,
      (hexValue_toLower digits.2.1).1, rest']

/-- The bytes of a text are written as the text in lower case. -/
theorem hexEncode_lowerCase {s : Str} {bytes : List UInt8} (decoded : hexDecode s = some bytes) :
    hexEncode bytes = lowerCase s := by
  have digits := isHexDigit_of_hexDecode decoded
  apply hexEncode_of_hexDecode
  · intro c member
    obtain ⟨c', member', rfl⟩ := List.mem_map.mp member
    exact (hexValue_toLower (digits c' member')).2
  · rw [hexDecode_lowerCase digits, decoded]

end Pomade.Lib
