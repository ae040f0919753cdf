import Pomade.Lib.Hex

/-! # Texts as bytes

A text is encoded in UTF-8 character by character.  `byteText` is the text whose characters
are these bytes: what a program sees that has byte strings where another has texts.  On
texts of hexadecimal digits the two are the same.
-/

namespace Pomade.Lib

/-! ## The encoder -/

theorem toList_loop (bytes : ByteArray) (i : Nat) (r : List UInt8) :
    ByteArray.toList.loop bytes i r = r.reverse ++ bytes.data.toList.drop i := by
  fun_induction ByteArray.toList.loop bytes i r with
  | case1 i r inside ih =>
    have size : i < bytes.data.toList.length := by simpa using inside
    have byte : bytes.get! i = bytes.data.toList[i] := by simp [ByteArray.get!, inside]
    rw [ih, List.reverse_cons, List.append_assoc, List.drop_eq_getElem_cons size, byte]
    rfl
  | case2 i r outside =>
    have size : bytes.data.toList.length ≤ i := by simpa using outside
    rw [List.drop_eq_nil_of_le size, List.append_nil]

theorem toList_eq_data (bytes : ByteArray) : bytes.toList = bytes.data.toList := by
  rw [ByteArray.toList, toList_loop, List.drop_zero, List.reverse_nil, List.nil_append]

theorem toUTF8_ofList (s : Str) :
    (String.ofList s).toUTF8.toList = s.flatMap String.utf8EncodeChar := by
  rw [toList_eq_data]
  exact List.toList_data_toByteArray

/-- Texts with the same encoding are the same. -/
theorem toUTF8_ofList_injective :
    Function.Injective fun s : Str => (String.ofList s).toUTF8.toList := by
  intro s t same
  dsimp only at same
  rw [toList_eq_data, toList_eq_data, Array.toList_inj] at same
  have bytes : (String.ofList s).toUTF8 = (String.ofList t).toUTF8 := ByteArray.ext same
  exact String.ofList_injective (String.toByteArray_inj.mp bytes)

theorem utf8EncodeChar_ascii {c : Char} (ascii : c.toNat < 128) :
    String.utf8EncodeChar c = [UInt8.ofNat c.toNat] := by
  have small : c.val.toNat ≤ 127 := Nat.le_of_lt_succ ascii
  simp only [String.utf8EncodeChar, small, if_true]
  rfl

/-- A character that is not ASCII has no ASCII byte first. -/
theorem utf8EncodeChar_high {c : Char} (high : 128 ≤ c.toNat) :
    ∃ byte ∈ String.utf8EncodeChar c, 128 ≤ byte.toNat := by
  have large : ¬ c.val.toNat ≤ 127 := by
    have : c.val.toNat = c.toNat := rfl
    omega
  simp only [String.utf8EncodeChar, large, if_false]
  split
  · refine ⟨_, List.mem_cons_self, ?_⟩
    rw [UInt8.toNat_ofNat']
    omega
  · split
    · refine ⟨_, List.mem_cons_self, ?_⟩
      rw [UInt8.toNat_ofNat']
      omega
    · refine ⟨_, List.mem_cons_self, ?_⟩
      rw [UInt8.toNat_ofNat']
      omega

/-- The bytes of a text, one character each. -/
def byteText (s : Str) : Str :=
  (s.flatMap String.utf8EncodeChar).map fun byte => Char.ofNat byte.toNat

theorem toNat_byteChar (byte : UInt8) : (Char.ofNat byte.toNat).toNat = byte.toNat := by
  have valid : byte.toNat.isValidChar := .inl (Nat.lt_trans byte.toNat_lt (by decide))
  rw [Char.ofNat, dif_pos valid]
  rfl

/-- The bytes of the bytes of a text are its encoding. -/
theorem map_byteText (s : Str) :
    (byteText s).map (fun c => UInt8.ofNat c.toNat) = s.flatMap String.utf8EncodeChar := by
  rw [byteText, List.map_map]
  refine (List.map_congr_left ?_).trans (List.map_id _)
  intro byte _
  rw [Function.comp_apply, toNat_byteChar, UInt8.ofNat_toNat, id]

/-! ## Digits -/

theorem byteText_ascii {s : Str} (ascii : ∀ c ∈ s, c.toNat < 128) : byteText s = s := by
  induction s with
  | nil => rfl
  | cons c s ih =>
    rw [List.forall_mem_cons] at ascii
    have rest := ih ascii.2
    have same : Char.ofNat (UInt8.ofNat c.toNat).toNat = c := by
      rw [UInt8.toNat_ofNat', Nat.mod_eq_of_lt (by omega), Char.ofNat_toNat]
    rw [byteText, List.flatMap_cons, utf8EncodeChar_ascii ascii.1, List.map_append]
    rw [byteText] at rest
    rw [rest, List.map_singleton, same]
    rfl

theorem byteText_high {s : Str} (high : ∃ c ∈ s, 128 ≤ c.toNat) : ∃ c ∈ byteText s, 128 ≤ c.toNat := by
  obtain ⟨c, member, large⟩ := high
  obtain ⟨byte, inside, first⟩ := utf8EncodeChar_high large
  refine ⟨Char.ofNat byte.toNat, ?_, by rwa [toNat_byteChar]⟩
  exact List.mem_map_of_mem (List.mem_flatMap.mpr ⟨c, member, inside⟩)

/-- Either all characters are ASCII, or one is not. -/
theorem ascii_or_high (s : Str) : (∀ c ∈ s, c.toNat < 128) ∨ ∃ c ∈ s, 128 ≤ c.toNat := by
  by_cases high : ∃ c ∈ s, 128 ≤ c.toNat
  · exact .inr high
  · refine .inl fun c member => ?_
    by_contra large
    exact high ⟨c, member, Nat.le_of_not_lt large⟩

theorem hexValue_high {c : Char} (high : 128 ≤ c.toNat) : hexValue c = none := by
  rw [hexValue, if_neg (by omega), if_neg (by omega), if_neg (by omega)]

theorem hexDecode_high {s : Str} (high : ∃ c ∈ s, 128 ≤ c.toNat) : hexDecode s = none := by
  fun_induction hexDecode s with
  | case1 => simp at high
  | case2 => rfl
  | case3 first second rest ih =>
    obtain ⟨c, member, large⟩ := high
    rcases List.mem_cons.mp member with rfl | member
    · rw [hexValue_high large]
      rfl
    · rcases List.mem_cons.mp member with rfl | member
      · rw [hexValue_high large]
        cases hexValue first <;> rfl
      · rw [ih ⟨c, member, large⟩]
        cases hexValue first with
        | none => rfl
        | some h => cases hexValue second <;> rfl

/-- A text and its bytes denote the same bytes in hexadecimal. -/
theorem hexDecode_byteText (s : Str) : hexDecode (byteText s) = hexDecode s := by
  rcases ascii_or_high s with ascii | high
  · rw [byteText_ascii ascii]
  · rw [hexDecode_high high, hexDecode_high (byteText_high high)]

theorem isLowerHexDigit_ascii {c : Char} (lower : isLowerHexDigit c = true) : c.toNat < 128 := by
  rw [isLowerHexDigit, decide_eq_true_iff] at lower
  omega

/-- What is written in hexadecimal is equal to the bytes of a text only if it is the text. -/
theorem hexEncode_eq_byteText {bytes : List UInt8} {s : Str} :
    hexEncode bytes = byteText s ↔ hexEncode bytes = s := by
  rcases ascii_or_high s with ascii | high
  · rw [byteText_ascii ascii]
  · have none_ : ∀ t : Str, (∃ c ∈ t, 128 ≤ c.toNat) → hexEncode bytes ≠ t := by
      rintro t ⟨c, member, large⟩ rfl
      have small := isLowerHexDigit_ascii (hexEncode_lower bytes c member)
      omega
    exact iff_of_false (none_ _ (byteText_high high)) (none_ _ high)

/-! ## Decoding and order -/

/-- The bytes of a text, `str::as_bytes`. -/
def textBytes (s : Str) : List UInt8 := s.flatMap String.utf8EncodeChar

/-- `String::from_utf8`. -/
def fromUtf8 (bytes : List UInt8) : Option Str :=
  bytes.toByteArray.utf8Decode?.map Array.toList

@[simp] theorem fromUtf8_textBytes (s : Str) : fromUtf8 (textBytes s) = some s := by
  have bytes : (textBytes s).toByteArray = s.utf8Encode := rfl
  rw [fromUtf8, bytes, List.utf8Decode?_utf8Encode]
  rfl

theorem textBytes_injective : Function.Injective textBytes := by
  intro s t same
  have decoded := congrArg fromUtf8 same
  rwa [fromUtf8_textBytes, fromUtf8_textBytes, Option.some_inj] at decoded

/-- At the first byte in which the two differ, the first one has the smaller. -/
def Smaller (x y : List UInt8) : Prop :=
  ∃ common u v r s, x = common ++ u :: r ∧ y = common ++ v :: s ∧ u.toNat < v.toNat

theorem Smaller.first {a b : Nat} {r s : List UInt8} (less : a < b) (byte : b < 256) :
    Smaller (UInt8.ofNat a :: r) (UInt8.ofNat b :: s) := by
  refine ⟨[], UInt8.ofNat a, UInt8.ofNat b, r, s, rfl, rfl, ?_⟩
  rw [UInt8.toNat_ofNat', UInt8.toNat_ofNat', Nat.mod_eq_of_lt byte]
  omega

theorem Smaller.next {a b m n : Nat} {x y : List UInt8} (same : a = b) (offset : m = n)
    (smaller : Smaller x y) : Smaller (UInt8.ofNat (a + m) :: x) (UInt8.ofNat (b + n) :: y) := by
  obtain ⟨common, u, v, r, s, left, right, less⟩ := smaller
  exact ⟨UInt8.ofNat (a + m) :: common, u, v, r, s, by rw [left]; rfl, by rw [right, same, offset]; rfl,
    less⟩

theorem char_lt (c : Char) : c.val.toNat < 0x110000 := by
  cases c.valid with
  | inl low => have : c.val.toNat < 0xd800 := low; omega
  | inr high => exact high.2

/-- The encodings of two characters differ as the characters do. -/
theorem smaller_utf8EncodeChar {c d : Char} (less : c.toNat < d.toNat) :
    Smaller (String.utf8EncodeChar c) (String.utf8EncodeChar d) := by
  have less : c.val.toNat < d.val.toNat := less
  have bound := char_lt d
  unfold String.utf8EncodeChar
  dsimp only
  -- The longer the encoding, the larger its first byte.
  split
  · split
    · exact .first (by omega) (by omega)
    split
    · exact .first (by omega) (by omega)
    split
    · exact .first (by omega) (by omega)
    · exact .first (by omega) (by omega)
  split
  · split
    · omega
    split
    · by_cases top : c.val.toNat / 64 % 32 = d.val.toNat / 64 % 32
      · exact .next top rfl (.first (by omega) (by omega))
      · exact .first (by omega) (by omega)
    split
    · exact .first (by omega) (by omega)
    · exact .first (by omega) (by omega)
  split
  · split
    · omega
    split
    · omega
    split
    · by_cases top : c.val.toNat / 4096 % 16 = d.val.toNat / 4096 % 16
      · refine .next top rfl ?_
        by_cases middle : c.val.toNat / 64 % 64 = d.val.toNat / 64 % 64
        · exact .next middle rfl (.first (by omega) (by omega))
        · exact .first (by omega) (by omega)
      · exact .first (by omega) (by omega)
    · exact .first (by omega) (by omega)
  · split
    · omega
    split
    · omega
    split
    · omega
    · by_cases top : c.val.toNat / 262144 % 8 = d.val.toNat / 262144 % 8
      · refine .next top rfl ?_
        by_cases high : c.val.toNat / 4096 % 64 = d.val.toNat / 4096 % 64
        · refine .next high rfl ?_
          by_cases low : c.val.toNat / 64 % 64 = d.val.toNat / 64 % 64
          · exact .next low rfl (.first (by omega) (by omega))
          · exact .first (by omega) (by omega)
        · exact .first (by omega) (by omega)
      · exact .first (by omega) (by omega)

theorem blt_of_le {m n : Nat} (above : m ≤ n) : Nat.blt n m = false := by
  rw [Bool.eq_false_iff, ne_eq, Nat.blt_eq]
  omega

section Lex

variable {α : Type} [BEq α] [LawfulBEq α] {less : α → α → Bool}

variable (less) in
theorem lex_append_left (irreflexive : ∀ x, less x x = false) (common a b : List α) :
    List.lex (common ++ a) (common ++ b) less = List.lex a b less := by
  induction common with
  | nil => rfl
  | cons x common ih => simp [irreflexive, ih]

theorem lex_smaller {x y : List UInt8} (smaller : Smaller x y) (a b : List UInt8) :
    List.lex (x ++ a) (y ++ b) (fun x y => Nat.blt x.toNat y.toNat) = true ∧
      List.lex (y ++ b) (x ++ a) (fun x y => Nat.blt x.toNat y.toNat) = false := by
  obtain ⟨common, u, v, r, s, left, right, less⟩ := smaller
  have differ : v ≠ u := by
    intro same
    rw [same] at less
    omega
  have irreflexive : ∀ x : UInt8, Nat.blt x.toNat x.toNat = false := fun x => blt_of_le le_rfl
  rw [left, right, List.append_assoc, List.append_assoc]
  constructor
  · rw [lex_append_left _ irreflexive]
    simp [less]
  · rw [lex_append_left _ irreflexive]
    simp [differ, blt_of_le less.le]

end Lex

theorem textBytes_cons (c : Char) (s : Str) : textBytes (c :: s) = String.utf8EncodeChar c ++ textBytes s := by
  rw [textBytes, textBytes, List.flatMap_cons]

theorem exists_utf8EncodeChar (c : Char) : ∃ u r, String.utf8EncodeChar c = u :: r := by
  unfold String.utf8EncodeChar
  dsimp only
  split
  · exact ⟨_, _, rfl⟩
  split
  · exact ⟨_, _, rfl⟩
  split
  · exact ⟨_, _, rfl⟩
  · exact ⟨_, _, rfl⟩

/-- Texts are ordered as their encodings are. -/
theorem lex_textBytes (s t : Str) :
    List.lex (textBytes s) (textBytes t) (fun x y => Nat.blt x.toNat y.toNat) =
      List.lex s t fun x y => Nat.blt x.toNat y.toNat := by
  induction s generalizing t with
  | nil =>
    cases t with
    | nil => rfl
    | cons d t =>
      obtain ⟨u, r, encoded⟩ := exists_utf8EncodeChar d
      rw [textBytes_cons, encoded]
      rfl
  | cons c s ih =>
    cases t with
    | nil =>
      obtain ⟨u, r, encoded⟩ := exists_utf8EncodeChar c
      rw [textBytes_cons, encoded]
      rfl
    | cons d t =>
      rw [textBytes_cons, textBytes_cons, List.cons_lex_cons]
      cases Nat.lt_trichotomy c.toNat d.toNat with
      | inl below =>
        rw [(lex_smaller (smaller_utf8EncodeChar below) _ _).1]
        simp [below]
      | inr rest =>
        cases rest with
        | inl same =>
          have same : c = d := Char.ext (UInt32.toNat_inj.mp same)
          have common := lex_append_left (fun x y : UInt8 => Nat.blt x.toNat y.toNat)
            (fun _ => blt_of_le le_rfl) (String.utf8EncodeChar d) (textBytes s) (textBytes t)
          rw [same, common, ih]
          simp [blt_of_le]
        | inr above =>
          have differ : c ≠ d := by
            intro same
            rw [same] at above
            omega
          rw [(lex_smaller (smaller_utf8EncodeChar above) _ _).2]
          simp [differ, blt_of_le above.le]

end Pomade.Lib
