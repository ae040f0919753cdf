import Mathlib.Algebra.Order.Group.Nat
import Mathlib.Data.List.Induction
import Mathlib.Tactic.Ring

/-! # Fixed-size byte strings

`Bytes n` is an array of exactly `n` bytes.  The length is a field, so a value of
the wrong size cannot be built and a conversion that could only fail on the
length returns an `Option`.  Numbers are written big-endian.
-/

namespace Pomade.Lib

structure Bytes (n : Nat) where
  data : List UInt8
  size : data.length = n
deriving DecidableEq

/-- The number a byte list denotes, most significant byte first. -/
def bytesToNat (bytes : List UInt8) : Nat :=
  bytes.foldl (fun value byte => value * 256 + byte.toNat) 0

/-- The low `n` bytes of a number, most significant byte first. -/
def natToBytes : Nat → Nat → List UInt8
  | 0, _ => []
  | n + 1, value => natToBytes n (value / 256) ++ [UInt8.ofNat value]

theorem natToBytes_length (n value : Nat) : (natToBytes n value).length = n := by
  induction n generalizing value with
  | zero => rfl
  | succ n ih => simp [natToBytes, ih]

theorem bytesToNat_append_singleton (bytes : List UInt8) (byte : UInt8) :
    bytesToNat (bytes ++ [byte]) = bytesToNat bytes * 256 + byte.toNat := by
  simp [bytesToNat]

/-- The first bytes are the high ones. -/
theorem bytesToNat_append (high low : List UInt8) :
    bytesToNat (high ++ low) = bytesToNat high * 256 ^ low.length + bytesToNat low := by
  induction low using List.reverseRecOn with
  | nil => simp [bytesToNat]
  | append_singleton low byte ih =>
    rw [← List.append_assoc, bytesToNat_append_singleton, ih, bytesToNat_append_singleton,
      List.length_append, List.length_singleton, pow_succ]
    ring

/-- Writing a number on `n` bytes and reading it back keeps it modulo `256 ^ n`. -/
theorem bytesToNat_natToBytes (n value : Nat) :
    bytesToNat (natToBytes n value) = value % 256 ^ n := by
  induction n generalizing value with
  | zero => simp [natToBytes, bytesToNat, Nat.mod_one]
  | succ n ih =>
    have byte : (UInt8.ofNat value).toNat = value % 256 := UInt8.toNat_ofNat'
    rw [natToBytes, bytesToNat_append_singleton, ih, byte, pow_succ', Nat.mod_mul]
    ring

theorem natToBytes_mod (n value : Nat) : natToBytes n (value % 256 ^ n) = natToBytes n value := by
  induction n generalizing value with
  | zero => rfl
  | succ n ih =>
    have high : value % 256 ^ (n + 1) / 256 = value / 256 % 256 ^ n := by
      rw [pow_succ', Nat.mod_mul_right_div_self]
    have low : UInt8.ofNat (value % 256 ^ (n + 1)) = UInt8.ofNat value := by
      apply UInt8.toNat_inj.mp
      rw [UInt8.toNat_ofNat', UInt8.toNat_ofNat', pow_succ']
      exact Nat.mod_mul_right_mod ..
    rw [natToBytes, high, ih, low]
    rfl

/-- What `n` bytes keep of a number. -/
theorem natToBytes_inj {n a b : Nat} :
    natToBytes n a = natToBytes n b ↔ a % 256 ^ n = b % 256 ^ n := by
  constructor
  · intro same
    rw [← bytesToNat_natToBytes, same, bytesToNat_natToBytes]
  · intro same
    rw [← natToBytes_mod, same, natToBytes_mod]

/-- Reading bytes as a number and writing it on as many bytes again. -/
theorem natToBytes_bytesToNat (bytes : List UInt8) :
    natToBytes bytes.length (bytesToNat bytes) = bytes := by
  induction bytes using List.reverseRecOn with
  | nil => rfl
  | append_singleton bytes byte ih =>
    have bound := byte.toNat_lt
    have high : (bytesToNat bytes * 256 + byte.toNat) / 256 = bytesToNat bytes := by omega
    have low : UInt8.ofNat (bytesToNat bytes * 256 + byte.toNat) = byte := by
      apply UInt8.toNat_inj.mp
      rw [UInt8.toNat_ofNat']
      omega
    rw [List.length_append, List.length_singleton, bytesToNat_append_singleton, natToBytes, high,
      low, ih]

namespace Bytes

variable {m n : Nat}

@[ext] theorem ext {a b : Bytes n} (h : a.data = b.data) : a = b := by
  cases a; cases b; cases h; rfl

def toNat (bytes : Bytes n) : Nat := bytesToNat bytes.data

def ofNat (n value : Nat) : Bytes n := ⟨natToBytes n value, natToBytes_length n value⟩

def ofList (n : Nat) (data : List UInt8) : Option (Bytes n) :=
  if h : data.length = n then some ⟨data, h⟩ else none

def append (a : Bytes m) (b : Bytes n) : Bytes (m + n) :=
  ⟨a.data ++ b.data, by rw [List.length_append, a.size, b.size]⟩

def cons (byte : UInt8) (bytes : Bytes n) : Bytes (n + 1) :=
  ⟨byte :: bytes.data, by rw [List.length_cons, bytes.size]⟩

def tail (bytes : Bytes (n + 1)) : Bytes n :=
  ⟨bytes.data.tail, by rw [List.length_tail, bytes.size]; rfl⟩

@[simp] theorem data_length (bytes : Bytes n) : bytes.data.length = n := bytes.size

@[simp] theorem ofList_data (bytes : Bytes n) : ofList n bytes.data = some bytes := by
  simp [ofList]

theorem ofList_eq_some {data : List UInt8} {bytes : Bytes n} :
    ofList n data = some bytes ↔ data = bytes.data := by
  constructor
  · intro h
    unfold ofList at h
    split at h
    · cases h; rfl
    · cases h
  · rintro rfl
    exact ofList_data bytes

@[simp] theorem tail_cons (byte : UInt8) (bytes : Bytes n) : (cons byte bytes).tail = bytes := rfl

@[simp] theorem data_cons (byte : UInt8) (bytes : Bytes n) :
    (cons byte bytes).data = byte :: bytes.data := rfl

theorem toNat_ofNat {value : Nat} (h : value < 256 ^ n) : (ofNat n value).toNat = value := by
  simp [toNat, ofNat, bytesToNat_natToBytes, Nat.mod_eq_of_lt h]

@[simp] theorem ofNat_toNat (bytes : Bytes n) : ofNat n bytes.toNat = bytes := by
  have written := natToBytes_bytesToNat bytes.data
  rw [bytes.size] at written
  exact ext written

end Bytes

end Pomade.Lib
