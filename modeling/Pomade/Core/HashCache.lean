import Mathlib.Logic.Encodable.Basic
import Mathlib.Logic.Equiv.List
import Pomade.Lib.Hex
import Pomade.Lib.Memo

/-! # The cache of email hashes

`hashEmail` of `util.ts`.  It is awaited, so that calls and changes of `context.argonOptions` may
come between a call and its hash.  The key of the cache is the email followed by the url.
-/

namespace Pomade.Core

open Pomade.Lib

/-! ## Strings -/

/-- A string of JavaScript, in its code units. -/
abbrev JsString : Type := List UInt16

def isHighSurrogate (unit : UInt16) : Bool := 0xd800 ≤ unit && unit < 0xdc00

def isLowSurrogate (unit : UInt16) : Bool := 0xdc00 ≤ unit && unit < 0xe000

/-- A code unit that stands alone; a surrogate is replaced. -/
def loneUnit (unit : UInt16) : Char :=
  if isHighSurrogate unit || isLowSurrogate unit then '\uFFFD' else Char.ofNat unit.toNat

def surrogatePair (high low : UInt16) : Char :=
  Char.ofNat (0x10000 + (high.toNat - 0xd800) * 0x400 + (low.toNat - 0xdc00))

def scalarValues : JsString → List Char
  | [] => []
  | [unit] => [loneUnit unit]
  | high :: low :: rest =>
    if isHighSurrogate high && isLowSurrogate low then surrogatePair high low :: scalarValues rest
    else loneUnit high :: scalarValues (low :: rest)

/-- `textEncoder.encode` -/
def encode (s : JsString) : List UInt8 := (scalarValues s).flatMap String.utf8EncodeChar

/-! ## Calls -/

structure ArgonOptions where
  t : Nat
  m : Nat
  p : Nat
deriving DecidableEq

abbrev ArgonImpl : Type := (value salt : List UInt8) → ArgonOptions → List UInt8

/-- A call of `hashEmail`, with the options that were in force when it was made. -/
structure HashCall where
  email : JsString
  signerUrl : JsString
  argonOptions : ArgonOptions
deriving DecidableEq

def HashCall.key (c : HashCall) : JsString := c.email ++ c.signerUrl

section HashCache

variable (argonImpl : ArgonImpl)

def HashCall.hash (c : HashCall) : Str :=
  hexEncode (argonImpl (encode c.email) (encode c.signerUrl) c.argonOptions)

/-- `if (!hash)` is taken for an empty hash too. -/
def usable (hash : Str) : Bool := !hash.isEmpty

/-! ## Runs -/

structure HashState where
  argonOptions : ArgonOptions
  emailHashCache : Memo HashCall JsString Str

def HashState.start : HashState :=
  { argonOptions := { t := 3, m := 64 * 1024, p := 2 }, emailHashCache := Memo.start }

inductive HashEvent where
  /-- `context.argonOptions` is assigned. -/
  | configure (argonOptions : ArgonOptions)
  | hashEmail (email signerUrl : JsString)
  /-- The hash that a call waits for is there. -/
  | resolve (i : Nat)
  | reject (i : Nat)

/-- What an event is to the cache. -/
def HashEvent.memo (argonOptions : ArgonOptions) : HashEvent → Option (Memo.Event HashCall)
  | .configure _ => none
  | .hashEmail email signerUrl => some (.call { email, signerUrl, argonOptions })
  | .resolve i => some (.resolve i)
  | .reject i => some (.reject i)

def HashState.step (s : HashState) (e : HashEvent) : HashState where
  argonOptions :=
    match e with
    | .configure argonOptions => argonOptions
    | _ => s.argonOptions
  emailHashCache :=
    match e.memo s.argonOptions with
    | some event => s.emailHashCache.step HashCall.key (HashCall.hash argonImpl) usable event
    | none => s.emailHashCache

def HashState.run (s : HashState) (events : List HashEvent) : HashState :=
  events.foldl (HashState.step argonImpl) s

/-- Every call has returned the hash of its own email and url under its own options. -/
def HashState.Correct (s : HashState) : Prop :=
  ∀ result ∈ s.emailHashCache.returned, result.2 = result.1.hash argonImpl

/-- What the implementation is given for two calls is the same. -/
def HashCall.Same (c c' : HashCall) : Prop :=
  encode c.email = encode c'.email ∧ encode c.signerUrl = encode c'.signerUrl ∧
    c.argonOptions = c'.argonOptions

instance (c c' : HashCall) : Decidable (c.Same c') := inferInstanceAs (Decidable (_ ∧ _))

/-- The last call that came to its end among those with the same email and url written together
had the same email, the same url and the options now in force. -/
def HashState.Unambiguous (s : HashState) : HashEvent → Prop
  | .hashEmail email signerUrl =>
    ∀ earlier, s.emailHashCache.last HashCall.key (email ++ signerUrl) = some earlier →
      earlier.Same { email, signerUrl, argonOptions := s.argonOptions }
  | _ => True

/-- Every step of a run from `s` meets the condition. -/
def HashState.AllUnambiguous (s : HashState) : List HashEvent → Prop
  | [] => True
  | e :: events => s.Unambiguous e ∧ (s.step argonImpl e).AllUnambiguous events

/-- The implementation has no collisions, and returns something. -/
structure CollisionFree : Prop where
  injective (value value' salt salt' : List UInt8) (options options' : ArgonOptions) :
    argonImpl value salt options = argonImpl value' salt' options' →
      value = value' ∧ salt = salt' ∧ options = options'
  nonempty (value salt : List UInt8) (options : ArgonOptions) : argonImpl value salt options ≠ []

/-! ## Hashes -/

variable {argonImpl}

theorem HashCall.Same.hash_eq {c c' : HashCall} (same : c.Same c') :
    c.hash argonImpl = c'.hash argonImpl := by
  obtain ⟨email, signerUrl, options⟩ := same
  rw [HashCall.hash, email, signerUrl, options, HashCall.hash]

theorem HashCall.same_of_hash_eq (free : CollisionFree argonImpl) {c c' : HashCall}
    (equal : c.hash argonImpl = c'.hash argonImpl) : c.Same c' :=
  free.injective _ _ _ _ _ _ (hexEncode_injective equal)

theorem HashCall.usable_hash (free : CollisionFree argonImpl) (c : HashCall) :
    usable (c.hash argonImpl) = true := by
  have nonempty := free.nonempty (encode c.email) (encode c.signerUrl) c.argonOptions
  have length := hexEncode_length (argonImpl (encode c.email) (encode c.signerUrl) c.argonOptions)
  cases hash : c.hash argonImpl with
  | cons => rfl
  | nil =>
    rw [HashCall.hash] at hash
    rw [hash] at length
    have empty : argonImpl (encode c.email) (encode c.signerUrl) c.argonOptions = [] := by
      simpa using length
    exact absurd empty nonempty

/-! ## Steps -/

/-- The invariant: an entry is the hash of the call that wrote it. -/
def HashState.Filled (argonImpl : ArgonImpl) (s : HashState) : Prop :=
  s.emailHashCache.Filled HashCall.key (HashCall.hash argonImpl)

theorem HashState.filled_start : HashState.start.Filled argonImpl :=
  Memo.filled_start HashCall.key (HashCall.hash argonImpl)

theorem HashState.filled_step {s : HashState} (filled : s.Filled argonImpl) (e : HashEvent) :
    (s.step argonImpl e).Filled argonImpl := by
  cases e with
  | configure argonOptions => exact filled
  | hashEmail email signerUrl => exact Memo.filled_step usable filled _
  | resolve i => exact Memo.filled_step usable filled _
  | reject i => exact Memo.filled_step usable filled (.reject i)

theorem HashState.correct_step {s : HashState} (filled : s.Filled argonImpl)
    (correct : s.Correct argonImpl) {e : HashEvent} (unambiguous : s.Unambiguous e) :
    (s.step argonImpl e).Correct argonImpl := by
  cases e with
  | configure argonOptions => exact correct
  | resolve i => exact (Memo.correct_step usable filled (.resolve i)).2 ⟨correct, trivial⟩
  | reject i => exact (Memo.correct_step usable filled (.reject i)).2 ⟨correct, trivial⟩
  | hashEmail email signerUrl =>
    refine (Memo.correct_step usable filled (.call _)).2 ⟨correct, fun earlier last _ => ?_⟩
    exact (unambiguous earlier last).hash_eq

/-- A step after which all hashes are right started from such a state and met the condition. -/
theorem HashState.unambiguous_of_correct (free : CollisionFree argonImpl) {s : HashState}
    (filled : s.Filled argonImpl) {e : HashEvent} (correct : (s.step argonImpl e).Correct argonImpl) :
    s.Correct argonImpl ∧ s.Unambiguous e := by
  cases e with
  | configure argonOptions => exact ⟨correct, trivial⟩
  | resolve i => exact ⟨((Memo.correct_step usable filled (.resolve i)).1 correct).1, trivial⟩
  | reject i => exact ⟨((Memo.correct_step usable filled (.reject i)).1 correct).1, trivial⟩
  | hashEmail email signerUrl =>
    obtain ⟨before, safe⟩ := (Memo.correct_step usable filled (.call _)).1 correct
    refine ⟨before, fun earlier last => ?_⟩
    exact HashCall.same_of_hash_eq free (safe earlier last (earlier.usable_hash free))

/-! ## Runs -/

theorem HashState.correct_run {s : HashState} (filled : s.Filled argonImpl)
    (correct : s.Correct argonImpl) {events : List HashEvent}
    (unambiguous : s.AllUnambiguous argonImpl events) :
    (s.run argonImpl events).Correct argonImpl := by
  induction events generalizing s with
  | nil => exact correct
  | cons e events ih =>
    exact ih (filled_step filled e) (correct_step filled correct unambiguous.1) unambiguous.2

theorem HashState.unambiguous_of_run (free : CollisionFree argonImpl) {s : HashState}
    (filled : s.Filled argonImpl) {events : List HashEvent}
    (correct : (s.run argonImpl events).Correct argonImpl) :
    s.Correct argonImpl ∧ s.AllUnambiguous argonImpl events := by
  induction events generalizing s with
  | nil => exact ⟨correct, trivial⟩
  | cons e events ih =>
    obtain ⟨after, rest⟩ := ih (filled_step filled e) correct
    obtain ⟨before, first⟩ := unambiguous_of_correct free filled after
    exact ⟨before, first, rest⟩

variable (argonImpl) in
/-- Exactly then, if the implementation has no collisions. -/
theorem cached_hashes_correct_iff (events : List HashEvent) :
    (HashState.start.AllUnambiguous argonImpl events →
      (HashState.start.run argonImpl events).Correct argonImpl) ∧
    (CollisionFree argonImpl → (HashState.start.run argonImpl events).Correct argonImpl →
      HashState.start.AllUnambiguous argonImpl events) := by
  constructor
  · intro unambiguous
    exact HashState.correct_run HashState.filled_start (fun _ none => nomatch none) unambiguous
  · intro free correct
    exact (HashState.unambiguous_of_run free HashState.filled_start correct).2

end HashCache

def units (s : String) : JsString := s.toList.map fun c => c.toNat.toUInt16

/-- The options are changed between two calls for one email and one url. -/
def changedOptions : List HashEvent :=
  [.hashEmail (units "a@b.c") (units "https://s"), .resolve 0,
    .configure { t := 4, m := 64 * 1024, p := 2 },
    .hashEmail (units "a@b.c") (units "https://s")]

/-- An implementation without collisions: what it was given as a number of bytes. -/
def countingArgon : ArgonImpl := fun value salt options =>
  List.replicate (Encodable.encode
    (value.map UInt8.toNat, salt.map UInt8.toNat, options.t, options.m, options.p) + 1) 0

theorem countingArgon_collisionFree : CollisionFree countingArgon where
  injective value value' salt salt' options options' equal := by
    have length := congrArg List.length equal
    simp only [countingArgon, List.length_replicate, Nat.add_right_cancel_iff,
      Encodable.encode_inj, Prod.mk.injEq] at length
    obtain ⟨values, salts, t, m, p⟩ := length
    have toNat := List.map_injective_iff.2 fun a b : UInt8 => UInt8.toNat_inj.1
    refine ⟨toNat values, toNat salts, ?_⟩
    cases options
    cases options'
    simp_all
  nonempty value salt options empty := by simp [countingArgon] at empty

theorem cached_hashes_correct_iff_counting :
    HashState.start.AllUnambiguous countingArgon changedOptions ↔
      (HashState.start.run countingArgon changedOptions).Correct countingArgon :=
  ⟨(cached_hashes_correct_iff countingArgon _).1,
    (cached_hashes_correct_iff countingArgon _).2 countingArgon_collisionFree⟩

/-! ## Ambiguous calls -/

/-- An implementation for an example, that writes down what it was given. -/
def plainArgon : ArgonImpl := fun value salt options =>
  value ++ 0 :: salt ++ [options.t.toUInt8, options.p.toUInt8]

/-- The second email and the second url are the first ones cut at another place. -/
def movedBorder : List HashEvent :=
  [.hashEmail (units "a@b.co") (units "s"), .resolve 0, .hashEmail (units "a@b.c") (units "os")]

theorem cached_hashes_wrong :
    ¬ (HashState.start.run plainArgon changedOptions).Correct plainArgon ∧
      ¬ (HashState.start.run plainArgon movedBorder).Correct plainArgon := by
  constructor
  · intro correct
    have last := correct _ List.mem_cons_self
    revert last
    decide
  · intro correct
    have last := correct _ List.mem_cons_self
    revert last
    decide

end Pomade.Core
