import Mathlib.Data.List.Nodup
import Mathlib.Data.List.Perm.Subperm
import Pomade.Lib.Hex

/-! # The prefixes of one-time passwords

`makeOTPPrefix` and the loop of `Client.requestChallenge` in `client.ts`.  Each peer gets the first
of the numbers drawn whose text is not taken.  There is nothing between the loops of two peers
that waits, so that one follows the other.
-/

namespace Pomade.Core

open Pomade.Lib

def padStart (length : Nat) (fill : Char) (text : Str) : Str :=
  List.replicate (length - text.length) fill ++ text

/-- The text of a number that `randomInt(0, 99)` has drawn. -/
def makeOTPPrefix (draw : Nat) : Str := padStart 2 '0' (Nat.toDigits 10 draw)

/-- The numbers that are drawn, from the first to the last of the two bounds of `randomInt`. -/
structure Draws where
  value : Nat → Nat
  bounded : ∀ i, value i ≤ 99

abbrev PeersByPrefix : Type := List (Str × Str)

def PeersByPrefix.has (peersByPrefix : PeersByPrefix) (otpPrefix : Str) : Bool :=
  peersByPrefix.any fun entry => entry.1 == otpPrefix

/-- Draws until the text is new, at most `fuel` times.  The position in the stream is kept. -/
def choosePrefix (draws : Draws) (peersByPrefix : PeersByPrefix) :
    (fuel position : Nat) → Option (Str × Nat)
  | 0, _ => none
  | fuel + 1, position =>
    let otpPrefix := makeOTPPrefix (draws.value position)
    if peersByPrefix.has otpPrefix then choosePrefix draws peersByPrefix fuel (position + 1)
    else some (otpPrefix, position + 1)

def assignPrefixes (draws : Draws) (fuel : Nat) :
    (peers : List Str) → (position : Nat) → PeersByPrefix → Option PeersByPrefix
  | [], _, peersByPrefix => some peersByPrefix
  | url :: peers, position, peersByPrefix =>
    match choosePrefix draws peersByPrefix fuel position with
    | none => none
    | some (otpPrefix, position) =>
      assignPrefixes draws fuel peers position (peersByPrefix ++ [(otpPrefix, url)])

/-- The prefixes of `requestChallenge`, if the loops end within `fuel` draws each. -/
def requestPrefixes (draws : Draws) (fuel : Nat) (peers : List Str) : Option PeersByPrefix :=
  assignPrefixes draws fuel peers 0 []

/-! ## What is wanted -/

/-- Every number from 0 to 99 is drawn again and again. -/
def Draws.Fair (draws : Draws) : Prop := ∀ v ≤ 99, ∀ n, ∃ m ≥ n, draws.value m = v

def TwoDigits (text : Str) : Prop := text.length = 2 ∧ ∀ c ∈ text, c.isDigit = true

instance (text : Str) : Decidable (TwoDigits text) :=
  decidable_of_iff (text.length = 2 ∧ text.all Char.isDigit = true) (by rw [List.all_eq_true]; rfl)

/-- Every peer has a prefix of two digits, and no two have the same. -/
structure Distinct (peers : List Str) (peersByPrefix : PeersByPrefix) : Prop where
  peers : peersByPrefix.map Prod.snd = peers
  nodup : (peersByPrefix.map Prod.fst).Nodup
  digits : ∀ otpPrefix ∈ peersByPrefix.map Prod.fst, TwoDigits otpPrefix

/-- The loops end, and the prefixes are as they should be. -/
def Finishes (draws : Draws) (peers : List Str) : Prop :=
  ∃ fuel peersByPrefix, requestPrefixes draws fuel peers = some peersByPrefix ∧
    Distinct peers peersByPrefix

/-! ## The hundred texts -/

def otpPrefixes : List Str := (List.range 100).map makeOTPPrefix

theorem nodup_otpPrefixes : otpPrefixes.Nodup := by decide +kernel

theorem twoDigits_of_mem : ∀ otpPrefix ∈ otpPrefixes, TwoDigits otpPrefix := by decide +kernel

theorem makeOTPPrefix_mem (draws : Draws) (i : Nat) :
    makeOTPPrefix (draws.value i) ∈ otpPrefixes :=
  List.mem_map.mpr ⟨_, List.mem_range.mpr (Nat.lt_succ_of_le (draws.bounded i)), rfl⟩

/-- While fewer than a hundred are taken, one of the numbers has a new text. -/
theorem exists_unused {used : List Str} (few : used.length < 100) :
    ∃ v ≤ 99, makeOTPPrefix v ∉ used := by
  by_contra none_
  have all : otpPrefixes ⊆ used := by
    intro otpPrefix member
    obtain ⟨v, bound, rfl⟩ := List.mem_map.mp member
    by_contra unused
    exact none_ ⟨v, Nat.le_of_lt_succ (List.mem_range.mp bound), unused⟩
  have long := (nodup_otpPrefixes.subperm all).length_le
  rw [otpPrefixes, List.length_map, List.length_range] at long
  omega

section Loops

variable {draws : Draws} {peersByPrefix : PeersByPrefix}

theorem has_iff {otpPrefix : Str} :
    peersByPrefix.has otpPrefix = true ↔ otpPrefix ∈ peersByPrefix.map Prod.fst := by
  simp [PeersByPrefix.has]

/-- A text that is chosen is new. -/
theorem choosePrefix_new {fuel position next : Nat} {otpPrefix : Str}
    (chosen : choosePrefix draws peersByPrefix fuel position = some (otpPrefix, next)) :
    otpPrefix ∉ peersByPrefix.map Prod.fst ∧ otpPrefix ∈ otpPrefixes := by
  induction fuel generalizing position with
  | zero => cases chosen
  | succ fuel ih =>
    rw [choosePrefix] at chosen
    split at chosen
    · exact ih chosen
    next unused =>
      cases chosen
      rw [has_iff] at unused
      exact ⟨unused, makeOTPPrefix_mem draws position⟩

/-- If a new text is drawn at some time, the loop ends by then, whatever fuel is left. -/
theorem choosePrefix_ends {m position : Nat} (later : position ≤ m)
    (unused : makeOTPPrefix (draws.value m) ∉ peersByPrefix.map Prod.fst) :
    ∃ chosen, ∀ fuel > m - position, choosePrefix draws peersByPrefix fuel position = some chosen := by
  induction rest : m - position generalizing position with
  | zero =>
    have here : position = m := by omega
    subst here
    refine ⟨(makeOTPPrefix (draws.value position), position + 1), fun fuel enough => ?_⟩
    obtain ⟨fuel, rfl⟩ := Nat.exists_eq_succ_of_ne_zero (Nat.ne_of_gt enough)
    rw [← has_iff] at unused
    rw [choosePrefix, if_neg unused]
  | succ count ih =>
    by_cases used : peersByPrefix.has (makeOTPPrefix (draws.value position)) = true
    · obtain ⟨chosen, ends⟩ := ih (show position + 1 ≤ m by omega) (by omega)
      refine ⟨chosen, fun fuel enough => ?_⟩
      obtain ⟨fuel, rfl⟩ := Nat.exists_eq_succ_of_ne_zero (Nat.ne_of_gt (Nat.zero_lt_of_lt enough))
      rw [choosePrefix, if_pos used]
      exact ends fuel (by omega)
    · refine ⟨(makeOTPPrefix (draws.value position), position + 1), fun fuel enough => ?_⟩
      obtain ⟨fuel, rfl⟩ := Nat.exists_eq_succ_of_ne_zero (Nat.ne_of_gt (Nat.zero_lt_of_lt enough))
      rw [choosePrefix, if_neg used]

/-- The prefixes that are assigned so far. -/
structure Assigned (peersByPrefix : PeersByPrefix) : Prop where
  nodup : (peersByPrefix.map Prod.fst).Nodup
  among : ∀ otpPrefix ∈ peersByPrefix.map Prod.fst, otpPrefix ∈ otpPrefixes

theorem Assigned.bound (assigned : Assigned peersByPrefix) : peersByPrefix.length ≤ 100 := by
  have short := (assigned.nodup.subperm assigned.among).length_le
  rwa [List.length_map, otpPrefixes, List.length_map, List.length_range] at short

theorem Assigned.snoc (assigned : Assigned peersByPrefix) {otpPrefix : Str} (url : Str)
    (new : otpPrefix ∉ peersByPrefix.map Prod.fst ∧ otpPrefix ∈ otpPrefixes) :
    Assigned (peersByPrefix ++ [(otpPrefix, url)]) := by
  constructor
  · rw [List.map_append]
    exact assigned.nodup.append (List.nodup_singleton _) (by simpa using new.1)
  · intro otpPrefix' member
    rw [List.map_append] at member
    obtain earlier | now := List.mem_append.mp member
    · exact assigned.among _ earlier
    · rw [List.mem_singleton.mp now]
      exact new.2

/-- What the loops leave, if they end. -/
theorem assignPrefixes_assigned {fuel position : Nat} {peers : List Str} {result : PeersByPrefix}
    (assigned : Assigned peersByPrefix)
    (done : assignPrefixes draws fuel peers position peersByPrefix = some result) :
    Assigned result ∧ result.map Prod.snd = peersByPrefix.map Prod.snd ++ peers := by
  induction peers generalizing position peersByPrefix with
  | nil =>
    cases done
    exact ⟨assigned, (List.append_nil _).symm⟩
  | cons url peers ih =>
    rw [assignPrefixes] at done
    split at done
    · cases done
    next otpPrefix next chosen =>
      obtain ⟨assigned', urls⟩ := ih (assigned.snoc url (choosePrefix_new chosen)) done
      refine ⟨assigned', ?_⟩
      rw [urls, List.map_append, List.append_assoc]
      rfl

/-- The loops end while there are texts left. -/
theorem assignPrefixes_ends (fair : draws.Fair) {position : Nat} {peers : List Str}
    (assigned : Assigned peersByPrefix) (few : peersByPrefix.length + peers.length ≤ 100) :
    ∃ bound result, ∀ fuel ≥ bound,
      assignPrefixes draws fuel peers position peersByPrefix = some result := by
  induction peers generalizing position peersByPrefix with
  | nil => exact ⟨0, peersByPrefix, fun _ _ => rfl⟩
  | cons url peers ih =>
    rw [List.length_cons] at few
    have room : (peersByPrefix.map Prod.fst).length < 100 := by
      rw [List.length_map]
      omega
    obtain ⟨v, bound, unused⟩ := exists_unused room
    obtain ⟨m, later, rfl⟩ := fair v bound position
    obtain ⟨⟨otpPrefix, next⟩, chosen⟩ := choosePrefix_ends later unused
    have new := choosePrefix_new (chosen _ (Nat.lt_succ_self _))
    obtain ⟨bound', result, ends⟩ := ih (assigned.snoc url new)
      (by rw [List.length_append, List.length_singleton]; omega)
    refine ⟨max (m - position + 1) bound', result, fun fuel enough => ?_⟩
    rw [assignPrefixes, chosen fuel (by omega)]
    exact ends fuel (by omega)

end Loops

theorem length_of_finishes {draws : Draws} {peers : List Str} (finishes : Finishes draws peers) :
    peers.length ≤ 100 := by
  obtain ⟨fuel, result, done, distinct⟩ := finishes
  have start : Assigned [] := ⟨List.nodup_nil, nofun⟩
  have bound := (assignPrefixes_assigned start done).1.bound
  rwa [← distinct.peers, List.length_map]

/-- If every number is drawn again and again, the prefixes are assigned, and are distinct, exactly
if there are at most a hundred peers. -/
theorem prefixes_finish_iff {draws : Draws} (fair : draws.Fair) (peers : List Str) :
    Finishes draws peers ↔ peers.length ≤ 100 := by
  refine ⟨length_of_finishes, fun few => ?_⟩
  have start : Assigned [] := ⟨List.nodup_nil, nofun⟩
  obtain ⟨bound, result, ends⟩ := assignPrefixes_ends fair start
    (show ([] : PeersByPrefix).length + peers.length ≤ 100 by simpa using few)
  obtain ⟨assigned, urls⟩ := assignPrefixes_assigned start (ends bound (Nat.le_refl _))
  refine ⟨bound, result, ends bound (Nat.le_refl _), urls, assigned.nodup, ?_⟩
  exact fun otpPrefix member => twoDigits_of_mem _ (assigned.among _ member)

/-- The numbers from 0 to 99 in turn. -/
def cyclic : Draws where
  value i := i % 100
  bounded i := Nat.le_of_lt_succ (Nat.mod_lt i (by decide))

theorem cyclic_fair : cyclic.Fair := by
  intro v bound n
  refine ⟨100 * n + v, by omega, ?_⟩
  show (100 * n + v) % 100 = v
  omega

theorem prefixes_of_two : Finishes cyclic [['a'], ['b']] ↔ [['a'], ['b']].length ≤ 100 :=
  prefixes_finish_iff cyclic_fair [['a'], ['b']]

/-- With a hundred and one peers the last loop never ends. -/
theorem prefixes_run_out : cyclic.Fair ∧ ¬ Finishes cyclic (List.replicate 101 ['u']) := by
  refine ⟨cyclic_fair, fun finishes => ?_⟩
  have short := length_of_finishes finishes
  rw [List.length_replicate] at short
  omega

end Pomade.Core
