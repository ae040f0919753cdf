import Mathlib.Data.List.Nodup
import Mathlib.Data.List.Range
import Mathlib.Data.List.Sort

/-! # Keys and positions

A list of entries in the order of their keys, which are natural numbers.  The values alone stand
at the positions that their keys name if and only if no key is left out.
-/

namespace Pomade.Lib

variable {α : Type}

/-- An entry is found by its key if no other has it. -/
theorem find?_of_nodup {β : Type} [DecidableEq β] {key : α → β} {l : List α}
    (distinct : (l.map key).Nodup) {a : α} (member : a ∈ l) :
    l.find? (fun b => key b == key a) = some a := by
  cases found : l.find? fun b => key b == key a with
  | none =>
    have differs := List.find?_eq_none.mp found a member
    simp at differs
  | some b =>
    have same : key b = key a := by simpa using List.find?_some found
    rw [List.inj_on_of_nodup_map distinct (List.mem_of_find?_eq_some found) member same]

/-- If no two entries have the same key it does not matter in which order they are sorted. -/
theorem insertionSort_of_perm {β : Type} {key : α → β} {r : β → β → Prop} [DecidableRel r]
    [Std.Total r] [IsTrans β r] (antisymm : ∀ a b, r a b → r b a → a = b) {l l' : List α}
    (distinct : (l.map key).Nodup) (perm : l'.Perm l) :
    l'.insertionSort (fun a b => r (key a) (key b)) = l.insertionSort fun a b => r (key a) (key b) := by
  have : Std.Total fun a b : α => r (key a) (key b) := ⟨fun a b => Std.Total.total (key a) (key b)⟩
  have : IsTrans α fun a b => r (key a) (key b) := ⟨fun a b c => trans_of r⟩
  have sorted := fun l : List α => List.perm_insertionSort (fun a b => r (key a) (key b)) l
  refine List.Perm.eq_of_pairwise ?_ (List.pairwise_insertionSort _ _)
    (List.pairwise_insertionSort _ _) ((sorted l').trans (perm.trans (sorted l).symm))
  intro a b member member' less less'
  exact List.inj_on_of_nodup_map distinct (perm.subset ((sorted l').subset member))
    ((sorted l).subset member') (antisymm _ _ less less')

/-- The keys of the entries, in order and each once. -/
def Increasing (entries : List (Nat × α)) : Prop := entries.Pairwise fun a b => a.1 < b.1

/-- Below a key, every number is a key. -/
def Gapless (keys : List Nat) : Prop := ∀ i j, i < j → j ∈ keys → i ∈ keys

/-- Numbers in order, with nothing left out, count from 0. -/
theorem eq_range_of_gapless {keys : List Nat} (increasing : keys.Pairwise (· < ·))
    (gapless : Gapless keys) : keys = List.range keys.length := by
  induction keys using List.reverseRecOn with
  | nil => rfl
  | append_singleton keys key ih =>
    rw [List.pairwise_append] at increasing
    obtain ⟨before, _, below⟩ := increasing
    have last : ∀ i ∈ keys, i < key := fun i member => below i member key List.mem_cons_self
    -- The keys before the last are gapless too: the last one is above them all.
    have rest : Gapless keys := by
      intro i j less member
      have found := gapless i j less (List.mem_append_left _ member)
      cases List.mem_append.1 found with
      | inl found => exact found
      | inr found =>
        have same : i = key := by simpa using found
        have bound := last j member
        omega
    have range := ih before rest
    have size : key = keys.length := by
      by_contra other
      by_cases less : key < keys.length
      · -- A key that is below the length is among the first ones already.
        have member : key ∈ keys := by
          rw [range]
          exact List.mem_range.2 less
        exact absurd (last key member) (Nat.lt_irrefl _)
      · have more : keys.length < key := by omega
        have found := gapless keys.length key more (by simp)
        cases List.mem_append.1 found with
        | inl found =>
          rw [range] at found
          simp at found
        | inr found =>
          have same : keys.length = key := by simpa using found
          omega
    rw [List.length_append, List.length_singleton, List.range_succ, ← range, size]

theorem gapless_range (n : Nat) : Gapless (List.range n) := by
  intro i j less member
  rw [List.mem_range] at member ⊢
  omega

/-- Every value stands at its key. -/
def AtKeys (entries : List (Nat × α)) : Prop :=
  ∀ entry ∈ entries, (entries.map Prod.snd)[entry.1]? = some entry.2

theorem atKeys_of_range {entries : List (Nat × α)}
    (range : entries.map Prod.fst = List.range entries.length) : AtKeys entries := by
  intro entry member
  obtain ⟨i, bound, rfl⟩ := List.mem_iff_getElem.1 member
  have key : entries[i].1 = i := by
    have both := congrArg (fun keys : List Nat => keys[i]?) range
    simpa [bound] using both
  rw [key]
  simp [bound]

/-- If the values differ, they tell the positions, and so the keys. -/
theorem range_of_atKeys {entries : List (Nat × α)} (nodup : (entries.map Prod.snd).Nodup)
    (atKeys : AtKeys entries) : entries.map Prod.fst = List.range entries.length := by
  apply List.ext_getElem
  · simp
  intro i bound bound'
  rw [List.length_map] at bound
  have stands := atKeys entries[i] (List.getElem_mem bound)
  obtain ⟨size, value⟩ := List.getElem?_eq_some_iff.1 stands
  have position : i < (entries.map Prod.snd).length := by simpa using bound
  have same : (entries.map Prod.snd)[entries[i].1] = (entries.map Prod.snd)[i] := by
    rw [value, List.getElem_map]
  have index := (nodup.getElem_inj_iff).1 same
  simpa using index

theorem atKeys_iff {entries : List (Nat × α)} (increasing : Increasing entries)
    (nodup : (entries.map Prod.snd).Nodup) : AtKeys entries ↔ Gapless (entries.map Prod.fst) := by
  constructor
  · intro atKeys
    rw [range_of_atKeys nodup atKeys]
    exact gapless_range _
  · intro gapless
    have pairwise : (entries.map Prod.fst).Pairwise (· < ·) := List.pairwise_map.2 increasing
    have range := eq_range_of_gapless pairwise gapless
    rw [List.length_map] at range
    exact atKeys_of_range range

/-- Where no entry has a key, the values have ended. -/
theorem getElem?_of_gapless {entries : List (Nat × α)} (increasing : Increasing entries)
    (gapless : Gapless (entries.map Prod.fst)) {i : Nat} (missing : i ∉ entries.map Prod.fst) :
    (entries.map Prod.snd)[i]? = none := by
  have pairwise : (entries.map Prod.fst).Pairwise (· < ·) := List.pairwise_map.2 increasing
  have range := eq_range_of_gapless pairwise gapless
  rw [range, List.mem_range] at missing
  simpa using missing

end Pomade.Lib
