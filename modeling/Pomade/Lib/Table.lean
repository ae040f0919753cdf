import Mathlib.Data.List.AList
import Mathlib.Data.List.Sort
import Pomade.Lib.Hex

/-! # Keyed collections

A collection of a store maps keys to values, each key at most once.  It is
Mathlib's `AList` under the words of the storage interface: `get`, `set`,
`delete` and `entries`.
-/

namespace Pomade.Lib

abbrev Table (V : Type) : Type := AList fun _ : Str => V

namespace Table

variable {V : Type}

def get (t : Table V) (key : Str) : Option V := t.lookup key

def set (t : Table V) (key : Str) (value : V) : Table V := t.insert key value

def delete (t : Table V) (key : Str) : Table V := t.erase key

/-- All entries, ordered by `before` on the keys. -/
def entries (before : Str → Str → Bool) (t : Table V) : List (Str × V) :=
  (List.insertionSort (fun a b : Sigma fun _ : Str => V => before a.1 b.1 = true)
    (AList.entries t)).map fun entry => (entry.1, entry.2)

@[simp] theorem get_empty (key : Str) : get (∅ : Table V) key = none := AList.lookup_empty key

theorem get_set (t : Table V) (key key' : Str) (value : V) :
    (t.set key value).get key' = if key' = key then some value else t.get key' := by
  by_cases same : key' = key
  · subst same
    rw [if_pos rfl]
    exact AList.lookup_insert t
  · rw [if_neg same]
    exact AList.lookup_insert_ne same

@[simp] theorem get_set_self (t : Table V) (key : Str) (value : V) :
    (t.set key value).get key = some value := by rw [get_set, if_pos rfl]

theorem get_set_ne {t : Table V} {key key' : Str} {value : V} (other : key' ≠ key) :
    (t.set key value).get key' = t.get key' := by rw [get_set, if_neg other]

theorem get_delete (t : Table V) (key key' : Str) :
    (t.delete key).get key' = if key' = key then none else t.get key' := by
  by_cases same : key' = key
  · subst same
    rw [if_pos rfl]
    exact AList.lookup_erase key' t
  · rw [if_neg same]
    exact AList.lookup_erase_ne same

@[simp] theorem get_delete_self (t : Table V) (key : Str) : (t.delete key).get key = none := by
  rw [get_delete, if_pos rfl]

theorem get_delete_ne {t : Table V} {key key' : Str} (other : key' ≠ key) :
    (t.delete key).get key' = t.get key' := by rw [get_delete, if_neg other]

theorem mem_entries (before : Str → Str → Bool) (t : Table V) (key : Str) (value : V) :
    (key, value) ∈ t.entries before ↔ t.get key = some value := by
  have found : t.get key = some value ↔ Sigma.mk key value ∈ AList.entries t :=
    AList.mem_lookup_iff
  rw [found, entries, List.mem_map]
  constructor
  · rintro ⟨entry, member, same⟩
    cases same
    exact (List.mem_insertionSort _).mp member
  · intro member
    exact ⟨⟨key, value⟩, (List.mem_insertionSort _).mpr member, rfl⟩

end Table

end Pomade.Lib
