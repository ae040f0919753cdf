import Mathlib.Data.List.Lex
import Pomade.Lib.Table
import Pomade.Lib.Utf8

/-! # Maps in the order of their keys

A walk over a map whose keys are ranked visits every entry once, and its members determine it.
Texts and byte strings are ranked as lists of numbers, and a text ranks as its encoding does.
-/

namespace Pomade.Lib

section Ranked

variable {K V O : Type} [LinearOrder O]

/-- Walks along growing ranks that visit the same entries are the same. -/
theorem eq_of_ranked {rank : K → O} {l l' : List (K × V)}
    (ranked : l.Pairwise fun a b => rank a.1 < rank b.1)
    (ranked' : l'.Pairwise fun a b => rank a.1 < rank b.1) (same : ∀ entry, entry ∈ l ↔ entry ∈ l') :
    l = l' := by
  have nodup : ∀ {l : List (K × V)}, (l.Pairwise fun a b => rank a.1 < rank b.1) → l.Nodup :=
    fun ranked => ranked.imp fun less equal => by simp [equal] at less
  have perm : l.Perm l' := (List.perm_ext_iff_of_nodup (nodup ranked) (nodup ranked')).mpr same
  refine perm.eq_of_pairwise ?_ ranked ranked'
  intro a b _ _ less greater
  exact absurd (less.trans greater) (lt_irrefl _)

/-- All entries, ordered by `before` on the keys. -/
def sortedEntries (before : K → K → Bool) (t : AList fun _ : K => V) : List (K × V) :=
  (List.insertionSort (fun a b : Sigma fun _ : K => V => before a.1 b.1 = true)
    (AList.entries t)).map fun entry => (entry.1, entry.2)

theorem mem_sortedEntries [DecidableEq K] (before : K → K → Bool) (t : AList fun _ : K => V)
    (key : K) (value : V) :
    (key, value) ∈ sortedEntries before t ↔ t.lookup key = some value := by
  have found : t.lookup key = some value ↔ Sigma.mk key value ∈ AList.entries t :=
    AList.mem_lookup_iff
  rw [found, sortedEntries, List.mem_map]
  constructor
  · intro listed
    obtain ⟨entry, member, same⟩ := listed
    cases same
    exact (List.mem_insertionSort _).mp member
  · intro member
    exact ⟨⟨key, value⟩, (List.mem_insertionSort _).mpr member, rfl⟩

theorem keys_sortedEntries_nodup (before : K → K → Bool) (t : AList fun _ : K => V) :
    ((sortedEntries before t).map Prod.fst).Nodup := by
  rw [sortedEntries, List.map_map]
  have perm := (List.perm_insertionSort (fun a b : Sigma fun _ : K => V => before a.1 b.1 = true)
    (AList.entries t)).map Sigma.fst
  exact perm.nodup_iff.mpr t.nodupKeys

/-- A map is walked along growing ranks. -/
theorem sortedEntries_ranked {rank : K → O} (distinct : Function.Injective rank)
    {before : K → K → Bool} (ordered : ∀ a b, before a b = decide (rank a ≤ rank b))
    (t : AList fun _ : K => V) :
    (sortedEntries before t).Pairwise fun a b => rank a.1 < rank b.1 := by
  have total : Std.Total fun a b : Sigma fun _ : K => V => before a.1 b.1 = true :=
    ⟨fun a b => by simpa [ordered] using le_total (rank a.1) (rank b.1)⟩
  have trans : IsTrans (Sigma fun _ : K => V) fun a b => before a.1 b.1 = true :=
    ⟨fun a b c => by simpa [ordered] using le_trans⟩
  have sorted : (sortedEntries before t).Pairwise fun a b => rank a.1 ≤ rank b.1 := by
    rw [sortedEntries, List.pairwise_map]
    refine (List.pairwise_insertionSort _ _).imp ?_
    intro a b first
    rw [ordered] at first
    exact of_decide_eq_true first
  have differ : (sortedEntries before t).Pairwise fun a b => a.1 ≠ b.1 :=
    List.pairwise_map.mp (keys_sortedEntries_nodup before t)
  refine (sorted.and differ).imp ?_
  intro a b both
  exact lt_of_le_of_ne both.1 fun same => both.2 (distinct same)

/-- Every arrangement of the entries is the walk along some numbering of the keys. -/
theorem exists_rank [DecidableEq K] (t : AList fun _ : K => V) {l : List (K × V)}
    (keys : (l.map Prod.fst).Nodup)
    (same : ∀ key value, (key, value) ∈ l ↔ t.lookup key = some value) :
    ∃ rank : K → Nat, sortedEntries (fun a b => decide (rank a ≤ rank b)) t = l := by
  -- A key is numbered with its place in the arrangement.
  let rank : K → Nat := fun key => (l.map Prod.fst).idxOf key
  have places : l.Pairwise fun a b => rank a.1 < rank b.1 := by
    rw [List.pairwise_iff_getElem]
    intro i j first second less
    have place : ∀ {k : Nat} (inside : k < l.length), rank l[k].1 = k := by
      intro k inside
      have within : k < (l.map Prod.fst).length := by simpa using inside
      have here := keys.idxOf_getElem k within
      rwa [List.getElem_map] at here
    rw [place first, place second]
    exact less
  have sorted : (sortedEntries (fun a b => decide (rank a ≤ rank b)) t).Pairwise
      fun a b => rank a.1 ≤ rank b.1 := by
    have total : Std.Total fun a b : Sigma fun _ : K => V => decide (rank a.1 ≤ rank b.1) = true :=
      ⟨fun a b => by simpa using le_total (rank a.1) (rank b.1)⟩
    have trans : IsTrans (Sigma fun _ : K => V) fun a b => decide (rank a.1 ≤ rank b.1) = true :=
      ⟨fun a b c => by simpa using le_trans⟩
    rw [sortedEntries, List.pairwise_map]
    exact (List.pairwise_insertionSort _ _).imp of_decide_eq_true
  have listed : ∀ entry, entry ∈ sortedEntries (fun a b => decide (rank a ≤ rank b)) t ↔ entry ∈ l := by
    intro entry
    rw [mem_sortedEntries, same]
  have differ : (sortedEntries (fun a b => decide (rank a ≤ rank b)) t).Pairwise fun a b => a.1 ≠ b.1 :=
    List.pairwise_map.mp (keys_sortedEntries_nodup _ t)
  have increasing : (sortedEntries (fun a b => decide (rank a ≤ rank b)) t).Pairwise
      fun a b => rank a.1 < rank b.1 := by
    refine (List.Pairwise.and_mem.mp (sorted.and differ)).imp ?_
    intro a b both
    obtain ⟨first, _, le, ne⟩ := both
    refine lt_of_le_of_ne le fun equal => ne ?_
    have inside : a.1 ∈ l.map Prod.fst := List.mem_map_of_mem ((listed a).mp first)
    exact (List.idxOf_inj inside).mp equal
  exact ⟨rank, eq_of_ranked increasing places listed⟩

end Ranked

/-! ## Texts and byte strings -/

section Lex

variable {α : Type} [BEq α] [LawfulBEq α]

/-- What is compared number by number is compared as lists of numbers. -/
theorem lex_eq_decide {number : α → Nat} (distinct : Function.Injective number) (a b : List α) :
    List.lex a b (fun x y => Nat.blt (number x) (number y)) =
      decide (a.map number < b.map number) := by
  induction a generalizing b with
  | nil =>
    cases b with
    | nil => rfl
    | cons y b => simp
  | cons x a ih =>
    cases b with
    | nil => simp [List.lex]
    | cons y b =>
      have compared : List.map number (x :: a) < List.map number (y :: b) ↔
          number x < number y ∨ number x = number y ∧ a.map number < b.map number :=
        List.cons_lt_cons_iff
      rw [List.cons_lex_cons, ih, Bool.eq_iff_iff, decide_eq_true_iff, compared]
      simp [distinct.eq_iff]

end Lex

/-- The order of byte strings, byte by byte. -/
def bytesBefore (a b : List UInt8) : Bool := !List.lex b a fun x y => Nat.blt x.toNat y.toNat

/-- A byte string as a list of numbers. -/
def byteRank (bytes : List UInt8) : List Nat := bytes.map UInt8.toNat

theorem byteRank_injective : Function.Injective byteRank :=
  List.map_injective_iff.mpr fun _ _ => UInt8.toNat_inj.mp

theorem bytesBefore_eq (a b : List UInt8) : bytesBefore a b = decide (byteRank a ≤ byteRank b) := by
  rw [bytesBefore, lex_eq_decide fun _ _ => UInt8.toNat_inj.mp, ← decide_not, byteRank, byteRank]
  simp

/-- A text ranks as its encoding does. -/
theorem textBytes_rank (s t : Str) :
    byteRank (textBytes s) ≤ byteRank (textBytes t) ↔ s.map Char.toNat ≤ t.map Char.toNat := by
  have distinct : Function.Injective Char.toNat := fun _ _ same =>
    Char.ext (UInt32.toNat_inj.mp same)
  have same := lex_textBytes t s
  rw [lex_eq_decide fun _ _ => UInt8.toNat_inj.mp, lex_eq_decide distinct, decide_eq_decide] at same
  rw [← not_lt, ← not_lt, byteRank, byteRank, same]

end Pomade.Lib
