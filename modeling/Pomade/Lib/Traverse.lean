import Mathlib.Data.List.Forall2

/-! # Traversals that can fail

A traversal applies a function to the elements of a list in turn and stops at the first error.
One that got through has got through at each element, and what it returns is told element by
element.
-/

namespace Pomade.Lib

variable {α β γ ε : Type} {f : α → Except ε β} {l : List α} {out : List β}

/-- A traversal that succeeds has done so everywhere. -/
theorem mapM_eq_ok_iff : l.mapM f = .ok out ↔ List.Forall₂ (fun a b => f a = .ok b) l out := by
  induction l generalizing out with
  | nil =>
    rw [List.mapM_nil, List.forall₂_nil_left_iff]
    constructor
    · intro done
      cases done
      rfl
    · intro empty
      rw [empty]
      rfl
  | cons a l ih =>
    rw [List.mapM_cons, List.forall₂_cons_left_iff]
    cases first : f a with
    | error e =>
      constructor
      · intro done
        cases done
      · intro ⟨_, _, impossible, _⟩
        cases impossible
    | ok b =>
      cases rest : l.mapM f with
      | error e =>
        constructor
        · intro done
          cases done
        · intro ⟨_, _, _, later, _⟩
          rw [← ih, rest] at later
          cases later
      | ok bs =>
        constructor
        · intro done
          cases done
          exact ⟨b, bs, rfl, ih.mp rest, rfl⟩
        · intro ⟨_, _, same, later, whole⟩
          rw [← ih, rest] at later
          cases same
          cases later
          rw [whole]
          rfl

theorem mapM_ok {g : α → β} (each : ∀ a ∈ l, f a = .ok (g a)) : l.mapM f = .ok (l.map g) := by
  rw [mapM_eq_ok_iff, List.forall₂_map_right_iff, List.forall₂_same]
  exact each

theorem exists_mapM_ok (each : ∀ a ∈ l, ∃ b, f a = .ok b) : ∃ out, l.mapM f = .ok out := by
  induction l with
  | nil => exact ⟨[], rfl⟩
  | cons a l ih =>
    rw [List.forall_mem_cons] at each
    obtain ⟨⟨b, first⟩, later⟩ := each
    obtain ⟨bs, rest⟩ := ih later
    exact ⟨b :: bs, mapM_eq_ok_iff.mpr (.cons first (mapM_eq_ok_iff.mp rest))⟩

/-- A loop that got through got through each round. -/
theorem of_mapM_ok (done : l.mapM f = .ok out) : ∀ a ∈ l, ∃ b, f a = .ok b := by
  have all := mapM_eq_ok_iff.mp done
  clear done
  induction all with
  | nil => simp
  | cons first rest ih => exact List.forall_mem_cons.mpr ⟨⟨_, first⟩, ih⟩

theorem length_of_mapM_ok (done : l.mapM f = .ok out) : out.length = l.length :=
  (mapM_eq_ok_iff.mp done).length_eq.symm

theorem mem_of_mapM_ok (done : l.mapM f = .ok out) (b : β) : b ∈ out ↔ ∃ a ∈ l, f a = .ok b := by
  have all := mapM_eq_ok_iff.mp done
  clear done
  induction all with
  | nil => simp
  | @cons a b' l out first rest ih =>
    have here : b = b' ↔ f a = .ok b := by
      rw [first]
      exact ⟨fun same => same ▸ rfl, fun same => by cases same; rfl⟩
    rw [List.mem_cons, or_congr here ih]
    simp

/-- A fold that got through got through each round. -/
theorem of_foldlM_ok {step : β → α → Except ε β} {init last : β}
    (done : l.foldlM step init = .ok last) : ∀ a ∈ l, ∃ before after, step before a = .ok after := by
  induction l generalizing init with
  | nil => simp
  | cons a l ih =>
    rw [List.foldlM_cons] at done
    cases first : step init a with
    | error e =>
      rw [first] at done
      cases done
    | ok next =>
      rw [first] at done
      exact List.forall_mem_cons.mpr ⟨⟨init, next, first⟩, ih done⟩

/-- What every round keeps the whole loop keeps. -/
theorem map_of_mapM_ok {p : β → γ} {q : α → γ} (kept : ∀ a ∈ l, ∀ b, f a = .ok b → p b = q a)
    (done : l.mapM f = .ok out) : out.map p = l.map q := by
  have all := mapM_eq_ok_iff.mp done
  clear done
  induction all with
  | nil => rfl
  | cons first rest ih =>
    rw [List.forall_mem_cons] at kept
    rw [List.map_cons, List.map_cons, kept.1 _ first, ih kept.2]

end Pomade.Lib
