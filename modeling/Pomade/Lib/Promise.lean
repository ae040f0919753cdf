import Mathlib.Logic.Function.Basic

/-! # Promises

A heap of promises and the queue of jobs that run one after the other.  A promise that is
pending keeps its reactions; settling it makes a job of each, in order, and a reaction to a
promise that is settled is a job at once.  What a job does is the program's business.
-/

namespace Pomade.Lib

/-- A promise that reactions `ρ` wait for, with the outcome `ω`. -/
inductive Promise (ρ ω : Type*) where
  | pending (reactions : List ρ)
  | settled (outcome : ω)

/-- A reaction with the outcome it waited for, or another task `τ`. -/
inductive Job (ρ τ ω : Type*) where
  | react (reaction : ρ) (outcome : ω)
  | task (task : τ)

structure Heap (ι ρ τ ω : Type*) where
  promise : ι → Promise ρ ω
  jobs : List (Job ρ τ ω)

namespace Heap

variable {ι ρ τ ω : Type*} [DecidableEq ι]

/-- Let a reaction wait for a promise. -/
def await (h : Heap ι ρ τ ω) (i : ι) (reaction : ρ) : Heap ι ρ τ ω :=
  match h.promise i with
  | .pending reactions =>
    { h with promise := Function.update h.promise i (.pending (reactions ++ [reaction])) }
  | .settled outcome => { h with jobs := h.jobs ++ [.react reaction outcome] }

/-- Settle a promise, unless it is settled. -/
def settle (h : Heap ι ρ τ ω) (i : ι) (outcome : ω) : Heap ι ρ τ ω :=
  match h.promise i with
  | .pending reactions =>
    { promise := Function.update h.promise i (.settled outcome)
      jobs := h.jobs ++ reactions.map fun reaction => .react reaction outcome }
  | .settled _ => h

def enqueue (h : Heap ι ρ τ ω) (task : τ) : Heap ι ρ τ ω :=
  { h with jobs := h.jobs ++ [.task task] }

variable {h : Heap ι ρ τ ω} {i : ι} {outcome : ω} {reactions : List ρ}

theorem await_pending (pending : h.promise i = .pending reactions) (reaction : ρ) :
    h.await i reaction =
      ⟨Function.update h.promise i (.pending (reactions ++ [reaction])), h.jobs⟩ := by
  rw [await, pending]

theorem await_settled (settled : h.promise i = .settled outcome) (reaction : ρ) :
    h.await i reaction = ⟨h.promise, h.jobs ++ [.react reaction outcome]⟩ := by
  rw [await, settled]

theorem settle_pending (pending : h.promise i = .pending reactions) (outcome : ω) :
    h.settle i outcome = ⟨Function.update h.promise i (.settled outcome),
      h.jobs ++ reactions.map fun reaction => .react reaction outcome⟩ := by
  rw [settle, pending]

end Heap

end Pomade.Lib
