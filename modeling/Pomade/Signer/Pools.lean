import Pomade.Lib.Pool
import Pomade.Signer.Runs

/-! # Requests at the same time

A signer answers requests concurrently.  Each makes its storage calls one after the
other; between two of them any other request may make its own, and time may go by.
-/

namespace Pomade.Signer

open Pomade.Lib Pomade.Frost

abbrev SignerPool (A : Type) : Type := Pool (Job A) Op Ans Response State

abbrev SignerAction (A : Type) : Type := Action (Job A) Op Ans State

abbrev SignerEntry (A : Type) : Type := Entry (Job A) Op Ans State

/-- Only the clock moves while no request makes a call. -/
def TimePasses (R : Nat → Nat → Prop) : State → State → Prop :=
  Pool.Elapses (fun time s => R s.clock time) fun time s => { s with clock := time }

/-- The pools that the Rust signer reaches, if every action satisfies `ok`. -/
abbrev RustPool (Pt : Type) [AddCommGroup Pt] [Module Scalar Pt] [Curve Pt] [Sha2] [Argon2]
    (options : SignerOptions) (R : Nat → Nat → Prop)
    (ok : SignerPool Auth → SignerAction Auth → Prop) : SignerPool Auth → Prop :=
  Pool.Reach (rustWorld Pt R) (handle Pt options) (TimePasses R) Opened ok

/-- What a request has returned, if it has. -/
def answered {α : Type} : SignerProg α → Option α
  | .pure value => some value
  | _ => none

/-! ## What a call does to one record -/

section Records

variable {signing : SigningFn} {R : Nat → Nat → Prop} {s s' : State}

theorem State.table_setTable_ne {c c' : Coll} (other : c ≠ c') (s : State) (t : Table c'.Val) :
    (s.setTable c' t).table c = s.table c := by
  cases c <;> cases c' <;> first | rfl | exact absurd rfl other

/-- A call that neither sets nor deletes a record leaves it as it is. -/
theorem get_of_step {o : Op} {answer : Ans o} {c : Coll} {key : Str}
    (unset : ∀ value, o ≠ .set c key value) (undeleted : o ≠ .delete c key)
    (step : (world signing R).step o s answer s') :
    (s'.table c).get key = (s.table c).get key := by
  obtain ⟨e, _, outcome⟩ := step
  cases o with
  | set c' key' value =>
    cases outcome
    by_cases same : c = c'
    · subst same
      rw [State.table_setTable]
      apply Table.get_set_ne
      rintro rfl
      exact unset value rfl
    · rw [State.table_setTable_ne same]
  | delete c' key' =>
    cases outcome
    by_cases same : c = c'
    · subst same
      rw [State.table_setTable]
      apply Table.get_delete_ne
      rintro rfl
      exact undeleted rfl
    · rw [State.table_setTable_ne same]
  | takeCommit client commitId =>
    obtain ⟨commits, taken⟩ := takeCommit_state s swapRemove client commitId
    have same : s' = { s with commitsByClient := commits } :=
      (congrArg Prod.snd outcome).symm.trans taken
    subst same
    cases c <;> rfl
  | takeCommitInOrder client commitId =>
    obtain ⟨commits, taken⟩ := takeCommit_state s List.eraseIdx client commitId
    have same : s' = { s with commitsByClient := commits } :=
      (congrArg Prod.snd outcome).symm.trans taken
    subst same
    cases c <;> rfl
  | _ =>
    cases outcome
    cases c <;> rfl

end Records

end Pomade.Signer
