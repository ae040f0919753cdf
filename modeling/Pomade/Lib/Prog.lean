import Mathlib.Data.List.Basic
import Mathlib.Tactic.TypeStar

/-! # Programs that call a store

A handler is a `Prog`: it either returns, stops with a panic, or makes one call
and continues with the answer.  Three readings of a program are given here.

* `run` executes it against a concrete interface, one answer after the other.
* `Exec` is the same as a relation, for an interface whose answers may vary.
* `wp` is the weakest precondition over a `World`, which says which calls are
  allowed and what each may do.

`wp` is generic in the state of the world.  With the store as state it describes
a request that runs alone; with the list of calls made so far as state it
describes what one thread may do whatever the others do in between.
-/

namespace Pomade.Lib

/-- A call together with the answer it got. -/
structure Call (Op : Type) (Ans : Op → Type) where
  op : Op
  ans : Ans op

inductive Prog (Op : Type) (Ans : Op → Type) (α : Type) where
  | pure (value : α)
  | call (op : Op) (next : Ans op → Prog Op Ans α)
  | abort

namespace Prog

variable {Op : Type} {Ans : Op → Type} {α β γ : Type}

def bind : Prog Op Ans α → (α → Prog Op Ans β) → Prog Op Ans β
  | .pure value, f => f value
  | .call op next, f => .call op fun answer => (next answer).bind f
  | .abort, _ => .abort

instance : Monad (Prog Op Ans) where
  pure := .pure
  bind := .bind

/-- The program that makes one call and returns its answer. -/
def op (o : Op) : Prog Op Ans (Ans o) := .call o .pure

/-- Run a program on every element in turn. -/
def forEach (body : β → Prog Op Ans Unit) : List β → Prog Op Ans Unit
  | [] => .pure ()
  | item :: items => (body item).bind fun _ => forEach body items

/-- Run a program on every element in turn and keep the answers that are present. -/
def filterMap (body : β → Prog Op Ans (Option γ)) : List β → Prog Op Ans (List γ)
  | [] => .pure []
  | item :: items =>
    (body item).bind fun found =>
      (filterMap body items).bind fun rest => .pure (found.toList ++ rest)

@[simp] theorem bind_eq (p : Prog Op Ans α) (f : α → Prog Op Ans β) : p.bind f = p >>= f := rfl

@[simp] theorem pure_eq (value : α) : (.pure value : Prog Op Ans α) = Pure.pure value := rfl

@[simp] theorem pure_bind (value : α) (f : α → Prog Op Ans β) :
    (Pure.pure value >>= f) = f value := rfl

@[simp] theorem call_bind (o : Op) (next : Ans o → Prog Op Ans α) (f : α → Prog Op Ans β) :
    (Prog.call o next >>= f) = .call o fun answer => next answer >>= f := rfl

theorem bind_assoc (p : Prog Op Ans α) (f : α → Prog Op Ans β) (g : β → Prog Op Ans γ) :
    p >>= f >>= g = p >>= fun value => f value >>= g := by
  induction p with
  | pure value => rfl
  | abort => rfl
  | call o next ih =>
    show Prog.call o (fun answer => next answer >>= f >>= g) = _
    simp only [ih]
    rfl

@[simp] theorem abort_bind (f : α → Prog Op Ans β) : ((.abort : Prog Op Ans α) >>= f) = .abort := rfl

end Prog

/-! ## Worlds and weakest preconditions -/

/-- What a program may call in each state, and what the call may do. -/
structure World (Op : Type) (Ans : Op → Type) (σ : Type*) where
  allowed : Op → σ → Prop
  step : (o : Op) → σ → Ans o → σ → Prop

namespace World

variable {Op : Type} {Ans : Op → Type} {σ ε : Type*}

/-- The world of a concrete interface, `permit` restricting the environment of a call. -/
def ofExec (exec : (o : Op) → ε → σ → Ans o × σ) (permit : Op → ε → σ → Prop) :
    World Op Ans σ where
  allowed _ _ := True
  step o s answer s' := ∃ e, permit o e s ∧ exec o e s = (answer, s')

/-- The same world, with the calls collected newest first. -/
def traced (W : World Op Ans σ) : World Op Ans (σ × List (Call Op Ans)) where
  allowed o s := W.allowed o s.1
  step o s answer s' := W.step o s.1 answer s'.1 ∧ s'.2 = ⟨o, answer⟩ :: s.2

/-- The world of one thread among others: its state is the list of its own calls,
newest first, and every call may get any answer. -/
def thread (allowed : Op → List (Call Op Ans) → Prop) : World Op Ans (List (Call Op Ans)) where
  allowed := allowed
  step o seen answer seen' := seen' = ⟨o, answer⟩ :: seen

end World

namespace Prog

variable {Op : Type} {Ans : Op → Type} {α β γ : Type} {σ ε : Type*} {W : World Op Ans σ}

/-- `Q` holds of the result and the final state of every run of the program, and
every call on the way is allowed.  A panic has the result `none`. -/
def wp (W : World Op Ans σ) : Prog Op Ans α → (Option α → σ → Prop) → σ → Prop
  | .pure value, Q, s => Q (some value) s
  | .call o next, Q, s =>
    W.allowed o s ∧ ∀ answer s', W.step o s answer s' → wp W (next answer) Q s'
  | .abort, Q, s => Q none s

@[simp] theorem wp_pure (value : α) (Q : Option α → σ → Prop) (s : σ) :
    wp W (Pure.pure value : Prog Op Ans α) Q s ↔ Q (some value) s := Iff.rfl

@[simp] theorem wp_abort (Q : Option α → σ → Prop) (s : σ) :
    wp W (.abort : Prog Op Ans α) Q s ↔ Q none s := Iff.rfl

theorem wp_call (o : Op) (next : Ans o → Prog Op Ans α) (Q : Option α → σ → Prop) (s : σ) :
    wp W (.call o next) Q s ↔
      W.allowed o s ∧ ∀ answer s', W.step o s answer s' → wp W (next answer) Q s' := Iff.rfl

theorem wp_op_bind (o : Op) (f : Ans o → Prog Op Ans α) (Q : Option α → σ → Prop) (s : σ) :
    wp W (op o >>= f) Q s ↔
      W.allowed o s ∧ ∀ answer s', W.step o s answer s' → wp W (f answer) Q s' := Iff.rfl

/-- A call in last place. -/
theorem op_eq (o : Op) : (op o : Prog Op Ans (Ans o)) = op o >>= Pure.pure := rfl

theorem wp_traced (o : Op) (f : Ans o → Prog Op Ans α)
    (Q : Option α → σ × List (Call Op Ans) → Prop) (s : σ) (calls : List (Call Op Ans)) :
    wp W.traced (op o >>= f) Q (s, calls) ↔
      W.allowed o s ∧
        ∀ answer s', W.step o s answer s' → wp W.traced (f answer) Q (s', ⟨o, answer⟩ :: calls) := by
  refine and_congr_right fun _ => ⟨fun holds answer s' step => ?_, ?_⟩
  · exact holds answer (s', _) ⟨step, rfl⟩
  · rintro holds answer ⟨s', calls'⟩ ⟨step, rfl⟩
    exact holds answer s' step

theorem wp_mono {Q Q' : Option α → σ → Prop} (weaker : ∀ r s, Q r s → Q' r s)
    (p : Prog Op Ans α) (s : σ) (holds : wp W p Q s) : wp W p Q' s := by
  induction p generalizing s with
  | pure value => exact weaker _ _ holds
  | abort => exact weaker _ _ holds
  | call o next ih =>
    exact ⟨holds.1, fun answer s' step => ih answer s' (holds.2 answer s' step)⟩

theorem wp_bind (p : Prog Op Ans α) (f : α → Prog Op Ans β) (Q : Option β → σ → Prop) (s : σ) :
    wp W (p >>= f) Q s ↔
      wp W p (fun r s' => r.elim (Q none s') fun value => wp W (f value) Q s') s := by
  induction p generalizing s with
  | pure value => rfl
  | abort => rfl
  | call o next ih =>
    simp only [call_bind, wp_call]
    refine and_congr_right fun _ => forall_congr' fun answer => forall_congr' fun s' => ?_
    rw [ih]

/-- Sequencing: what the first program establishes is what the rest starts from. -/
theorem wp_seq {Q : Option α → σ → Prop} {Q' : Option β → σ → Prop} {p : Prog Op Ans α}
    {f : α → Prog Op Ans β} {s : σ} (first : wp W p Q s)
    (rest : ∀ value s', Q (some value) s' → wp W (f value) Q' s')
    (stop : ∀ s', Q none s' → Q' none s') : wp W (p >>= f) Q' s := by
  rw [wp_bind]
  refine wp_mono ?_ p s first
  rintro (_ | value) s' holds
  · exact stop s' holds
  · exact rest value s' holds

/-- Sequencing after a program that always returns. -/
theorem wp_then {P : α → σ → Prop} {Q : Option β → σ → Prop} {p : Prog Op Ans α}
    {f : α → Prog Op Ans β} {s : σ} (first : wp W p (fun r s' => ∃ value, r = some value ∧ P value s') s)
    (rest : ∀ value s', P value s' → wp W (f value) Q s') : wp W (p >>= f) Q s := by
  refine wp_seq first ?_ ?_
  · rintro value s' ⟨_, same, holds⟩
    cases same
    exact rest value s' holds
  · rintro s' ⟨_, impossible, _⟩
    cases impossible

/-- Sequencing after a program that always returns and has nothing to return. -/
theorem wp_unit {P : σ → Prop} {Q : Option β → σ → Prop} {p : Prog Op Ans Unit}
    {f : Unit → Prog Op Ans β} {s : σ} (first : wp W p (fun r s' => r = some () ∧ P s') s)
    (rest : ∀ s', P s' → wp W (f ()) Q s') : wp W (p >>= f) Q s := by
  refine wp_seq first ?_ ?_
  · rintro _ s' ⟨_, holds⟩
    exact rest s' holds
  · rintro s' ⟨impossible, _⟩
    cases impossible

/-- Two things that are established separately hold together. -/
theorem wp_and {p : Prog Op Ans α} {P Q : Option α → σ → Prop} {s : σ} (left : wp W p P s)
    (right : wp W p Q s) : wp W p (fun r s' => P r s' ∧ Q r s') s := by
  induction p generalizing s with
  | pure value => exact ⟨left, right⟩
  | abort => exact ⟨left, right⟩
  | call o next ih =>
    exact ⟨left.1, fun answer s' step => ih answer (left.2 answer s' step) (right.2 answer s' step)⟩

/-- The calls made so far stay the oldest ones. -/
theorem wp_suffix (free : ∀ o s, W.allowed o s) (p : Prog Op Ans α)
    (s : σ × List (Call Op Ans)) : wp W.traced p (fun _ s' => s.2 <:+ s'.2) s := by
  induction p generalizing s with
  | pure value => exact List.suffix_refl _
  | abort => exact List.suffix_refl _
  | call o next ih =>
    refine ⟨free o s.1, fun answer s' step => ?_⟩
    refine wp_mono ?_ _ _ (ih answer s')
    intro _ s'' longer
    rw [step.2] at longer
    exact (List.suffix_cons _ _).trans longer

/-- The loop rule: `I` speaks about the elements already done and the state. -/
theorem wp_forEach {body : β → Prog Op Ans Unit} {I : List β → σ → Prop}
    {Q : Option Unit → σ → Prop} (items done : List β) (s : σ) (start : I done s)
    (step : ∀ done item s, item ∈ items → I done s →
      wp W (body item) (fun r s' => r = some () ∧ I (done ++ [item]) s') s)
    (finish : ∀ s, I (done ++ items) s → Q (some ()) s) :
    wp W (forEach body items) Q s := by
  induction items generalizing done s with
  | nil => exact finish s (by simpa using start)
  | cons item items ih =>
    refine wp_seq (step done item s (by simp) start) ?_ ?_
    · rintro _ s' ⟨_, held⟩
      refine ih (done ++ [item]) s' held ?_ ?_
      · intro done' item' s₁ member
        exact step done' item' s₁ (List.mem_cons_of_mem _ member)
      · intro s₁ held'
        exact finish s₁ (by simpa using held')
    · rintro s' ⟨impossible, _⟩
      cases impossible

/-- The loop rule for `filterMap`, `I` also speaking about what was kept. -/
theorem wp_filterMap {body : β → Prog Op Ans (Option γ)} {I : List β → List γ → σ → Prop}
    {Q : Option (List γ) → σ → Prop} (items done : List β) (kept : List γ) (s : σ)
    (start : I done kept s)
    (step : ∀ done kept item s, item ∈ items → I done kept s →
      wp W (body item)
        (fun r s' => ∃ found, r = some found ∧ I (done ++ [item]) (kept ++ found.toList) s') s)
    (finish : ∀ rest s, I (done ++ items) (kept ++ rest) s → Q (some rest) s) :
    wp W (filterMap body items) Q s := by
  induction items generalizing done kept s Q with
  | nil => exact finish [] s (by simpa using start)
  | cons item items ih =>
    refine wp_seq (step done kept item s (by simp) start) ?_ ?_
    · rintro found s' ⟨_, same, held⟩
      cases same
      rw [bind_eq, wp_bind]
      refine ih (done ++ [item]) (kept ++ found.toList) s' held ?_ ?_
      · intro done' kept' item' s₁ member
        exact step done' kept' item' s₁ (List.mem_cons_of_mem _ member)
      · intro rest s₁ held'
        exact finish (found.toList ++ rest) s₁ (by simpa using held')
    · rintro s' ⟨_, impossible, _⟩
      cases impossible

/-! ## Programs that make certain calls only -/

/-- Every call the program can make satisfies `P`. -/
def Only (P : Op → Prop) : Prog Op Ans α → Prop
  | .pure _ => True
  | .call o next => P o ∧ ∀ answer, (next answer).Only P
  | .abort => True

section Only

variable {P : Op → Prop}

@[simp] theorem only_pure (value : α) : (Pure.pure value : Prog Op Ans α).Only P := trivial

@[simp] theorem only_abort : (.abort : Prog Op Ans α).Only P := trivial

@[simp] theorem only_op_bind {o : Op} {f : Ans o → Prog Op Ans α} :
    (op o >>= f).Only P ↔ P o ∧ ∀ answer, (f answer).Only P := Iff.rfl

@[simp] theorem only_op {o : Op} : (op o : Prog Op Ans (Ans o)).Only P ↔ P o :=
  ⟨fun only => only.1, fun holds => ⟨holds, fun _ => trivial⟩⟩

theorem Only.bind {p : Prog Op Ans α} {f : α → Prog Op Ans β} (first : p.Only P)
    (rest : ∀ value, (f value).Only P) : (p >>= f).Only P := by
  induction p with
  | pure value => exact rest value
  | abort => trivial
  | call o next ih => exact ⟨first.1, fun answer => ih answer (first.2 answer)⟩

theorem Only.mono {P Q : Op → Prop} (weaker : ∀ o, P o → Q o) {p : Prog Op Ans α}
    (only : p.Only P) : p.Only Q := by
  induction p with
  | pure value => trivial
  | abort => trivial
  | call o next ih => exact ⟨weaker o only.1, fun answer => ih answer (only.2 answer)⟩

theorem only_true (p : Prog Op Ans α) : p.Only fun _ => True := by
  induction p with
  | pure value => trivial
  | abort => trivial
  | call o next ih => exact ⟨trivial, ih⟩

theorem only_forEach {body : β → Prog Op Ans Unit} (each : ∀ item, (body item).Only P)
    (items : List β) : (forEach body items).Only P := by
  induction items with
  | nil => trivial
  | cons item items ih => exact (each item).bind fun _ => ih

theorem only_filterMap {body : β → Prog Op Ans (Option γ)} (each : ∀ item, (body item).Only P)
    (items : List β) : (filterMap body items).Only P := by
  induction items with
  | nil => trivial
  | cons item items ih => exact (each item).bind fun _ => ih.bind fun _ => trivial

/-- What every such call does to the state, reflexively and transitively closed, is all
the program does to it. -/
theorem wp_of_only {R : σ → σ → Prop} (refl : ∀ s, R s s)
    (trans : ∀ {s s' s''}, R s s' → R s' s'' → R s s'')
    (step : ∀ o s answer s', P o → W.step o s answer s' → R s s')
    (free : ∀ o s, W.allowed o s) {p : Prog Op Ans α} (only : p.Only P) (s : σ) :
    wp W p (fun _ s' => R s s') s := by
  induction p generalizing s with
  | pure value => exact refl s
  | abort => exact refl s
  | call o next ih =>
    refine ⟨free o s, fun answer s' happened => ?_⟩
    have first := step o s answer s' only.1 happened
    exact wp_mono (fun _ _ rest => trans first rest) _ _ (ih answer (only.2 answer) s')

/-- Calls of a kind the program does not make are not counted. -/
theorem wp_countP {f : Call Op Ans → Bool}
    (silent : ∀ o answer, P o → f ⟨o, answer⟩ = false) (free : ∀ o s, W.allowed o s)
    {p : Prog Op Ans α} (only : p.Only P) (s : σ × List (Call Op Ans)) :
    wp W.traced p (fun _ s' => s'.2.countP f = s.2.countP f) s := by
  refine wp_of_only (W := W.traced) (R := fun s s' => s'.2.countP f = s.2.countP f)
    (fun _ => rfl) ?_ ?_ (fun o s => free o s.1) only s
  · intro s s' s'' first second
    exact second.trans first
  intro o s answer s' holds step
  rw [step.2, List.countP_cons_of_neg]
  simp [silent o answer holds]

end Only

/-! ## Programs that return -/

/-- The program does not panic, whatever its calls answer. -/
def Returns : Prog Op Ans α → Prop
  | .pure _ => True
  | .call _ next => ∀ answer, (next answer).Returns
  | .abort => False

section Returns

@[simp] theorem returns_pure (value : α) : (Pure.pure value : Prog Op Ans α).Returns := trivial

@[simp] theorem returns_op_bind {o : Op} {f : Ans o → Prog Op Ans α} :
    (op o >>= f).Returns ↔ ∀ answer, (f answer).Returns := Iff.rfl

@[simp] theorem returns_op {o : Op} : (op o : Prog Op Ans (Ans o)).Returns := fun _ => trivial

theorem Returns.bind {p : Prog Op Ans α} {f : α → Prog Op Ans β} (first : p.Returns)
    (rest : ∀ value, (f value).Returns) : (p >>= f).Returns := by
  induction p with
  | pure value => exact rest value
  | abort => exact first.elim
  | call o next ih => exact fun answer => ih answer (first answer)

theorem returns_forEach {body : β → Prog Op Ans Unit} (each : ∀ item, (body item).Returns)
    (items : List β) : (forEach body items).Returns := by
  induction items with
  | nil => trivial
  | cons item items ih => exact (each item).bind fun _ => ih

theorem returns_filterMap {body : β → Prog Op Ans (Option γ)} (each : ∀ item, (body item).Returns)
    (items : List β) : (filterMap body items).Returns := by
  induction items with
  | nil => trivial
  | cons item items ih => exact (each item).bind fun _ => ih.bind fun _ => trivial

theorem Returns.wp {p : Prog Op Ans α} (returns : p.Returns) (free : ∀ o s, W.allowed o s) (s : σ) :
    wp W p (fun r _ => r ≠ none) s := by
  induction p generalizing s with
  | pure value => exact Option.some_ne_none value
  | abort => exact returns.elim
  | call o next ih => exact ⟨free o s, fun answer s' _ => ih answer (returns answer) s'⟩

end Returns

/-- A thread that makes only calls that are always allowed. -/
theorem wp_thread_of_only {P : Op → Prop} {allowed : Op → List (Call Op Ans) → Prop}
    (free : ∀ o seen, P o → allowed o seen) {p : Prog Op Ans α} (only : p.Only P)
    (seen : List (Call Op Ans)) :
    wp (World.thread allowed) p (fun r seen' => (p.Returns → r ≠ none) ∧ seen <:+ seen') seen := by
  induction p generalizing seen with
  | pure value => exact ⟨fun _ => Option.some_ne_none value, List.suffix_refl seen⟩
  | abort => exact ⟨False.elim, List.suffix_refl seen⟩
  | call o next ih =>
    refine ⟨free o seen only.1, fun answer seen' step => ?_⟩
    refine wp_mono ?_ _ _ (ih answer (only.2 answer) seen')
    rintro r seen'' ⟨finishes, longer⟩
    rw [step] at longer
    exact ⟨fun returns => finishes (returns answer), (List.suffix_cons _ _).trans longer⟩

/-- A thread whose calls are allowed after the calls that it has made already. -/
theorem wp_thread_after {P : Op → Prop} {allowed : Op → List (Call Op Ans) → Prop}
    {seen : List (Call Op Ans)} (free : ∀ o seen', seen <:+ seen' → P o → allowed o seen')
    {p : Prog Op Ans α} (only : p.Only P) : wp (World.thread allowed) p (fun _ _ => True) seen := by
  suffices ∀ seen', seen <:+ seen' → wp (World.thread allowed) p (fun _ _ => True) seen' from
    this seen (List.suffix_refl seen)
  induction p with
  | pure value => exact fun _ _ => trivial
  | abort => exact fun _ _ => trivial
  | call o next ih =>
    intro seen' longer
    refine ⟨free o seen' longer only.1, fun answer seen'' step => ?_⟩
    rw [step]
    exact ih answer (only.2 answer) _ (longer.trans (List.suffix_cons _ _))

/-! ## Runs -/

/-- One complete run of a program. -/
inductive Exec (W : World Op Ans σ) : Prog Op Ans α → σ → Option α → σ → Prop where
  | pure (value : α) (s : σ) : Exec W (.pure value) s (some value) s
  | abort (s : σ) : Exec W .abort s none s
  | call {o : Op} {next : Ans o → Prog Op Ans α} {s s₁ s' : σ} {answer : Ans o} {r : Option α}
      (step : W.step o s answer s₁) (rest : Exec W (next answer) s₁ r s') :
      Exec W (.call o next) s r s'

theorem Exec.of_wp {p : Prog Op Ans α} {Q : Option α → σ → Prop} {s s' : σ} {r : Option α}
    (exec : Exec W p s r s') (holds : wp W p Q s) : Q r s' := by
  induction exec with
  | pure value s => exact holds
  | abort s => exact holds
  | call step _ ih => exact ih (holds.2 _ _ step)

/-- A run of a sequence goes through the first program, or stops in it. -/
theorem Exec.of_bind {p : Prog Op Ans α} {f : α → Prog Op Ans β} {s s' : σ} {r : Option β}
    (exec : Exec W (p >>= f) s r s') :
    (∃ value s₁, Exec W p s (some value) s₁ ∧ Exec W (f value) s₁ r s') ∨ Exec W p s none s' := by
  induction p generalizing s with
  | pure value => exact .inl ⟨value, s, .pure value s, exec⟩
  | abort =>
    cases exec with
    | abort => exact .inr (.abort _)
  | call o next ih =>
    cases exec with
    | call step rest =>
      obtain ⟨value, s₁, first, rest⟩ | stopped := ih _ rest
      · exact .inl ⟨value, s₁, .call step first, rest⟩
      · exact .inr (.call step stopped)

/-- The first program makes the calls of the second, and may panic where that one returns. -/
inductive Cuts : Prog Op Ans α → Prog Op Ans α → Prop where
  | same (p : Prog Op Ans α) : Cuts p p
  | stop (value : α) : Cuts .abort (.pure value)
  | call (o : Op) {next next' : Ans o → Prog Op Ans α}
      (rest : ∀ answer, Cuts (next answer) (next' answer)) : Cuts (.call o next) (.call o next')

theorem Cuts.bind_right (p : Prog Op Ans α) {f f' : α → Prog Op Ans β}
    (rest : ∀ value, Cuts (f value) (f' value)) : Cuts (p >>= f) (p >>= f') := by
  induction p with
  | pure value => exact rest value
  | abort => exact .same _
  | call o next ih => exact .call o ih

/-- What the first program leaves behind the second leaves behind as well. -/
theorem Exec.of_cuts {p p' : Prog Op Ans α} {s s' : σ} {r : Option α} (exec : Exec W p s r s')
    (cuts : Cuts p p') : ∃ r', Exec W p' s r' s' := by
  induction exec generalizing p' with
  | pure value s =>
    cases cuts with
    | same => exact ⟨_, .pure value s⟩
  | abort s =>
    cases cuts with
    | same => exact ⟨_, .abort s⟩
    | stop value => exact ⟨_, .pure value s⟩
  | call step rest ih =>
    cases cuts with
    | same => exact ⟨_, .call step rest⟩
    | call _ later =>
      obtain ⟨r', done⟩ := ih (later _)
      exact ⟨r', .call step done⟩

/-- Result, final state and calls (newest first) of a run. -/
structure Outcome (Op : Type) (Ans : Op → Type) (α : Type) (σ : Type*) where
  result : Option α
  state : σ
  calls : List (Call Op Ans)

/-- Run a program, call number `n` reading the environment `env n`. -/
def run (exec : (o : Op) → ε → σ → Ans o × σ) :
    Prog Op Ans α → (Nat → ε) → σ → List (Call Op Ans) → Outcome Op Ans α σ
  | .pure value, _, s, calls => ⟨some value, s, calls⟩
  | .abort, _, s, calls => ⟨none, s, calls⟩
  | .call o next, env, s, calls =>
    let (answer, s') := exec o (env 0) s
    run exec (next answer) (fun n => env (n + 1)) s' (⟨o, answer⟩ :: calls)

/-- The environment of a run is admitted at every call. -/
def Admits (exec : (o : Op) → ε → σ → Ans o × σ) (permit : Op → ε → σ → Prop) :
    Prog Op Ans α → (Nat → ε) → σ → Prop
  | .pure _, _, _ => True
  | .abort, _, _ => True
  | .call o next, env, s =>
    permit o (env 0) s ∧
      Admits exec permit (next (exec o (env 0) s).1) (fun n => env (n + 1)) (exec o (env 0) s).2

instance Admits.decidable (exec : (o : Op) → ε → σ → Ans o × σ) (permit : Op → ε → σ → Prop)
    [∀ o e s, Decidable (permit o e s)] :
    (p : Prog Op Ans α) → (env : Nat → ε) → (s : σ) → Decidable (Admits exec permit p env s)
  | .pure _, _, _ => .isTrue trivial
  | .abort, _, _ => .isTrue trivial
  | .call o next, env, s =>
    have := Admits.decidable exec permit (next (exec o (env 0) s).1) (fun n => env (n + 1))
      (exec o (env 0) s).2
    inferInstanceAs (Decidable (_ ∧ _))

theorem exec_run {exec : (o : Op) → ε → σ → Ans o × σ} {permit : Op → ε → σ → Prop}
    {p : Prog Op Ans α} {env : Nat → ε} {s : σ} (admitted : Admits exec permit p env s)
    (calls : List (Call Op Ans)) :
    Exec (World.ofExec exec permit).traced p (s, calls) (run exec p env s calls).result
      ((run exec p env s calls).state, (run exec p env s calls).calls) := by
  induction p generalizing env s calls with
  | pure value => exact .pure value (s, calls)
  | abort => exact .abort (s, calls)
  | call o next ih => exact .call ⟨⟨env 0, admitted.1, rfl⟩, rfl⟩ (ih _ admitted.2 _)

end Prog

/-! ## Runs of many jobs, one at a time -/

/-- One job carried out: the state it found, its calls (newest first), its result
and the state it left. -/
structure Event (J Op : Type) (Ans : Op → Type) (α : Type) (σ : Type*) where
  job : J
  before : σ
  calls : List (Call Op Ans)
  result : Option α
  after : σ

section Runs

variable {J Op : Type} {Ans : Op → Type} {α : Type} {σ ε : Type*} {W : World Op Ans σ}

/-- The event is a complete run of its job's program. -/
def Event.Happens (W : World Op Ans σ) (program : J → Prog Op Ans α) (e : Event J Op Ans α σ) :
    Prop :=
  Prog.Exec W.traced (program e.job) (e.before, []) e.result (e.after, e.calls)

/-- The event that running a job in an environment gives. -/
def Event.ofRun (exec : (o : Op) → ε → σ → Ans o × σ) (program : J → Prog Op Ans α)
    (job : J) (env : Nat → ε) (s : σ) : Event J Op Ans α σ :=
  let outcome := (program job).run exec env s []
  { job, before := s, calls := outcome.calls, result := outcome.result, after := outcome.state }

/-- The runs (newest event first) that start in a state with `init`, carry out the jobs
one at a time, and whose events all satisfy `ok`. -/
inductive Runs (W : World Op Ans σ) (program : J → Prog Op Ans α) (init : σ → Prop)
    (ok : Event J Op Ans α σ → Prop) : List (Event J Op Ans α σ) → σ → Prop where
  | start (s : σ) (initial : init s) : Runs W program init ok [] s
  | step {events : List (Event J Op Ans α σ)} (e : Event J Op Ans α σ)
      (earlier : Runs W program init ok events e.before) (happens : e.Happens W program)
      (meets : ok e) : Runs W program init ok (e :: events) e.after

variable {program : J → Prog Op Ans α} {init : σ → Prop} {ok : Event J Op Ans α σ → Prop}

/-- What every job establishes of its own event. -/
theorem Event.Happens.of_wp {e : Event J Op Ans α σ} (happens : e.Happens W program)
    {Q : Option α → σ × List (Call Op Ans) → Prop}
    (holds : (program e.job).wp W.traced Q (e.before, [])) : Q e.result (e.after, e.calls) :=
  Prog.Exec.of_wp happens holds

/-- The invariant rule: what holds initially and is kept by every event holds throughout. -/
theorem Runs.invariant {I : σ → Prop} (start : ∀ s, init s → I s)
    (step : ∀ e : Event J Op Ans α σ, e.Happens W program → ok e → I e.before → I e.after)
    {events : List (Event J Op Ans α σ)} {s : σ} (run : Runs W program init ok events s) :
    I s := by
  induction run with
  | start s initial => exact start s initial
  | step e _ happens meets ih => exact step e happens meets ih

/-- Every event of a run happens, in a state a shorter run reaches. -/
theorem Runs.of_mem {events : List (Event J Op Ans α σ)} {s : σ}
    (run : Runs W program init ok events s) {e : Event J Op Ans α σ} (member : e ∈ events) :
    (∃ earlier, Runs W program init ok earlier e.before) ∧ e.Happens W program ∧ ok e := by
  induction run with
  | start s initial => cases member
  | step e' earlier happens meets ih =>
    rcases List.mem_cons.mp member with same | member
    · subst same
      exact ⟨⟨_, earlier⟩, happens, meets⟩
    · exact ih member

/-- A run whose events satisfy something else as well. -/
theorem Runs.restrict {ok' : Event J Op Ans α σ → Prop} {events : List (Event J Op Ans α σ)} {s : σ}
    (run : Runs W program init ok events s) (meets : ∀ e ∈ events, ok' e) :
    Runs W program init ok' events s := by
  induction run with
  | start s initial => exact .start s initial
  | step e _ happens _ ih =>
    rw [List.forall_mem_cons] at meets
    exact .step e (ih meets.2) happens meets.1

/-- Where programs may panic earlier, no other states are reached. -/
theorem Runs.of_cuts {program' : J → Prog Op Ans α} (cuts : ∀ job, Prog.Cuts (program job) (program' job))
    {events : List (Event J Op Ans α σ)} {s : σ} (run : Runs W program init ok events s) :
    ∃ events', Runs W program' init (fun _ => True) events' s := by
  induction run with
  | start s initial => exact ⟨[], .start s initial⟩
  | step e _ happens _ ih =>
    obtain ⟨events', earlier⟩ := ih
    obtain ⟨result, done⟩ := Prog.Exec.of_cuts happens (cuts e.job)
    exact ⟨_, .step { e with result } earlier done trivial⟩

theorem Event.happens_ofRun {exec : (o : Op) → ε → σ → Ans o × σ} {permit : Op → ε → σ → Prop}
    {program : J → Prog Op Ans α} {job : J} {env : Nat → ε} {s : σ}
    (admitted : Prog.Admits exec permit (program job) env s) :
    (Event.ofRun exec program job env s).Happens (World.ofExec exec permit) program :=
  Prog.exec_run admitted []

/-- Carry out jobs in turn, each in its own environment, after the events so far. -/
def replay (exec : (o : Op) → ε → σ → Ans o × σ) (program : J → Prog Op Ans α) :
    List (J × (Nat → ε)) → List (Event J Op Ans α σ) → σ → List (Event J Op Ans α σ) × σ
  | [], events, s => (events, s)
  | (job, env) :: rest, events, s =>
    let e := Event.ofRun exec program job env s
    replay exec program rest (e :: events) e.after

theorem mem_replay {exec : (o : Op) → ε → σ → Ans o × σ} {program : J → Prog Op Ans α}
    (jobs : List (J × (Nat → ε))) {events : List (Event J Op Ans α σ)} {s : σ}
    {e : Event J Op Ans α σ} (member : e ∈ (replay exec program jobs events s).1) :
    e ∈ events ∨ e.job ∈ jobs.map Prod.fst := by
  induction jobs generalizing events s with
  | nil => exact .inl member
  | cons job rest ih =>
    rcases ih member with new | later
    · rcases List.mem_cons.mp new with same | earlier
      · exact .inr (by rw [same]; exact List.mem_cons_self)
      · exact .inl earlier
    · exact .inr (List.mem_cons_of_mem _ later)

/-- Every event of a replay is admitted and satisfies `ok`. -/
def Replays (exec : (o : Op) → ε → σ → Ans o × σ) (permit : Op → ε → σ → Prop)
    (program : J → Prog Op Ans α) (ok : Event J Op Ans α σ → Prop) :
    List (J × (Nat → ε)) → σ → Prop
  | [], _ => True
  | (job, env) :: rest, s =>
    (Prog.Admits exec permit (program job) env s ∧ ok (Event.ofRun exec program job env s)) ∧
      Replays exec permit program ok rest (Event.ofRun exec program job env s).after

instance Replays.decidable (exec : (o : Op) → ε → σ → Ans o × σ) (permit : Op → ε → σ → Prop)
    (program : J → Prog Op Ans α) (ok : Event J Op Ans α σ → Prop)
    [∀ o e s, Decidable (permit o e s)] [DecidablePred ok] :
    (jobs : List (J × (Nat → ε))) → (s : σ) → Decidable (Replays exec permit program ok jobs s)
  | [], _ => .isTrue trivial
  | (job, env) :: rest, s =>
    have := Replays.decidable exec permit program ok rest (Event.ofRun exec program job env s).after
    inferInstanceAs (Decidable ((_ ∧ _) ∧ _))

theorem Runs.replay {exec : (o : Op) → ε → σ → Ans o × σ} {permit : Op → ε → σ → Prop}
    (jobs : List (J × (Nat → ε))) {events : List (Event J Op Ans α σ)} {s : σ}
    (run : Runs (World.ofExec exec permit) program init ok events s)
    (fine : Replays exec permit program ok jobs s) :
    Runs (World.ofExec exec permit) program init ok (Lib.replay exec program jobs events s).1
      (Lib.replay exec program jobs events s).2 := by
  induction jobs generalizing events s with
  | nil => exact run
  | cons job rest ih =>
    exact ih (.step _ run (Event.happens_ofRun fine.1.1) fine.1.2) fine.2

end Runs

end Pomade.Lib
