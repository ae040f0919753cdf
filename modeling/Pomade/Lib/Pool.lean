import Pomade.Lib.Prog

/-! # Threads that share a store

Any number of programs run at once, and one of them makes one call at a time.  A `Pool`
is the shared state, the threads, and the history of all calls, newest first.

What a thread does by itself, whatever it is answered, is a `wp` in the world of the
thread; `Reach.local` carries it to every reachable pool.  What the calls do to the
shared state is told by `Reach.since` and `Reach.origin`.
-/

namespace Pomade.Lib

variable {J Op : Type} {Ans : Op → Type} {α : Type} {σ ε τ : Type*}

/-- A thread: its job, its own calls (newest first) and the program that is left. -/
structure Thread (J Op : Type) (Ans : Op → Type) (α : Type) where
  job : J
  seen : List (Call Op Ans)
  rest : Prog Op Ans α

/-- A call in the history: the thread that made it, that thread's job, and the state it
found. -/
structure Entry (J Op : Type) (Ans : Op → Type) (σ : Type*) where
  tid : Nat
  job : J
  call : Call Op Ans
  before : σ

structure Pool (J Op : Type) (Ans : Op → Type) (α : Type) (σ : Type*) where
  state : σ
  threads : List (Thread J Op Ans α)
  history : List (Entry J Op Ans σ)

/-- What can happen next: a thread starts, the state changes by itself, or a thread
makes a call and gets an answer. -/
inductive Action (J Op : Type) (Ans : Op → Type) (σ : Type*) where
  | spawn (job : J)
  | pass (s' : σ)
  | call (tid : Nat) (job : J) (call : Call Op Ans)

namespace Pool

def spawn (p : Pool J Op Ans α σ) (program : J → Prog Op Ans α) (job : J) :
    Pool J Op Ans α σ :=
  { p with threads := p.threads ++ [⟨job, [], program job⟩] }

/-- A thread has made a call and the state is now `s'`. -/
def called (p : Pool J Op Ans α σ) (tid : Nat) (job : J) (seen : List (Call Op Ans))
    (call : Call Op Ans) (rest : Prog Op Ans α) (s' : σ) : Pool J Op Ans α σ where
  state := s'
  threads := p.threads.set tid ⟨job, call :: seen, rest⟩
  history := ⟨tid, job, call, p.state⟩ :: p.history

/-- The pools that are reached from a state with `init`, if every action satisfies
`ok`. -/
inductive Reach (W : World Op Ans σ) (program : J → Prog Op Ans α) (passes : σ → σ → Prop)
    (init : σ → Prop) (ok : Pool J Op Ans α σ → Action J Op Ans σ → Prop) :
    Pool J Op Ans α σ → Prop where
  | start (s : σ) (initial : init s) : Reach W program passes init ok ⟨s, [], []⟩
  | spawn {p : Pool J Op Ans α σ} (job : J) (earlier : Reach W program passes init ok p)
      (meets : ok p (.spawn job)) : Reach W program passes init ok (p.spawn program job)
  | pass {p : Pool J Op Ans α σ} {s' : σ} (earlier : Reach W program passes init ok p)
      (passed : passes p.state s') (meets : ok p (.pass s')) :
      Reach W program passes init ok { p with state := s' }
  | call {p : Pool J Op Ans α σ} {tid : Nat} {job : J} {seen : List (Call Op Ans)} {o : Op}
      {next : Ans o → Prog Op Ans α} {answer : Ans o} {s' : σ}
      (earlier : Reach W program passes init ok p)
      (found : p.threads[tid]? = some ⟨job, seen, .call o next⟩)
      (step : W.step o p.state answer s') (meets : ok p (.call tid job ⟨o, answer⟩)) :
      Reach W program passes init ok (p.called tid job seen ⟨o, answer⟩ (next answer) s')

section Reach

variable {W : World Op Ans σ} {program : J → Prog Op Ans α} {passes : σ → σ → Prop}
variable {init : σ → Prop} {ok ok' : Pool J Op Ans α σ → Action J Op Ans σ → Prop}
variable {p : Pool J Op Ans α σ}

/-- A run that meets more also meets less. -/
theorem Reach.weaken (weaker : ∀ p action, ok p action → ok' p action)
    (reach : Reach W program passes init ok p) : Reach W program passes init ok' p := by
  induction reach with
  | start s initial => exact .start s initial
  | spawn job _ meets ih => exact .spawn job ih (weaker _ _ meets)
  | pass _ passed meets ih => exact .pass ih passed (weaker _ _ meets)
  | call _ found step meets ih => exact .call ih found step (weaker _ _ meets)

/-- A run in which the state changes by itself less is also a run where it may do more. -/
theorem Reach.passing {passes' : σ → σ → Prop} (fewer : ∀ s s', passes s s' → passes' s s')
    (reach : Reach W program passes init ok p) : Reach W program passes' init ok p := by
  induction reach with
  | start s initial => exact .start s initial
  | spawn job _ meets ih => exact .spawn job ih meets
  | pass _ passed meets ih => exact .pass ih (fewer _ _ passed) meets
  | call _ found step meets ih => exact .call ih found step meets

/-! ## Threads -/

/-- What holds of every new thread and is kept by its own calls holds of every thread. -/
theorem Reach.forall_threads {I : Thread J Op Ans α → Prop}
    (start : ∀ job, I ⟨job, [], program job⟩)
    (call : ∀ job seen o next answer, I ⟨job, seen, .call o next⟩ →
      I ⟨job, ⟨o, answer⟩ :: seen, next answer⟩)
    (reach : Reach W program passes init ok p) : ∀ thread ∈ p.threads, I thread := by
  induction reach with
  | start s initial => exact nofun
  | spawn job _ _ ih =>
    intro thread member
    rcases List.mem_append.mp member with old | new
    · exact ih thread old
    · rw [List.mem_singleton.mp new]
      exact start job
  | pass _ _ _ ih => exact ih
  | call _ found _ _ ih =>
    intro thread member
    rcases List.mem_or_eq_of_mem_set member with old | new
    · exact ih thread old
    · rw [new]
      exact call _ _ _ _ _ (ih _ (List.mem_of_getElem? found))

/-- Every call was allowed when it was made, given the calls before it. -/
def Chain (allowed : Op → List (Call Op Ans) → Prop) : List (Call Op Ans) → Prop
  | [] => True
  | call :: older => allowed call.op older ∧ Chain allowed older

theorem Chain.of_append {allowed : Op → List (Call Op Ans) → Prop}
    {newer older : List (Call Op Ans)} {call : Call Op Ans}
    (chain : Chain allowed (newer ++ call :: older)) : allowed call.op older := by
  induction newer with
  | nil => exact chain.1
  | cons _ newer ih => exact ih chain.2

/-- What the programs do by themselves, every thread has done so far, and does in the
program that is left. -/
theorem Reach.local {allowed : J → Op → List (Call Op Ans) → Prop}
    {Q : J → Option α → List (Call Op Ans) → Prop}
    (programs : ∀ job, (program job).wp (World.thread (allowed job)) (Q job) [])
    (reach : Reach W program passes init ok p) : ∀ thread ∈ p.threads,
      thread.rest.wp (World.thread (allowed thread.job)) (Q thread.job) thread.seen ∧
        Chain (allowed thread.job) thread.seen := by
  refine reach.forall_threads (I := fun thread =>
    thread.rest.wp (World.thread (allowed thread.job)) (Q thread.job) thread.seen ∧
      Chain (allowed thread.job) thread.seen) ?_ ?_
  · intro job
    exact ⟨programs job, trivial⟩
  · rintro job seen o next answer ⟨⟨permitted, rest⟩, chain⟩
    exact ⟨rest answer _ rfl, permitted, chain⟩

/-- A program that runs alone does what it does by itself. -/
theorem Exec.of_thread {allowed : Op → List (Call Op Ans) → Prop}
    {Q : Option α → List (Call Op Ans) → Prop} {rest : Prog Op Ans α} {s s' : σ × List (Call Op Ans)}
    {r : Option α} (exec : Prog.Exec W.traced rest s r s')
    (holds : rest.wp (World.thread allowed) Q s.2) (chain : Chain allowed s.2) :
    Q r s'.2 ∧ Chain allowed s'.2 := by
  induction exec with
  | pure value s => exact ⟨holds, chain⟩
  | abort s => exact ⟨holds, chain⟩
  | call step _ ih =>
    obtain ⟨permitted, later⟩ := holds
    exact ih (later _ _ step.2) (by rw [step.2]; exact ⟨permitted, chain⟩)

theorem of_thread {e : Event J Op Ans α σ} (happens : e.Happens W program)
    {allowed : Op → List (Call Op Ans) → Prop} {Q : Option α → List (Call Op Ans) → Prop}
    (holds : (program e.job).wp (World.thread allowed) Q []) :
    Q e.result e.calls ∧ Chain allowed e.calls :=
  Exec.of_thread happens holds trivial

/-- The calls of one thread in a history. -/
def callsOf (tid : Nat) (history : List (Entry J Op Ans σ)) : List (Call Op Ans) :=
  (history.filter fun e => e.tid == tid).map Entry.call

@[simp] theorem callsOf_append (tid : Nat) (newer older : List (Entry J Op Ans σ)) :
    callsOf tid (newer ++ older) = callsOf tid newer ++ callsOf tid older := by
  rw [callsOf, List.filter_append, List.map_append]
  rfl

theorem callsOf_cons_self (e : Entry J Op Ans σ) (older : List (Entry J Op Ans σ)) :
    callsOf e.tid (e :: older) = e.call :: callsOf e.tid older := by
  rw [callsOf, List.filter_cons_of_pos (by simp), List.map_cons]
  rfl

theorem callsOf_cons_ne {tid : Nat} {e : Entry J Op Ans σ} (other : e.tid ≠ tid)
    (older : List (Entry J Op Ans σ)) : callsOf tid (e :: older) = callsOf tid older := by
  rw [callsOf, List.filter_cons_of_neg (by simpa using other)]
  rfl

theorem mem_callsOf {tid : Nat} {history : List (Entry J Op Ans σ)} {call : Call Op Ans} :
    call ∈ callsOf tid history ↔ ∃ e ∈ history, e.tid = tid ∧ e.call = call := by
  simp [callsOf, and_assoc]

/-- A thread that has made a call after a given one has made a next one, and made it
knowing just that. -/
theorem Chain.next {allowed : Op → List (Call Op Ans) → Prop} {e : Entry J Op Ans σ}
    {newer older : List (Entry J Op Ans σ)}
    (chain : Chain allowed (callsOf e.tid (newer ++ e :: older)))
    (continued : ∃ x ∈ newer, x.tid = e.tid) :
    ∃ later x between, newer = later ++ x :: between ∧ x.tid = e.tid ∧
      allowed x.call.op (e.call :: callsOf e.tid older) := by
  induction newer with
  | nil =>
    obtain ⟨x, member, _⟩ := continued
    cases member
  | cons x newer ih =>
    by_cases earlier : ∃ y ∈ newer, y.tid = e.tid
    · have shorter : Chain allowed (callsOf e.tid (newer ++ e :: older)) := by
        by_cases own : x.tid = e.tid
        · rw [List.cons_append, ← own, callsOf_cons_self, own] at chain
          exact chain.2
        · rwa [List.cons_append, callsOf_cons_ne own] at chain
      obtain ⟨later, y, between, split, same, permitted⟩ := ih shorter earlier
      exact ⟨x :: later, y, between, by rw [split]; rfl, same, permitted⟩
    · -- No call in between: `x` is the next one.
      obtain ⟨y, member, same⟩ := continued
      have own : x.tid = e.tid := by
        rcases List.mem_cons.mp member with here | there
        · rw [← here, same]
        · exact absurd ⟨y, there, same⟩ earlier
      have silent : callsOf e.tid newer = [] := by
        rw [List.eq_nil_iff_forall_not_mem]
        intro call member
        obtain ⟨y, there, same, _⟩ := mem_callsOf.mp member
        exact earlier ⟨y, there, same⟩
      rw [List.cons_append, ← own, callsOf_cons_self, own, callsOf_append, silent,
        callsOf_cons_self] at chain
      exact ⟨[], x, newer, rfl, own, chain.1⟩

/-- The calls of a thread come from its own history, the jobs in the history are those
of the threads, and only threads that exist have made calls. -/
structure Coherent (p : Pool J Op Ans α σ) : Prop where
  seen : ∀ tid thread, p.threads[tid]? = some thread → thread.seen = callsOf tid p.history
  job : ∀ e ∈ p.history, ∃ thread, p.threads[e.tid]? = some thread ∧ thread.job = e.job

theorem Reach.coherent (reach : Reach W program passes init ok p) : p.Coherent := by
  induction reach with
  | start s initial => exact ⟨nofun, nofun⟩
  | @spawn p job _ _ ih =>
    refine ⟨fun tid thread found => ?_, fun e member => ?_⟩
    · by_cases old : tid < p.threads.length
      · have kept : p.threads[tid]? = some thread := by
          rwa [Pool.spawn, List.getElem?_append_left old] at found
        exact ih.seen tid thread kept
      · have new : thread = ⟨job, [], program job⟩ ∧ p.threads.length ≤ tid := by
          have place := found
          rw [Pool.spawn, List.getElem?_append_right (by omega)] at place
          exact ⟨(List.mem_singleton.mp (List.mem_of_getElem? place)), by omega⟩
        -- A thread that does not exist yet has made no calls.
        have none_ : callsOf tid p.history = [] := by
          rw [List.eq_nil_iff_forall_not_mem]
          intro call member
          obtain ⟨e, earlier, same, _⟩ := mem_callsOf.mp member
          obtain ⟨thread', existing, _⟩ := ih.job e earlier
          have := (List.getElem?_eq_some_iff.mp existing).1
          omega
        rw [new.1]
        exact none_.symm
    · obtain ⟨thread, existing, same⟩ := ih.job e member
      refine ⟨thread, ?_, same⟩
      have := (List.getElem?_eq_some_iff.mp existing).1
      rw [Pool.spawn, List.getElem?_append_left this]
      exact existing
  | pass _ _ _ ih => exact ⟨ih.seen, ih.job⟩
  | @call p tid job seen o next answer s' _ found _ _ ih =>
    have exists_ := (List.getElem?_eq_some_iff.mp found).1
    refine ⟨fun tid' thread found' => ?_, fun e member => ?_⟩
    · by_cases same : tid' = tid
      · subst same
        rw [called, List.getElem?_set_self exists_] at found'
        cases found'
        rw [called, callsOf_cons_self ⟨tid', job, ⟨o, answer⟩, p.state⟩, ← ih.seen _ _ found]
      · rw [called, List.getElem?_set_ne (Ne.symm same)] at found'
        rw [called, callsOf_cons_ne (Ne.symm same)]
        exact ih.seen tid' thread found'
    · -- The caller keeps its job.
      have keeps : ∀ (tid' : Nat) (job' : J),
          (∃ thread : Thread J Op Ans α, p.threads[tid']? = some thread ∧ thread.job = job') →
          ∃ thread : Thread J Op Ans α, (p.called tid job seen ⟨o, answer⟩ (next answer) s').threads[tid']? =
            some thread ∧ thread.job = job' := by
        rintro tid' job' ⟨thread, existing, same⟩
        by_cases here : tid' = tid
        · subst here
          rw [found] at existing
          cases existing
          exact ⟨_, List.getElem?_set_self exists_, same⟩
        · refine ⟨thread, ?_, same⟩
          rw [called, List.getElem?_set_ne (Ne.symm here)]
          exact existing
      apply keeps
      rcases List.mem_cons.mp member with new | earlier
      · rw [new]
        exact ⟨_, found, rfl⟩
      · exact ih.job e earlier

/-! ## The pool a call was made in -/

/-- The pool before a call of the history is reached too, and the call was one of its
next actions. -/
theorem Reach.at_entry {newer older : List (Entry J Op Ans σ)} {e : Entry J Op Ans σ}
    (reach : Reach W program passes init ok p) (split : p.history = newer ++ e :: older) :
    ∃ p' : Pool J Op Ans α σ, Reach W program passes init ok p' ∧ p'.state = e.before ∧
      p'.history = older ∧ ok p' (.call e.tid e.job e.call) ∧
        ∃ s', W.step e.call.op e.before e.call.ans s' := by
  induction reach generalizing newer with
  | start s initial => simp at split
  | spawn job _ _ ih => exact ih split
  | pass _ _ _ ih => exact ih split
  | @call p tid job seen o next answer s' earlier _ step meets ih =>
    cases newer with
    | nil =>
      obtain ⟨rfl, rfl⟩ := List.cons.inj split
      exact ⟨p, earlier, rfl, rfl, meets, s', step⟩
    | cons _ newer => exact ih (List.cons.inj split).2

/-! ## The shared state over time -/

/-- What a call establishes and every later call keeps holds now. -/
theorem Reach.since {I : σ → Prop} {newer older : List (Entry J Op Ans σ)}
    {e : Entry J Op Ans σ} (reach : Reach W program passes init ok p)
    (split : p.history = newer ++ e :: older)
    (establishes : ∀ s', W.step e.call.op e.before e.call.ans s' → I s')
    (keeps : ∀ x ∈ newer, ∀ s s', I s → W.step x.call.op s x.call.ans s' → I s')
    (lasts : ∀ s s', passes s s' → I s → I s') : I p.state := by
  induction reach generalizing newer with
  | start s initial => simp at split
  | spawn job _ _ ih => exact ih split keeps
  | pass _ passed _ ih => exact lasts _ _ passed (ih split keeps)
  | call _ _ step _ ih =>
    cases newer with
    | nil =>
      obtain ⟨rfl, rfl⟩ := List.cons.inj split
      exact establishes _ step
    | cons x newer =>
      obtain ⟨rfl, split'⟩ := List.cons.inj split
      have held := ih split' fun x member => keeps x (List.mem_cons_of_mem _ member)
      exact keeps _ List.mem_cons_self _ _ held step

/-- What holds now and did not hold at first was made by some call, and no later call
made it anew. -/
theorem Reach.origin {I : σ → Prop} {makes remakes : Op → Prop}
    (reach : Reach W program passes init ok p) (absent : ∀ s, init s → ¬ I s)
    (made : ∀ o s answer s', W.step o s answer s' → I s' → makes o ∨ I s ∧ ¬ remakes o)
    (lasts : ∀ s s', passes s s' → I s' → I s) (holds : I p.state) :
    ∃ newer e older, p.history = newer ++ e :: older ∧ makes e.call.op ∧
      ∀ x ∈ newer, ¬ remakes x.call.op := by
  induction reach with
  | start s initial => exact absurd holds (absent s initial)
  | spawn job _ _ ih => exact ih holds
  | pass _ passed _ ih => exact ih (lasts _ _ passed holds)
  | @call p tid job seen o next answer s' _ _ step _ ih =>
    rcases made o _ _ _ step holds with makes | ⟨before, fresh⟩
    · exact ⟨[], ⟨tid, job, ⟨o, answer⟩, p.state⟩, p.history, rfl, makes, nofun⟩
    · obtain ⟨newer, e, older, split, makes, since⟩ := ih before
      refine ⟨⟨tid, job, ⟨o, answer⟩, p.state⟩ :: newer, e, older, ?_, makes, ?_⟩
      · rw [called, split]
        rfl
      · intro x member
        rcases List.mem_cons.mp member with new | earlier
        · rw [new]
          exact fresh
        · exact since x earlier

end Reach

/-! ## Playing a schedule -/

/-- The state changes by itself to `elapse t`, for some `t` it may. -/
def Elapses (may : τ → σ → Prop) (elapse : τ → σ → σ) (s s' : σ) : Prop :=
  ∃ t, may t s ∧ s' = elapse t s

/-- The next scheduling decision, with what a call takes from outside. -/
inductive Choice (J : Type) (τ ε : Type*) where
  | spawn (job : J)
  | pass (t : τ)
  | step (tid : Nat) (e : ε)

section Play

variable (exec : (o : Op) → ε → σ → Ans o × σ) (permit : Op → ε → σ → Prop)
variable (program : J → Prog Op Ans α) (may : τ → σ → Prop) (elapse : τ → σ → σ)
variable (ok : Pool J Op Ans α σ → Action J Op Ans σ → Prop)

/-- A thread makes its next call.  One that has ended does nothing. -/
def advance (p : Pool J Op Ans α σ) (tid : Nat) (job : J) (seen : List (Call Op Ans)) (e : ε) :
    Prog Op Ans α → Pool J Op Ans α σ
  | .call o next =>
    let (answer, s') := exec o e p.state
    p.called tid job seen ⟨o, answer⟩ (next answer) s'
  | .pure _ | .abort => p

/-- The pool after a decision. -/
def next (p : Pool J Op Ans α σ) : Choice J τ ε → Pool J Op Ans α σ
  | .spawn job => p.spawn program job
  | .pass t => { p with state := elapse t p.state }
  | .step tid e =>
    match p.threads[tid]? with
    | some thread => p.advance exec tid thread.job thread.seen e thread.rest
    | none => p

/-- The next call of a thread is permitted and satisfies `ok`. -/
def Advances (p : Pool J Op Ans α σ) (tid : Nat) (job : J) (e : ε) : Prog Op Ans α → Prop
  | .call o _ => permit o e p.state ∧ ok p (.call tid job ⟨o, (exec o e p.state).1⟩)
  | .pure _ | .abort => True

instance Advances.decidable [∀ o e s, Decidable (permit o e s)]
    [∀ p action, Decidable (ok p action)] (p : Pool J Op Ans α σ) (tid : Nat) (job : J) (e : ε) :
    (rest : Prog Op Ans α) → Decidable (Advances exec permit ok p tid job e rest)
  | .call _ _ => inferInstanceAs (Decidable (_ ∧ _))
  | .pure _ | .abort => .isTrue trivial

/-- The decision is permitted and satisfies `ok`. -/
def Meets (p : Pool J Op Ans α σ) : Choice J τ ε → Prop
  | .spawn job => ok p (.spawn job)
  | .pass t => may t p.state ∧ ok p (.pass (elapse t p.state))
  | .step tid e =>
    ∀ thread ∈ p.threads[tid]?, Advances exec permit ok p tid thread.job e thread.rest

instance Meets.decidable [∀ o e s, Decidable (permit o e s)] [∀ t s, Decidable (may t s)]
    [∀ p action, Decidable (ok p action)] (p : Pool J Op Ans α σ) :
    (choice : Choice J τ ε) → Decidable (Meets exec permit may elapse ok p choice)
  | .spawn job => inferInstanceAs (Decidable (ok p (.spawn job)))
  | .pass t => inferInstanceAs (Decidable (may t p.state ∧ ok p (.pass (elapse t p.state))))
  | .step tid e =>
    inferInstanceAs (Decidable (∀ thread ∈ p.threads[tid]?,
      Advances exec permit ok p tid thread.job e thread.rest))

def play : List (Choice J τ ε) → Pool J Op Ans α σ → Pool J Op Ans α σ
  | [], p => p
  | choice :: choices, p => play choices (next exec program elapse p choice)

/-- Every decision of the schedule is permitted and satisfies `ok`. -/
def Plays : List (Choice J τ ε) → Pool J Op Ans α σ → Prop
  | [], _ => True
  | choice :: choices, p =>
    Meets exec permit may elapse ok p choice ∧ Plays choices (next exec program elapse p choice)

instance Plays.decidable [∀ o e s, Decidable (permit o e s)] [∀ t s, Decidable (may t s)]
    [∀ p action, Decidable (ok p action)] :
    (choices : List (Choice J τ ε)) → (p : Pool J Op Ans α σ) →
      Decidable (Plays exec permit program may elapse ok choices p)
  | [], _ => .isTrue trivial
  | choice :: choices, p =>
    have := Plays.decidable choices (next exec program elapse p choice)
    inferInstanceAs (Decidable (_ ∧ _))

variable {exec permit program may elapse ok} {init : σ → Prop}

theorem Reach.next {p : Pool J Op Ans α σ} {choice : Choice J τ ε}
    (reach : Reach (World.ofExec exec permit) program (Elapses may elapse) init ok p)
    (meets : Meets exec permit may elapse ok p choice) :
    Reach (World.ofExec exec permit) program (Elapses may elapse) init ok
      (p.next exec program elapse choice) := by
  cases choice with
  | spawn job => exact .spawn job reach meets
  | pass t => exact .pass reach ⟨t, meets.1, rfl⟩ meets.2
  | step tid e =>
    cases found : p.threads[tid]? with
    | none =>
      simp only [Pool.next, found]
      exact reach
    | some thread =>
      have advances := meets thread found
      obtain ⟨job, seen, rest⟩ := thread
      simp only [Pool.next, found]
      cases rest with
      | pure value => exact reach
      | abort => exact reach
      | call o next => exact .call reach found ⟨e, advances.1, rfl⟩ advances.2

theorem Reach.play (choices : List (Choice J τ ε)) {p : Pool J Op Ans α σ}
    (reach : Reach (World.ofExec exec permit) program (Elapses may elapse) init ok p)
    (plays : Plays exec permit program may elapse ok choices p) :
    Reach (World.ofExec exec permit) program (Elapses may elapse) init ok
      (p.play exec program elapse choices) := by
  induction choices generalizing p with
  | nil => exact reach
  | cons choice choices ih => exact ih (reach.next plays.1) plays.2

/-- A schedule that meets more also meets less. -/
theorem Plays.weaken {ok' : Pool J Op Ans α σ → Action J Op Ans σ → Prop}
    (weaker : ∀ p action, ok p action → ok' p action) {choices : List (Choice J τ ε)}
    {p : Pool J Op Ans α σ} (plays : Plays exec permit program may elapse ok choices p) :
    Plays exec permit program may elapse ok' choices p := by
  induction choices generalizing p with
  | nil => trivial
  | cons choice choices ih =>
    refine ⟨?_, ih plays.2⟩
    cases choice with
    | spawn job => exact weaker _ _ plays.1
    | pass t => exact ⟨plays.1.1, weaker _ _ plays.1.2⟩
    | step tid e =>
      intro thread found
      have advances := plays.1 thread found
      cases rest : thread.rest with
      | pure value => trivial
      | abort => trivial
      | call o next =>
        rw [rest] at advances
        exact ⟨advances.1, weaker _ _ advances.2⟩

end Play

end Pool

end Pomade.Lib
