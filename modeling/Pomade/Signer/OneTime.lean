import Pomade.Signer.Footprint
import Pomade.Signer.Pools
import Pomade.Signer.Sample

/-! # One-time passwords are used once

A request that finds the one-time password it presents deletes it with its very next
call.  Two requests that both find it before either has deleted it are both let in, and
there is no other way to use a password twice.  Everything but the last section is about
both signers.
-/

namespace Pomade.Signer

open Pomade.Lib Pomade.Frost Coll

variable {A : Type}

/-! ## The history of a password -/

def Op.storesPassword (emailHash : Str) : Op → Bool
  | .set .challenges key _ => key == emailHash
  | _ => false

def Op.deletesPassword (emailHash : Str) : Op → Bool
  | .delete .challenges key => key == emailHash
  | _ => false

/-- The place in the history at which the password was stored that is kept under an email
hash now. -/
def storedAt (emailHash : Str) : List (SignerEntry A) → Option Nat
  | [] => none
  | e :: older =>
    if e.call.op.storesPassword emailHash then some older.length
    else if e.call.op.deletesPassword emailHash then none
    else storedAt emailHash older

/-- The email hash whose password is found to be the one that the request presents. -/
def accepts (presents : Job A → Option (Str × Str)) (job : Job A) : SignerCall → Option Str
  | ⟨.get .challenges emailHash, some challenge⟩ =>
    if presents job = some (emailHash, challenge.otp) then some emailHash else none
  | _ => none

/-- The requests that have found the password stored last to be the one they present, and
have made no call since. -/
def readers (presents : Job A → Option (Str × Str)) (emailHash : Str) :
    List (SignerEntry A) → List Nat
  | [] => []
  | e :: older =>
    if accepts presents e.job e.call = some emailHash then e.tid :: readers presents emailHash older
    else if e.call.op.storesPassword emailHash then []
    else (readers presents emailHash older).filter fun tid => tid ≠ e.tid

/-- A request finds the password it presents while no other one that has found it is yet
to delete it. -/
def OneReader (presents : Job A → Option (Str × Str)) (p : SignerPool A) :
    SignerAction A → Prop
  | .call _ job call =>
    ∀ emailHash ∈ accepts presents job call, readers presents emailHash p.history = []
  | .spawn _ | .pass _ => True

instance (presents : Job A → Option (Str × Str)) (p : SignerPool A) :
    (action : SignerAction A) → Decidable (OneReader presents p action)
  | .call _ job call =>
    inferInstanceAs (Decidable (∀ emailHash ∈ accepts presents job call,
      readers presents emailHash p.history = []))
  | .spawn _ | .pass _ => .isTrue trivial

/-- A request is answered with success after it has found the password it presents to be
the one stored at a place in the history. -/
structure Authenticates (presents : Job A → Option (Str × Str)) (p : SignerPool A) (tid : Nat)
    (emailHash : Str) (place : Nat) : Prop where
  succeeds : ∃ thread response,
    p.threads[tid]? = some thread ∧ answered thread.rest = some response ∧ response.ok = true
  accepted : ∃ newer e older, p.history = newer ++ e :: older ∧ e.tid = tid ∧
    accepts presents e.job e.call = some emailHash ∧ storedAt emailHash older = some place

/-- Every password that was ever stored authenticates at most one request. -/
def SingleUse (presents : Job A → Option (Str × Str)) (p : SignerPool A) : Prop :=
  ∀ emailHash place tid tid', Authenticates presents p tid emailHash place →
    Authenticates presents p tid' emailHash place → tid = tid'

/-! ## Places -/

section Places

variable {presents : Job A → Option (Str × Str)} {emailHash : Str} {place : Nat}
variable {history newer older : List (SignerEntry A)} {e : SignerEntry A}

theorem storedAt_lt (stored : storedAt emailHash history = some place) :
    place < history.length := by
  induction history with
  | nil => cases stored
  | cons e older ih =>
    rw [storedAt] at stored
    split at stored
    · cases stored
      simp
    · split at stored
      · cases stored
      · have := ih stored
        simp only [List.length_cons]
        omega

/-- What is stored after a deletion was stored after it. -/
theorem storedAt_of_deleted (deleted : e.call.op.deletesPassword emailHash = true)
    (stored : storedAt emailHash (newer ++ e :: older) = some place) : older.length < place := by
  induction newer with
  | nil =>
    have unset : e.call.op.storesPassword emailHash = false := by
      unfold Op.deletesPassword at deleted
      split at deleted
      next op => rw [op]; rfl
      · cases deleted
    rw [List.nil_append, storedAt, if_neg (by simp [unset]), if_pos deleted] at stored
    cases stored
  | cons x newer ih =>
    rw [List.cons_append, storedAt] at stored
    split at stored
    · cases stored
      simp only [List.length_append, List.length_cons]
      omega
    · split at stored
      · cases stored
      · exact ih stored

/-- As long as the password is the same, a request that has accepted it and made no call
since is one of its readers. -/
theorem mem_readers (accepted : accepts presents e.job e.call = some emailHash)
    (before : storedAt emailHash older = some place)
    (now_ : storedAt emailHash (newer ++ e :: older) = some place)
    (idle : ∀ x ∈ newer, x.tid ≠ e.tid) :
    e.tid ∈ readers presents emailHash (newer ++ e :: older) := by
  induction newer with
  | nil =>
    rw [List.nil_append, readers, if_pos accepted]
    exact List.mem_cons_self
  | cons x newer ih =>
    have earlier := storedAt_lt before
    rw [List.cons_append, storedAt] at now_
    split at now_
    · -- A password stored later has another place.
      cases now_
      simp only [List.length_append, List.length_cons] at earlier
      omega
    next unset =>
      split at now_
      · cases now_
      have reader := ih now_ fun y member => idle y (List.mem_cons_of_mem _ member)
      rw [List.cons_append, readers]
      split
      · exact List.mem_cons_of_mem _ reader
      · apply List.mem_filter.mpr
        exact ⟨reader, by simpa using (idle x List.mem_cons_self).symm⟩

/-- The same, by a place in the history that can be evaluated. -/
theorem Authenticates.of_getElem {p : SignerPool A} {tid : Nat} (n : Nat)
    (succeeds : ∃ thread ∈ p.threads[tid]?, ∃ response ∈ answered thread.rest,
      response.ok = true)
    (accepted : ∃ e ∈ p.history[n]?, e.tid = tid ∧
      accepts presents e.job e.call = some emailHash ∧
        storedAt emailHash (p.history.drop (n + 1)) = some place) :
    Authenticates presents p tid emailHash place := by
  obtain ⟨thread, found, response, finished, fine⟩ := succeeds
  obtain ⟨e, here, same, accepts, stored⟩ := accepted
  refine ⟨⟨thread, response, found, finished, fine⟩, ?_⟩
  obtain ⟨inside, entry⟩ := List.getElem?_eq_some_iff.mp here
  refine ⟨p.history.take n, e, p.history.drop (n + 1), ?_, same, accepts, stored⟩
  rw [← entry, List.getElem_cons_drop, List.take_append_drop]

end Places

/-! ## Accepting and deleting -/

/-- The email hash of the password that was found by the newest call. -/
def holding : List SignerCall → Option Str
  | ⟨.get .challenges emailHash, some _⟩ :: _ => some emailHash
  | _ => none

/-- A password that was found is deleted by the next call. -/
def DeletesNext (o : Op) (seen : List SignerCall) : Prop :=
  ∀ emailHash ∈ holding seen, o = .delete .challenges emailHash

theorem holding_of_accepts {presents : Job A → Option (Str × Str)} {job : Job A}
    {call : SignerCall} {emailHash : Str} {seen : List SignerCall}
    (accepted : accepts presents job call = some emailHash) :
    holding (call :: seen) = some emailHash := by
  unfold accepts at accepted
  split at accepted
  · split at accepted
    · cases accepted
      rfl
    · cases accepted
  · cases accepted

/-! ## What a request does with a password -/

/-- The credentials of a request for a new login or recovery. -/
def Job.startAuth : Job A → Option A
  | .request (some _) (.body (.loginStart data)) => some data.auth
  | .request (some _) (.body (.recoveryStart data)) => some data.auth
  | _ => none

def Auth.presents : Auth → Option (Str × Str)
  | .password _ _ => none
  | .otp emailHash code => some (emailHash, code)

/-- The email hash and the one-time password that a request presents. -/
def presents (job : Job Auth) : Option (Str × Str) := job.startAuth.bind Auth.presents

/-- The password presented is one that was found. -/
def Found (presented : Option (Str × Str)) (seen : List SignerCall) : Prop :=
  ∀ emailHash otp, presented = some (emailHash, otp) →
    ∃ challenge : SignerChallenge, ⟨.get .challenges emailHash, some challenge⟩ ∈ seen ∧
      challenge.otp = otp

theorem Found.mono {presented : Option (Str × Str)} {seen seen' : List SignerCall}
    (found : Found presented seen) (longer : seen <:+ seen') : Found presented seen' := by
  intro emailHash otp same
  obtain ⟨challenge, member, equal⟩ := found emailHash otp same
  exact ⟨challenge, longer.subset member, equal⟩

/-- A request that succeeds has found the password it presents. -/
def Succeeds (presented : Option (Str × Str)) (r : Option Response) (seen : List SignerCall) :
    Prop :=
  ∀ response, r = some response → response.ok = true → Found presented seen

theorem Succeeds.of_none {r : Option Response} {seen : List SignerCall} :
    Succeeds none r seen := by
  intro _ _ _ emailHash otp same
  cases same

theorem Succeeds.stopped {presented : Option (Str × Str)} {seen : List SignerCall} :
    Succeeds presented none seen := by
  intro response same
  cases same

/-- A request that is refused. -/
theorem Succeeds.refuse {presented : Option (Str × Str)} {message : String}
    {seen : List SignerCall} : Succeeds presented (some (refuse message)) seen := by
  intro response same ok
  cases same
  cases ok

/-- Sessions are only found for a password that was found. -/
def FindsSessions (presented : Option (Str × Str)) (found : Option (List SignerSession))
    (seen : List SignerCall) : Prop :=
  ∀ sessions, found = some sessions → sessions ≠ [] → Found presented seen

theorem FindsSessions.nil {presented : Option (Str × Str)} {seen : List SignerCall} :
    FindsSessions presented (some []) seen := by
  intro sessions same nonempty
  cases same
  exact absurd rfl nonempty

theorem FindsSessions.of_none {found : Option (List SignerSession)} {seen : List SignerCall} :
    FindsSessions none found seen := by
  intro _ _ _ emailHash otp same
  cases same

theorem FindsSessions.stopped {presented : Option (Str × Str)} {seen : List SignerCall} :
    FindsSessions presented none seen := by
  intro sessions same
  cases same

section Threads

variable (writes : List Coll) {seen : List SignerCall} {α : Type}

/-- What a thread knows after a stretch that finds no password. -/
abbrev Continues (seen seen' : List SignerCall) : Prop := holding seen' = none ∧ seen <:+ seen'

theorem wp_within {p : SignerProg α} (within : p.Only (Op.Within writes))
    (settled : holding seen = none) :
    p.wp (World.thread DeletesNext) (fun _ => Continues seen) seen := by
  induction p generalizing seen with
  | pure value => exact ⟨settled, List.suffix_refl seen⟩
  | abort => exact ⟨settled, List.suffix_refl seen⟩
  | call o next ih =>
    refine ⟨?_, ?_⟩
    · intro emailHash held
      rw [settled] at held
      cases held
    rintro answer _ rfl
    have still : holding (⟨o, answer⟩ :: seen) = none := by
      cases o with
      | get c key =>
        cases c
        case challenges => exact absurd rfl within.1
        all_goals rfl
      | _ => rfl
    refine Prog.wp_mono ?_ _ _ (ih answer (within.2 answer) still)
    rintro _ seen' ⟨settled', longer⟩
    exact ⟨settled', (List.suffix_cons _ _).trans longer⟩

/-- A stretch that finds no password, before the rest. -/
theorem wp_within_bind {β : Type} {p : SignerProg α} {f : α → SignerProg β}
    {Q : Option β → List SignerCall → Prop} (within : p.Only (Op.Within writes))
    (settled : holding seen = none)
    (rest : ∀ value seen', Continues seen seen' →
      (f value).wp (World.thread DeletesNext) Q seen')
    (stop : ∀ seen', Continues seen seen' → Q none seen') :
    (p >>= f).wp (World.thread DeletesNext) Q seen :=
  Prog.wp_seq (wp_within writes within settled) rest stop

/-- A request that presents no password. -/
theorem wp_succeeds_of_within {p : SignerProg Response} (within : p.Only (Op.Within writes))
    (settled : holding seen = none) :
    p.wp (World.thread DeletesNext) (Succeeds none) seen :=
  Prog.wp_mono (fun _ _ _ => Succeeds.of_none) _ _ (wp_within writes within settled)

/-- Reading a password, deleting it and going on. -/
theorem wp_takePassword {emailHash : Str} {f : Option SignerChallenge → SignerProg α}
    {g : SignerChallenge → SignerProg α} {Q : Option α → List SignerCall → Prop}
    (settled : holding seen = none)
    (takes : ∀ challenge, f (some challenge) = challenges.delete emailHash >>= fun _ => g challenge)
    (missing : ∀ seen', Continues seen seen' → (f none).wp (World.thread DeletesNext) Q seen')
    (found : ∀ challenge seen', Continues seen seen' →
      ⟨.get .challenges emailHash, some challenge⟩ ∈ seen' →
      (g challenge).wp (World.thread DeletesNext) Q seen') :
    (challenges.get emailHash >>= f).wp (World.thread DeletesNext) Q seen := by
  rw [Prog.wp_op_bind]
  refine ⟨?_, ?_⟩
  · intro emailHash held
    rw [settled] at held
    cases held
  rintro answer _ rfl
  cases answer with
  | none => exact missing _ ⟨rfl, List.suffix_cons _ _⟩
  | some challenge =>
    rw [takes, Prog.wp_op_bind]
    refine ⟨?_, ?_⟩
    · intro emailHash held
      cases held
      rfl
    rintro deleted _ rfl
    apply found challenge
    · exact ⟨rfl, (List.suffix_cons _ _).trans (List.suffix_cons _ _)⟩
    · simp

/-- The common body of the start requests, given how the sessions are found. -/
theorem wp_start {presented : Option (Str × Str)} {client : Str}
    {find : SignerProg (List SignerSession)} (record : Nat → List Str → SignerProg Unit)
    {success : String} {payload : List SignerSession → Payload}
    (finds : ∀ seen, holding seen = none → find.wp (World.thread DeletesNext)
      (fun found seen' => holding seen' = none ∧ FindsSessions presented found seen') seen)
    (records : ∀ createdAt clients, (record createdAt clients).Only (Op.Within writes))
    (settled : holding seen = none) :
    (do
      if ← checkKeyReuse client then return refuse "Do not re-use session keys."
      let found ← find
      if found.isEmpty then return refuse "No sessions found."
      let createdAt ← now
      record createdAt (found.map (·.client))
      return accept success (payload found) : SignerProg Response).wp (World.thread DeletesNext)
        (Succeeds presented) seen := by
  refine wp_within_bind [] (within_checkKeyReuse client) settled ?_ fun _ _ => .stopped
  intro reused seen₁ continues
  split
  · exact .refuse
  refine Prog.wp_seq (finds seen₁ continues.1) ?_ fun _ _ => .stopped
  rintro found seen₂ ⟨settled, finds⟩
  split
  · exact .refuse
  next nonempty =>
    have some_ : found ≠ [] := fun empty => nonempty (List.isEmpty_iff.mpr empty)
    refine wp_within_bind [] (Prog.only_op.mpr trivial) settled ?_ fun _ _ => .stopped
    intro createdAt seen₃ continues
    have longer := continues.2
    refine wp_within_bind writes (records createdAt _) continues.1 ?_ fun _ _ => .stopped
    intro _ seen₄ continues response _ _
    exact (finds found rfl some_).mono (longer.trans continues.2)

end Threads

section Pools

variable {W : World Op Ans State} {program : Job A → SignerProg Response}
variable {passes : State → State → Prop} {init : State → Prop}
variable {presents : Job A → Option (Str × Str)} {p : SignerPool A}
variable {Q : Job A → Option Response → List SignerCall → Prop}

/-- If two requests accept the same password, the newer one does so while the older one
is a reader. -/
theorem single_use
    (programs : ∀ job, (program job).wp (World.thread DeletesNext) (Q job) [])
    (reach : Pool.Reach W program passes init (OneReader presents) p) : SingleUse presents p := by
  -- Two entries that accept the same password, the newer one first.
  have ordered : ∀ newer e mid e' older (emailHash : Str) place,
      p.history = newer ++ e :: (mid ++ e' :: older) →
      accepts presents e.job e.call = some emailHash →
      accepts presents e'.job e'.call = some emailHash →
      storedAt emailHash (mid ++ e' :: older) = some place →
      storedAt emailHash older = some place → False := by
    intro newer e mid e' older emailHash place split accepted accepted' stored stored'
    obtain ⟨before, earlier, _, history, alone, _⟩ := reach.at_entry split
    have free : readers presents emailHash (mid ++ e' :: older) = [] := by
      rw [← history]
      exact alone emailHash accepted
    have continued : ∃ x ∈ mid, x.tid = e'.tid := by
      by_contra idle
      simp only [not_exists, not_and] at idle
      have reader := mem_readers accepted' stored' stored idle
      rw [free] at reader
      cases reader
    have chain : Pool.Chain DeletesNext (Pool.callsOf e'.tid before.history) := by
      obtain ⟨thread, found, _⟩ := earlier.coherent.job e' (by rw [history]; simp)
      have threads := earlier.local programs
      rw [← earlier.coherent.seen _ _ found]
      exact (threads thread (List.mem_of_getElem? found)).2
    rw [history] at chain
    obtain ⟨later, x, between, mid_, _, deletes⟩ := Pool.Chain.next chain continued
    have deleted : x.call.op.deletesPassword emailHash = true := by
      rw [deletes emailHash (holding_of_accepts accepted')]
      simp [Op.deletesPassword]
    rw [mid_, List.append_assoc] at stored
    have after : (between ++ e' :: older).length < place := storedAt_of_deleted deleted stored
    have before := storedAt_lt stored'
    simp only [List.length_append, List.length_cons] at after
    omega
  intro emailHash place tid tid' first second
  obtain ⟨newer, e, older, split, rfl, accepted, stored⟩ := first.accepted
  obtain ⟨newer', e', older', split', rfl, accepted', stored'⟩ := second.accepted
  rcases List.append_eq_append_iff.mp (split.symm.trans split') with
    ⟨mid, rest, tail⟩ | ⟨mid, rest, tail⟩
  · cases mid with
    | nil =>
      obtain ⟨rfl, _⟩ := List.cons.inj tail
      rfl
    | cons x mid =>
      obtain ⟨rfl, rfl⟩ := List.cons.inj tail
      exact (ordered _ _ _ _ _ _ _ split accepted accepted' stored stored').elim
  · cases mid with
    | nil =>
      obtain ⟨rfl, _⟩ := List.cons.inj tail
      rfl
    | cons x mid =>
      obtain ⟨rfl, rfl⟩ := List.cons.inj tail
      exact (ordered _ _ _ _ _ _ _ split' accepted' accepted stored' stored).elim

/-! ### Successful requests -/

variable {signing : SigningFn} {R : Nat → Nat → Prop}
variable {ok : SignerPool A → SignerAction A → Prop}

/-- A password that is in the store was stored in the run. -/
theorem storedAt_of_get
    (reach : Pool.Reach (world signing R) program (TimePasses R) Opened ok p) (emailHash : Str)
    (kept : p.state.challenges.get emailHash ≠ none) : storedAt emailHash p.history ≠ none := by
  induction reach with
  | start s initial =>
    obtain ⟨clock, rfl⟩ := initial
    exact absurd (Table.get_empty emailHash) kept
  | spawn _ _ _ ih => exact ih kept
  | pass _ passed _ ih =>
    obtain ⟨time, _, same⟩ := passed
    rw [same] at kept
    exact ih kept
  | @call p tid job seen o next answer s' _ _ step _ ih =>
    rw [Pool.called, storedAt]
    split
    · simp
    next unset =>
      split
      next deleted =>
        -- Nothing is left under the email hash.
        exfalso
        have call : o = .delete .challenges emailHash := by
          dsimp only at deleted
          unfold Op.deletesPassword at deleted
          split at deleted
          · rw [beq_iff_eq.mp deleted]
          · cases deleted
        subst call
        obtain ⟨_, same⟩ := step_delete.mp step
        apply kept
        show s'.challenges.get emailHash = none
        rw [same]
        exact Table.get_delete_self _ _
      next undeleted =>
        apply ih
        have same : (s'.table challenges).get emailHash = (p.state.table challenges).get emailHash := by
          refine get_of_step ?_ ?_ step
          · rintro value rfl
            simp [Op.storesPassword] at unset
          · rintro rfl
            simp [Op.deletesPassword] at undeleted
        exact fun gone => kept (same.trans gone)

/-- A request that succeeds with a password is authenticated by a stored one. -/
theorem authenticates_of_ok
    (programs : ∀ job, (program job).wp (World.thread DeletesNext) (Succeeds (presents job)) [])
    (reach : Pool.Reach (world signing R) program (TimePasses R) Opened ok p) {tid : Nat}
    {thread : Thread (Job A) Op Ans Response} {response : Response} {emailHash otp : Str}
    (found : p.threads[tid]? = some thread) (finished : answered thread.rest = some response)
    (succeeds : response.ok = true) (presented : presents thread.job = some (emailHash, otp)) :
    ∃ place, Authenticates presents p tid emailHash place := by
  have returned : thread.rest = .pure response := by
    unfold answered at finished
    split at finished
    next value same =>
      cases finished
      exact same
    · cases finished
  have outcome := (reach.local programs thread (List.mem_of_getElem? found)).1
  rw [returned] at outcome
  obtain ⟨challenge, member, equal⟩ := outcome response rfl succeeds emailHash otp presented
  rw [reach.coherent.seen tid thread found] at member
  obtain ⟨e, entry, same, call⟩ := Pool.mem_callsOf.mp member
  obtain ⟨newer, older, split⟩ := List.append_of_mem entry
  obtain ⟨before, earlier, state, history, _, s', step⟩ := reach.at_entry split
  have job : e.job = thread.job := by
    obtain ⟨thread', found', job⟩ := reach.coherent.job e entry
    rw [same, found] at found'
    cases found'
    exact job.symm
  rw [call] at step
  have stored : storedAt emailHash older ≠ none := by
    rw [← history]
    apply storedAt_of_get earlier
    rw [state]
    exact fun gone => by
      have answer : some challenge = e.before.challenges.get emailHash := (step_get.mp step).1
      rw [gone] at answer
      cases answer
  obtain ⟨place, at_⟩ := Option.ne_none_iff_exists'.mp stored
  refine ⟨place, ⟨thread, response, found, finished, succeeds⟩, ?_⟩
  refine ⟨newer, e, older, split, same, ?_, at_⟩
  rw [call, job]
  show (if presents thread.job = some (emailHash, challenge.otp) then some emailHash else none) = _
  rw [if_pos (by rw [presented, equal])]

end Pools

/-! ## The Rust signer -/

section Rust

variable {seen : List SignerCall}

theorem evaluateAuth_thread (auth : Auth) (index : Option SessionIndex)
    (settled : holding seen = none) :
    (evaluateAuth auth index).wp (World.thread DeletesNext)
      (fun found seen' => holding seen' = none ∧ FindsSessions auth.presents found seen') seen := by
  unfold evaluateAuth
  cases index with
  | none => exact ⟨settled, .nil⟩
  | some index =>
    cases auth with
    | password emailHash passwordHash =>
      refine wp_within_bind [] (within_indexedSessions index) settled ?_ ?_
      · intro stored seen' continues
        exact ⟨continues.1, .of_none⟩
      · intro seen' continues
        exact ⟨continues.1, .stopped⟩
    | otp emailHash otp =>
      refine wp_takePassword settled (fun _ => rfl) ?_ ?_
      · intro seen' continues
        exact ⟨continues.1, .nil⟩
      · intro challenge seen' continues member
        split
        next same =>
          refine Prog.wp_mono ?_ _ _
            (wp_within [] (within_indexedSessions index) continues.1)
          rintro found seen'' ⟨settled', longer⟩
          refine ⟨settled', fun sessions _ _ => ?_⟩
          rintro _ _ ⟨⟩
          refine ⟨challenge, longer.subset member, ?_⟩
          simp only [ctStrEq, Bool.and_eq_true, beq_iff_eq] at same
          exact same.2.symm
        · exact ⟨continues.1, .nil⟩

theorem getAuthenticatedSessions_thread (auth : Auth) (settled : holding seen = none) :
    (getAuthenticatedSessions auth).wp (World.thread DeletesNext)
      (fun found seen' => holding seen' = none ∧ FindsSessions auth.presents found seen') seen := by
  unfold getAuthenticatedSessions
  refine wp_within_bind [] (Prog.only_op.mpr nofun) settled ?_ ?_
  · intro bucket seen₁ continues
    refine wp_within_bind [] (within_isRateLimited bucket _) continues.1 ?_ ?_
    · intro limited seen₂ continues
      split
      · exact ⟨continues.1, .nil⟩
      refine wp_within_bind [] (Prog.only_op.mpr nofun) continues.1 ?_ ?_
      · intro index seen₃ continues
        refine Prog.wp_seq (evaluateAuth_thread auth index continues.1) ?_ ?_
        · rintro found seen₄ ⟨settled, finds⟩
          split
          next empty =>
            -- A failed evaluation is recorded; no session is returned.
            have none_ : found = [] := List.isEmpty_iff.mp empty
            subst none_
            refine wp_within_bind [] (within_recordAttempt _ _) settled ?_ ?_
            · intro attempt seen₅ continues
              refine wp_within_bind [rateLimitByEmailHash]
                (Prog.only_op.mpr (within_set (by decide))) continues.1 ?_ ?_
              · intro _ seen₆ continues
                exact ⟨continues.1, .nil⟩
              · intro seen₆ continues
                exact ⟨continues.1, .stopped⟩
            · intro seen₅ continues
              exact ⟨continues.1, .stopped⟩
          · exact ⟨settled, finds⟩
        · rintro seen₄ ⟨settled, _⟩
          exact ⟨settled, .stopped⟩
      · intro seen₃ continues
        exact ⟨continues.1, .stopped⟩
    · intro seen₂ continues
      exact ⟨continues.1, .stopped⟩
  · intro seen₁ continues
    exact ⟨continues.1, .stopped⟩

theorem handleRecoveryStart_thread (auth : NostrAuth) (data : StartRequest Auth) :
    (handleRecoveryStart auth data).wp (World.thread DeletesNext) (Succeeds data.auth.presents) [] := by
  unfold handleRecoveryStart startWith
  refine wp_start [recoveries] (fun createdAt clients => recoveries.set auth.pubkey { createdAt, clients })
    ?_ ?_ ?_
  · intro seen settled
    exact getAuthenticatedSessions_thread data.auth settled
  · intro createdAt clients
    exact Prog.only_op.mpr (within_set (by decide))
  · rfl

theorem handleLoginStart_thread (auth : NostrAuth) (data : StartRequest Auth) :
    (handleLoginStart auth data).wp (World.thread DeletesNext) (Succeeds data.auth.presents) [] := by
  unfold handleLoginStart startWith
  refine wp_start [logins] (fun createdAt clients => logins.set auth.pubkey { createdAt, clients })
    ?_ ?_ ?_
  · intro seen settled
    exact getAuthenticatedSessions_thread data.auth settled
  · intro createdAt clients
    exact Prog.only_op.mpr (within_set (by decide))
  · rfl

/-- Every request deletes the password it finds next, and succeeds with a password only
if it has found it. -/
theorem handle_thread (Pt : Type) [AddCommGroup Pt] [Module Scalar Pt] [Curve Pt] [Sha2]
    [Argon2] (options : SignerOptions) (job : Job Auth) :
    (handle Pt options job).wp (World.thread DeletesNext) (Succeeds (presents job)) [] := by
  unfold handle
  split
  · exact .refuse
  · exact .refuse
  · exact .refuse
  next auth body =>
    split
    · cases body with
      | loginStart data => exact handleLoginStart_thread auth data
      | recoveryStart data => exact handleRecoveryStart_thread auth data
      | challenge data => exact wp_succeeds_of_within _ (within_handleChallenge data) rfl
      | ecdh data => exact wp_succeeds_of_within _ (within_handleEcdh auth data) rfl
      | loginSelect data => exact wp_succeeds_of_within _ (within_handleLoginSelect auth data) rfl
      | recoverySelect data =>
        exact wp_succeeds_of_within _ (within_handleRecoverySelect auth data) rfl
      | recoverySetup data =>
        exact wp_succeeds_of_within _ (within_handleRecoverySetup auth data) rfl
      | register data => exact wp_succeeds_of_within _ (within_handleRegister auth data) rfl
      | sessionDeactivate data =>
        exact wp_succeeds_of_within _ (within_handleSessionDeactivate auth data) rfl
      | sessionDelete data =>
        exact wp_succeeds_of_within _ (within_handleSessionDelete auth data) rfl
      | sessionList => exact wp_succeeds_of_within _ (within_handleSessionList auth) rfl
      | signCommit data => exact wp_succeeds_of_within _ (within_handleSignCommit auth data) rfl
      | signComplete data =>
        exact wp_succeeds_of_within _ (within_handleSignComplete auth data) rfl
    · exact .refuse
  · refine wp_succeeds_of_within cleanupWrites (within_cleanup.bind fun _ => trivial) rfl

end Rust

/-! ## Two requests at once -/

namespace Sample

/-- A thread makes up to `count` calls at a given time. -/
def calls (tid count time : Nat) : List (Pool.Choice (Job A) Nat Env) :=
  List.replicate count (.step tid (steady time 0))

/-- A job that runs while no other one does. -/
def alone (tid : Nat) (job : Job A) (time : Nat) : List (Pool.Choice (Job A) Nat Env) :=
  .spawn job :: calls tid 40 time

/-- Two jobs, after three others.  The first makes some of its calls and waits for the
second to do the same. -/
def race (before : Job A × Job A × Job A) (first second : Job A) (count time : Nat) :
    List (Pool.Choice (Job A) Nat Env) :=
  alone 0 before.1 time ++ alone 1 before.2.1 time ++ alone 2 before.2.2 time ++
    [.spawn first, .spawn second] ++ calls 3 count time ++ calls 4 count time ++
    calls 3 40 time ++ calls 4 40 time

def otp : Str := "12100000".toList

def otpLogin (auth : NostrAuth) : Job Auth :=
  job auth (.loginStart { auth := .otp emailHash otp })

section

attribute [local instance] sha2 argon2

/-- The pool after a schedule. -/
def playPool (choices : List (Pool.Choice (Job Auth) Nat Env)) : SignerPool Auth :=
  Pool.play (exec (createPsigPkgWithNonce Scalar)) (handle Scalar options)
    (fun time s => { s with clock := time }) choices ⟨State.opened 0, [], []⟩

theorem playPool_reach {R : Nat → Nat → Prop} {ok : SignerPool Auth → SignerAction Auth → Prop}
    (choices : List (Pool.Choice (Job Auth) Nat Env))
    (plays : Pool.Plays (exec (createPsigPkgWithNonce Scalar)) (permit R) (handle Scalar options)
      (fun time s => R s.clock time) (fun time s => { s with clock := time }) ok choices
      ⟨State.opened 0, [], []⟩) :
    RustPool Scalar options R ok (playPool choices) :=
  Pool.Reach.play choices (.start _ ⟨0, rfl⟩) plays

end

end Sample

end Pomade.Signer
