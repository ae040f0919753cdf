import Pomade.Signer.Commitments

/-! # A secret nonce signs once

Any number of requests and cleanups run at once, and time goes by.  A commitment that is taken is
pending nowhere from then on, because its id is its own; so no second request gets to it, and
every request to sign takes before it signs.
-/

namespace Pomade.Signer

open Pomade.Lib Pomade.Frost Coll

variable {A : Type}

/-- The id of the commitment that a call stores. -/
def Op.storedId : Op → Option Str
  | .pushCommit _ entry => some entry.commitId
  | _ => none

/-- An id that is drawn for a commitment was not drawn before. -/
def FreshIds (p : SignerPool A) : SignerAction A → Prop
  | .call _ _ call =>
    ∀ commitId ∈ call.op.storedId, ∀ e ∈ p.history, e.call.op.storedId ≠ some commitId
  | .spawn _ | .pass _ => True

instance (p : SignerPool A) : (action : SignerAction A) → Decidable (FreshIds p action)
  | .call _ _ call => inferInstanceAs (Decidable (∀ commitId ∈ call.op.storedId,
      ∀ e ∈ p.history, e.call.op.storedId ≠ some commitId))
  | .spawn _ | .pass _ => .isTrue trivial

/-- The commitment is pending for no client. -/
def Spent (commitId : Str) (s : State) : Prop :=
  ∀ client, ∀ entry ∈ s.pending client, entry.commitId ≠ commitId

/-- The call has taken a commitment of this id. -/
def Takes (commitId : Str) (e : SignerEntry A) : Prop :=
  ∃ client entry, e.call = ⟨.takeCommit client commitId, some entry⟩

/-- Two calls do not store commitments of one id. -/
def StoresOther (e e' : SignerEntry A) : Prop :=
  ∀ client entry client' entry', e.call.op = .pushCommit client entry →
    e'.call.op = .pushCommit client' entry' → entry.commitId ≠ entry'.commitId

/-- Two calls have not taken commitments of one id. -/
def TakesOther (e e' : SignerEntry A) : Prop := ∀ commitId, Takes commitId e → ¬ Takes commitId e'

instance : Std.Symm (StoresOther (A := A)) where
  symm _ _ other client entry client' entry' stored stored' :=
    (other client' entry' client entry stored' stored).symm

instance : Std.Symm (TakesOther (A := A)) where
  symm _ _ other commitId taken taken' := other commitId taken' taken

section Ledgers

variable {signing : SigningFn} {R : Nat → Nat → Prop} {program : Job A → SignerProg Response}
variable {p : SignerPool A} {newer older : List (SignerEntry A)} {e y : SignerEntry A}
variable {client client' : Str} {entry entry' : CommitEntry}

theorem stores_other
    (reach : Pool.Reach (world signing R) program (TimePasses R) Opened FreshIds p) :
    p.history.Pairwise StoresOther := by
  induction reach with
  | start s initial => exact .nil
  | spawn job _ _ ih => exact ih
  | pass _ _ _ ih => exact ih
  | @call p tid job seen o next answer s' _ _ _ meets ih =>
    refine List.Pairwise.cons ?_ ih
    intro e' member client entry client' entry' stored stored'
    dsimp only at stored
    subst stored
    have other := meets entry.commitId rfl e' member
    rw [stored'] at other
    exact fun same => other (congrArg some same.symm)

/-- A commitment is told by its id. -/
theorem stored_unique
    (reach : Pool.Reach (world signing R) program (TimePasses R) Opened FreshIds p)
    {e' : SignerEntry A} (member : e ∈ p.history) (member' : e' ∈ p.history)
    (stored : e.call.op = .pushCommit client entry)
    (stored' : e'.call.op = .pushCommit client' entry')
    (same : entry'.commitId = entry.commitId) : client' = client ∧ entry' = entry := by
  by_cases equal : e = e'
  · subst equal
    rw [stored] at stored'
    cases stored'
    exact ⟨rfl, rfl⟩
  · have other := (stores_other reach).forall member member' equal
    exact absurd same.symm (other client entry client' entry' stored stored')

/-- Whatever is pending was stored by a call. -/
theorem pushed_of_pending {ok : SignerPool A → SignerAction A → Prop}
    (reach : Pool.Reach (world signing R) program (TimePasses R) Opened ok p)
    (member : entry ∈ p.state.pending client) :
    ∃ e ∈ p.history, e.call.op = .pushCommit client entry := by
  induction reach with
  | start s initial =>
    obtain ⟨clock, rfl⟩ := initial
    simp [State.pending, State.opened] at member
  | spawn job _ _ ih => exact ih member
  | pass _ passed _ ih =>
    obtain ⟨time, _, same⟩ := passed
    subst same
    exact ih member
  | @call p tid job seen o next answer s' _ _ step meets ih =>
    have earlier : entry ∈ p.state.pending client →
        ∃ e ∈ ⟨tid, job, ⟨o, answer⟩, p.state⟩ :: p.history,
          e.call.op = .pushCommit client entry := by
      intro old
      obtain ⟨e, listed, stored⟩ := ih old
      exact ⟨e, List.mem_cons_of_mem _ listed, stored⟩
    rcases pending_of_step client step with fewer | ⟨new, stores, pending⟩
    · exact earlier (fewer.subset member)
    · have listed : entry ∈ s'.pending client := member
      rw [pending, List.mem_append, List.mem_singleton] at listed
      rcases listed with old | rfl
      · exact earlier old
      · exact ⟨_, List.mem_cons_self, stores⟩

/-- No client has two commitments of one id. -/
theorem nodup_pending
    (reach : Pool.Reach (world signing R) program (TimePasses R) Opened FreshIds p) (client : Str) :
    ((p.state.pending client).map (·.commitId)).Nodup := by
  induction reach with
  | start s initial =>
    obtain ⟨clock, rfl⟩ := initial
    simp [State.pending, State.opened]
  | spawn job _ _ ih => exact ih
  | pass _ passed _ ih =>
    obtain ⟨time, _, same⟩ := passed
    subst same
    exact ih
  | @call p tid job seen o next answer s' earlier _ step meets ih =>
    show ((s'.pending client).map (·.commitId)).Nodup
    rcases pending_of_step client step with fewer | ⟨new, stores, pending⟩
    · obtain ⟨kept, perm, sublist⟩ := fewer
      have distinct := ih.sublist (sublist.map (·.commitId))
      exact (perm.map (·.commitId)).nodup_iff.mp distinct
    · subst stores
      rw [pending, List.map_append, List.map_singleton, List.nodup_append]
      refine ⟨ih, List.nodup_singleton _, ?_⟩
      intro commitId old _ last
      rw [List.mem_singleton.mp last]
      obtain ⟨entry, member, rfl⟩ := List.mem_map.mp old
      obtain ⟨e, listed, stored⟩ := pushed_of_pending earlier member
      have other := meets new.commitId rfl e listed
      rw [stored] at other
      exact fun same => other (congrArg some same)

/-- Taking a commitment that was stored leaves nothing of its id behind. -/
theorem spent_of_take
    (reach : Pool.Reach (world signing R) program (TimePasses R) Opened FreshIds p)
    (member : e ∈ p.history) (stored : e.call.op = .pushCommit client entry) :
    Spent entry.commitId (p.state.takeCommit swapRemove client entry.commitId).2 := by
  intro client' entry' left same
  -- Whatever is left of that id would be the same commitment.
  have unique : ∀ client', entry' ∈ p.state.pending client' → client' = client := by
    intro client' pending
    obtain ⟨e', member', stored'⟩ := pushed_of_pending reach pending
    exact (stored_unique reach member member' stored stored' same).1
  cases taken : (p.state.takeCommit swapRemove client entry.commitId).1 with
  | none =>
    obtain ⟨unchanged, missing⟩ := takeCommit_none taken
    rw [unchanged] at left
    obtain rfl := unique client' left
    exact missing entry' left same
  | some found =>
    obtain ⟨named, own, others⟩ := takeCommit_some removes_swapRemove taken
    by_cases here : client' = client
    · subst here
      have distinct := (own.map (·.commitId)).nodup_iff.mpr (nodup_pending reach client')
      rw [List.map_cons, List.nodup_cons, named] at distinct
      exact distinct.1 (List.mem_map.mpr ⟨entry', left, same⟩)
    · rw [others client' here] at left
      exact here (unique client' left)

/-- Nothing of its id is pending any more. -/
theorem spent_since
    (reach : Pool.Reach (world signing R) program (TimePasses R) Opened FreshIds p)
    (split : p.history = newer ++ y :: older) (member : e ∈ older)
    (stored : e.call.op = .pushCommit client entry)
    (takes : y.call.op = .takeCommit client entry.commitId) : Spent entry.commitId p.state := by
  refine reach.since split ?_ ?_ ?_
  · intro s' step
    obtain ⟨before, earlier, state, history, _⟩ := reach.at_entry split
    rw [← state] at step
    have spent := spent_of_take earlier (history ▸ member) stored
    obtain ⟨tid, job, ⟨o, answer⟩, s₀⟩ := y
    dsimp only at takes step
    subst takes
    rw [(step_takeCommit.mp step).2]
    exact spent
  · intro x newer_ s s' spent step client' entry' left
    rcases pending_of_step client' step with fewer | ⟨new, stores, pending⟩
    · exact spent client' entry' (fewer.subset left)
    · rw [pending, List.mem_append, List.mem_singleton] at left
      rcases left with old | rfl
      · exact spent client' entry' old
      · -- What is stored later has another id.
        have apart := stores_other reach
        rw [split, List.pairwise_append] at apart
        exact apart.2.2 x newer_ e (List.mem_cons_of_mem _ member) client' entry' client entry
          stores stored
  · rintro s _ ⟨time, _, rfl⟩ spent
    exact spent

/-- What a call has taken was stored before. -/
theorem stored_of_taken {ok : SignerPool A → SignerAction A → Prop}
    (reach : Pool.Reach (world signing R) program (TimePasses R) Opened ok p)
    {commitId : Str} (step : ∃ s', (world signing R).step (.takeCommit client commitId) p.state
      (some entry) s') :
    entry.commitId = commitId ∧ entry ∈ p.state.pending client ∧
      ∃ e ∈ p.history, e.call.op = .pushCommit client entry := by
  obtain ⟨s', step⟩ := step
  obtain ⟨named, own, _⟩ := takeCommit_some removes_swapRemove (step_takeCommit.mp step).1.symm
  have pending := own.subset List.mem_cons_self
  exact ⟨named, pending, pushed_of_pending reach pending⟩

/-- No two calls take one commitment. -/
theorem takes_other
    (reach : Pool.Reach (world signing R) program (TimePasses R) Opened FreshIds p) :
    p.history.Pairwise TakesOther := by
  induction reach with
  | start s initial => exact .nil
  | spawn job _ _ ih => exact ih
  | pass _ _ _ ih => exact ih
  | @call p tid job seen o next answer s' earlier _ step _ ih =>
    refine List.Pairwise.cons ?_ ih
    rintro y member commitId ⟨client, entry, call⟩ ⟨client', entry', call'⟩
    cases call
    obtain ⟨named, pending, _⟩ := stored_of_taken earlier ⟨s', step⟩
    obtain ⟨between, older, split⟩ := List.append_of_mem member
    obtain ⟨before, reached, state, history, _, s₁, step'⟩ := earlier.at_entry split
    rw [call', ← state] at step'
    obtain ⟨named', _, e, stored, pushed⟩ := stored_of_taken reached ⟨s₁, step'⟩
    rw [history] at stored
    have spent := spent_since earlier split stored pushed (by rw [call', named'])
    exact spent client entry pending (named.trans named'.symm)

end Ledgers

/-! ## What is signed -/

section Signed

variable (Pt : Type) [AddCommGroup Pt] [Module Scalar Pt] [Curve Pt]

/-- What is signed for a request is signed with the nonce of a commitment, for the members of the
commitment, and the request has the public nonce that was published for it. -/
structure UsesNonce (entry : CommitEntry) (data : SignCompleteRequest) (input : SigningInput) :
    Prop where
  named : data.commitId = entry.commitId
  secret : input.secret = entry.secret
  request : input.request = data.request
  pnonces : input.pnonces = data.pnonces
  members : data.request.members = entry.members
  listed : ∃ pn ∈ data.pnonces, pn.idx = entry.secret.idx
  published : ∀ pn ∈ data.pnonces, pn.idx = entry.secret.idx →
    Published Pt entry.secret pn.hiddenPn pn.binderPn

/-- The second call signs with the secret nonce that the first one has stored, for the client
that made the commitment. -/
def Consumes (e x : SignerEntry Auth) : Prop :=
  ∃ client entry data input, e.call.op = .pushCommit client entry ∧ x.call.op = .sign input ∧
    x.job.completes = some (client, data) ∧ UsesNonce Pt entry data input

/-- The request has been answered or has panicked. -/
def Ended {α : Type} : SignerProg α → Prop
  | .call _ _ => False
  | _ => True

/-- A secret nonce is stored by a request to commit, which publishes it, and used at most once.
A request to sign that is past the first checks has used up the commitment that it names, whatever
becomes of it. -/
structure NoncesUsedOnce (p : SignerPool Auth) : Prop where
  generated : ∀ e ∈ p.history, ∀ client entry, e.call.op = .pushCommit client entry →
    ∃ data, e.job.commits = some (client, data) ∧ entry.members = data.members
  published : ∀ tid thread client data response commit, p.threads[tid]? = some thread →
    thread.job.commits = some (client, data) → answered thread.rest = some response →
    response.payload = .commit commit → ∃ e ∈ p.history, e.tid = tid ∧
      ∃ entry, e.call.op = .pushCommit client entry ∧ entry.commitId = commit.commitId ∧
        entry.secret.idx = commit.idx ∧ Published Pt entry.secret commit.hiddenPn commit.binderPn
  consumed : ∀ newer x older input, p.history = newer ++ x :: older → x.call.op = .sign input →
    ∃ e ∈ older, Consumes Pt e x
  once : p.history.Pairwise fun x x' => ∀ e, Consumes Pt e x → ¬ Consumes Pt e x'
  past : ∀ tid thread client data, p.threads[tid]? = some thread →
    thread.job.completes = some (client, data) → thread.job.schemaValid = true →
    Ended thread.rest → (∃ response ∈ refusedEarly, answered thread.rest = some response) ∨
      ∃ y ∈ p.history, y.tid = tid ∧ y.call.op = .takeCommit client data.commitId
  gone : ∀ newer y older e client entry, p.history = newer ++ y :: older → e ∈ older →
    e.call.op = .pushCommit client entry → y.call.op = .takeCommit client entry.commitId →
    Spent entry.commitId p.state

variable {Pt} {options : SignerOptions} {R : Nat → Nat → Prop} [Sha2] [Argon2]
variable {ok : SignerPool Auth → SignerAction Auth → Prop} {p : SignerPool Auth}

/-- Every call in the history is one that its job may make after the earlier calls of its thread. -/
theorem handled (reach : RustPool Pt options R ok p) {newer older : List (SignerEntry Auth)}
    {x : SignerEntry Auth} (split : p.history = newer ++ x :: older) :
    HandlesCommitments Pt x.job x.call.op (Pool.callsOf x.tid older) := by
  obtain ⟨thread, found, job⟩ := reach.coherent.job x (by simp [split])
  have chain := (reach.local (fun job => handle_commitments options job) thread
    (List.mem_of_getElem? found)).2
  rw [reach.coherent.seen _ _ found, job, split, Pool.callsOf_append, Pool.callsOf_cons_self] at chain
  exact chain.of_append

/-- A commitment is stored for the members of the request that asks for it, and the signer is
one of them. -/
theorem commits_of_stored (reach : RustPool Pt options R ok p) {e : SignerEntry Auth}
    (member : e ∈ p.history) {client : Str} {entry : CommitEntry}
    (stored : e.call.op = .pushCommit client entry) :
    ∃ data, e.job.commits = some (client, data) ∧ entry.members = data.members ∧
      entry.secret.idx ∈ entry.members := by
  obtain ⟨newer, older, split⟩ := List.append_of_mem member
  have permitted := handled reach split
  rw [stored] at permitted
  obtain ⟨data, session, _, _, job, _, members, own, listed, _⟩ := permitted
  exact ⟨data, job, members, by rw [own, members]; exact listed⟩

/-- What a request says of commitments when it ends is told by its calls. -/
theorem concludes (reach : RustPool Pt options R ok p) {tid : Nat}
    {thread : Thread (Job Auth) Op Ans Response} (found : p.threads[tid]? = some thread)
    (ended : Ended thread.rest) :
    ConcludesCommitment Pt thread.job (answered thread.rest) (Pool.callsOf tid p.history) := by
  have finish := (reach.local (fun job => handle_commitments options job) thread
    (List.mem_of_getElem? found)).1
  rw [reach.coherent.seen _ _ found] at finish
  cases rest : thread.rest with
  | pure value =>
    rw [rest] at finish
    exact finish
  | abort =>
    rw [rest] at finish
    exact finish
  | call o next =>
    rw [rest] at ended
    exact ended.elim

omit [Sha2] [Argon2] in
theorem ended_of_answered {α : Type} {rest : SignerProg α} {value : α}
    (answer : answered rest = some value) : Ended rest := by
  cases rest with
  | call o next => cases answer
  | _ => trivial

omit [Sha2] [Argon2] in
/-- The nonces of a request that passes the checks have the published one at its index. -/
theorem published_of_spends {session : SignerSession} {entry : CommitEntry}
    {data : SignCompleteRequest} {input : SigningInput} (spends : Spends Pt session entry data input)
    (member : entry.secret.idx ∈ entry.members) :
    (∃ pn ∈ data.pnonces, pn.idx = entry.secret.idx) ∧
      ∀ pn ∈ data.pnonces, pn.idx = entry.secret.idx →
        Published Pt entry.secret pn.hiddenPn pn.binderPn := by
  have own := spends.own
  rw [ownMatches] at own
  obtain ⟨hidden, shownHidden, own⟩ := bind_ok own
  obtain ⟨binder, shownBinder, own⟩ := bind_ok own
  have own := Except.ok.inj own
  rw [List.any_eq_true] at own
  obtain ⟨found, listed, matches_⟩ := own
  simp only [Bool.and_eq_true, beq_iff_eq] at matches_
  obtain ⟨⟨idx, sameHidden⟩, sameBinder⟩ := matches_
  refine ⟨⟨found, listed, idx⟩, ?_⟩
  intro pn given same
  -- There is one nonce for each index of a member.
  have valid := spends.valid
  rw [spends.members, pnoncesValid, Bool.and_eq_true, List.all_eq_true] at valid
  have single := valid.2 entry.secret.idx member
  simp only [Bool.and_eq_true, beq_iff_eq] at single
  obtain ⟨only, filtered⟩ := List.length_eq_one_iff.mp single.2
  have equal : ∀ pn ∈ data.pnonces, pn.idx = entry.secret.idx → pn = only := by
    intro pn given same
    have kept : pn ∈ data.pnonces.filter fun pn => pn.idx == entry.secret.idx :=
      List.mem_filter.mpr ⟨given, by simpa using same⟩
    rw [filtered] at kept
    exact List.mem_singleton.mp kept
  rw [equal pn given same, ← equal found listed idx]
  exact ⟨⟨hidden, shownHidden, sameHidden⟩, ⟨binder, shownBinder, sameBinder⟩⟩

/-- A call that signs comes right after its thread has taken the commitment. -/
theorem takes_of_sign (reach : RustPool Pt options R ok p) {newer older : List (SignerEntry Auth)}
    {x : SignerEntry Auth} {input : SigningInput} (split : p.history = newer ++ x :: older)
    (signs : x.call.op = .sign input) : ∃ client data session entry seen,
      x.job.completes = some (client, data) ∧ Spends Pt session entry data input ∧
      Pool.callsOf x.tid older = ⟨.takeCommit client data.commitId, some entry⟩ :: seen := by
  have permitted := handled reach split
  rw [signs] at permitted
  obtain ⟨client, data, session, entry, between, job, seen, spends⟩ := permitted
  exact ⟨client, data, session, entry, _, job, spends, seen⟩

/-- What a call signs with was stored before, for the client of the request. -/
theorem stored_of_sign (reach : RustPool Pt options R ok p) {newer older : List (SignerEntry Auth)}
    {x : SignerEntry Auth} {input : SigningInput} (split : p.history = newer ++ x :: older)
    (signs : x.call.op = .sign input) : ∃ client data session entry,
      x.job.completes = some (client, data) ∧ Spends Pt session entry data input ∧
      ⟨.get .sessions client, some session⟩ ∈ Pool.callsOf x.tid older ∧
      entry.commitId = data.commitId ∧ ∃ e ∈ older, e.call.op = .pushCommit client entry := by
  have permitted := handled reach split
  rw [signs] at permitted
  obtain ⟨client, data, session, entry, between, job, calls, spends⟩ := permitted
  obtain ⟨y, member, _, call⟩ := Pool.mem_callsOf.mp (calls ▸ List.mem_cons_self)
  obtain ⟨between, oldest, earlier⟩ := List.append_of_mem member
  have place : p.history = (newer ++ x :: between) ++ y :: oldest := by
    rw [split, earlier, List.append_assoc, List.cons_append]
  obtain ⟨before, reached, state, history, _, s', step⟩ := reach.at_entry place
  rw [call, ← state] at step
  obtain ⟨named, _, e, stored, pushed⟩ := stored_of_taken reached ⟨s', step⟩
  rw [history] at stored
  refine ⟨client, data, session, entry, job, spends, ?_, named, e, by simp [earlier, stored], pushed⟩
  simp [calls]

/-- Two calls that sign have not taken the same commitment before. -/
theorem signs_other (reach : RustPool Pt options R FreshIds p)
    {mid older : List (SignerEntry Auth)} {x : SignerEntry Auth} {input : SigningInput} {tid : Nat}
    {commitId client client' : Str} {entry entry' : CommitEntry} {seen seen' : List SignerCall}
    (split : p.history = mid ++ x :: older) (signs : x.call.op = .sign input)
    (newer : Pool.callsOf tid p.history = ⟨.takeCommit client commitId, some entry⟩ :: seen)
    (earlier : Pool.callsOf x.tid older = ⟨.takeCommit client' commitId, some entry'⟩ :: seen') :
    False := by
  have apart := takes_other reach
  obtain ⟨y', member', thread', call'⟩ := Pool.mem_callsOf.mp (earlier ▸ List.mem_cons_self)
  have taken' : Takes commitId y' := ⟨client', entry', call'⟩
  by_cases own : tid = x.tid
  · -- In one thread the second taking comes after the first signing.
    subst own
    rw [split, Pool.callsOf_append, Pool.callsOf_cons_self] at newer
    cases between : Pool.callsOf x.tid mid with
    | nil =>
      rw [between, List.nil_append] at newer
      rw [(List.cons.inj newer).1] at signs
      cases signs
    | cons call rest =>
      rw [between, List.cons_append] at newer
      obtain ⟨y, member, _, call⟩ := Pool.mem_callsOf.mp (between ▸ List.mem_cons_self)
      rw [split, List.pairwise_append] at apart
      exact apart.2.2 y member y' (List.mem_cons_of_mem _ member') commitId
        ⟨client, entry, call.trans (List.cons.inj newer).1⟩ taken'
  · obtain ⟨y, member, thread, call⟩ := Pool.mem_callsOf.mp (newer ▸ List.mem_cons_self)
    refine apart.forall member (b := y') (by simp [split, member']) ?_ commitId
      ⟨client, entry, call⟩ taken'
    rintro rfl
    exact own (thread.symm.trans thread')

/-- Whatever requests and cleanups the signer carries out, and in whatever order their calls
come, a secret nonce signs at most once, for the client, the members and the public nonce it was
made with, and the commitment is used up as soon as a request gets to it. -/
theorem nonce_single_use (reach : RustPool Pt options R FreshIds p) : NoncesUsedOnce Pt p := by
  constructor
  case generated =>
    intro e member client entry stored
    obtain ⟨data, job, members, _⟩ := commits_of_stored reach member stored
    exact ⟨data, job, members⟩
  case published =>
    intro tid thread client data response commit found job answer payload
    have conclusion := concludes reach found (ended_of_answered answer)
    obtain ⟨entry, stored, named, idx, shown⟩ :=
      conclusion.published client data response commit job answer payload
    obtain ⟨e, member, own, call⟩ := Pool.mem_callsOf.mp stored
    exact ⟨e, member, own, entry, by rw [call], named, idx, shown⟩
  case consumed =>
    intro newer x older input split signs
    obtain ⟨client, data, session, entry, job, spends, _, named, e, stored, pushed⟩ :=
      stored_of_sign reach split signs
    obtain ⟨_, _, _, own⟩ := commits_of_stored reach (by simp [split, stored]) pushed
    obtain ⟨listed, published⟩ := published_of_spends spends own
    refine ⟨e, stored, client, entry, data, input, pushed, signs, job, ?_⟩
    have same := spends.input
    subst same
    exact ⟨named.symm, rfl, rfl, rfl, spends.members, listed, published⟩
  case once =>
    -- By induction on the schedule: only a new call can add a signature, and it is compared with
    -- every earlier one.
    induction reach with
    | start s initial => exact .nil
    | spawn job _ _ ih => exact ih
    | pass _ _ _ ih => exact ih
    | @call p tid job seen o next answer s' earlier found step meets ih =>
      refine List.Pairwise.cons ?_ ih
      rintro x member e ⟨_, entry, data, input, stored, signs, completes, uses⟩
        ⟨_, entry', data', input', stored', signs', completes', uses'⟩
      rw [stored] at stored'
      cases stored'
      obtain ⟨mid, older, split⟩ := List.append_of_mem member
      have full := Pool.Reach.call earlier found step meets
      have last : (p.called tid job seen ⟨o, answer⟩ (next answer) s').history =
        [] ++ ⟨tid, job, ⟨o, answer⟩, p.state⟩ :: p.history := rfl
      obtain ⟨_, _, _, _, _, job₁, _, calls⟩ := takes_of_sign full last signs
      obtain ⟨_, _, _, _, _, job₂, _, calls'⟩ := takes_of_sign earlier split signs'
      -- Both signatures took the entry of one id from one client, which cannot happen twice.
      rw [completes] at job₁
      rw [completes'] at job₂
      cases job₁
      cases job₂
      rw [uses.named] at calls
      rw [uses'.named] at calls'
      exact signs_other earlier split signs' calls calls'
  case past =>
    intro tid thread client data found job valid ended
    rcases (concludes reach found ended).taken client data job valid with early | taken
    · exact .inl early
    · obtain ⟨answer, taken⟩ := taken
      obtain ⟨y, member, own, call⟩ := Pool.mem_callsOf.mp taken
      exact .inr ⟨y, member, own, by rw [call]⟩
  case gone =>
    intro newer y older e client entry split member stored takes
    exact spent_since reach split member stored takes

end Signed

/-! ## A commitment that is used up -/

namespace Sample

def commitId : Str := hexEncode (Bytes.ofNat 32 0).data

/-- A request to sign without any public nonces. -/
def signNothing (auth : NostrAuth) : Job Auth :=
  job auth (.signComplete
    { commitId
      request :=
        { content := none, hash := [List.replicate 64 '0'], members := [1], stamp := 0, kind := [],
          gid := List.replicate 64 '0', sid := List.replicate 64 '0' }
      pnonces := [] })

/-- A commitment, and two requests to sign with it. -/
def committed : List (Pool.Choice (Job Auth) Nat Env) :=
  alone 0 (register (clientKey 1) [1]) 1000 ++ alone 1 (signCommit (clientKey 1)) 1001 ++
    [.spawn (signNothing (clientKey 1)), .spawn (signNothing (clientKey 1))] ++
    calls 2 4 1002 ++ calls 3 10 1003 ++ calls 2 10 1004

end Sample

theorem nonce_single_use_commit :
    let _ := Sample.sha2
    let _ := Sample.argon2
    NoncesUsedOnce Scalar (Sample.playPool Sample.committed) := by
  intro hash email
  exact nonce_single_use (R := fun before after => before ≤ after)
    (Sample.playPool_reach Sample.committed (by decide +kernel))

end Pomade.Signer
