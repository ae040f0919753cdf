import Mathlib.Data.List.Perm.Subperm
import Mathlib.Data.List.Nodup
import Pomade.Frost.Sharing
import Pomade.Signer.Limiter
import Pomade.Signer.OneTime

/-! # Commitments are consumed once

A commitment that a client makes is kept under the client until a request to sign takes it out.
Taking and putting are one call each, so that of any number of requests that run at once only one
gets the secret nonce, and no request signs without having taken one.
-/

namespace Pomade.Signer

open Pomade.Lib Pomade.Frost Coll

/-! ## What is pending -/

/-- Both ways of removing an element leave the others. -/
def Removes (remove : List CommitEntry → Nat → List CommitEntry) : Prop :=
  ∀ (pending : List CommitEntry) (pos : Nat) (entry : CommitEntry),
    pending[pos]? = some entry → (entry :: remove pending pos).Perm pending

theorem removes_eraseIdx : Removes List.eraseIdx := by
  intro pending pos entry found
  obtain ⟨inside, rfl⟩ := List.getElem?_eq_some_iff.mp found
  exact List.getElem_cons_eraseIdx_perm inside

theorem removes_swapRemove : Removes swapRemove := by
  intro pending pos entry found
  obtain ⟨inside, rfl⟩ := List.getElem?_eq_some_iff.mp found
  obtain ⟨init, last, rfl⟩ : ∃ init last, pending = init ++ [last] := by
    cases pending using List.reverseRecOn with
    | nil => simp at inside
    | append_singleton init last => exact ⟨init, last, rfl⟩
  have shown : swapRemove (init ++ [last]) pos = ((init ++ [last]).set pos last).dropLast := by
    rw [swapRemove, List.getLast?_append, List.getLast?_singleton, Option.some_or]
  rw [shown]
  by_cases early : pos < init.length
  · -- The last one takes the place of the one that is removed.
    rw [List.set_append_left pos last early, List.dropLast_concat, List.getElem_append_left early]
    have swapped : List.Perm (init[pos] :: init.set pos last) (init[pos] :: last :: init.eraseIdx pos) :=
      (List.set_perm_cons_eraseIdx early last).cons _
    have moved : List.Perm (init[pos] :: last :: init.eraseIdx pos) (last :: init) :=
      (List.Perm.swap ..).trans ((List.getElem_cons_eraseIdx_perm early).cons _)
    exact (swapped.trans moved).trans (List.perm_append_singleton last init).symm
  · have place : pos = init.length := by
      simp at inside
      omega
    subst place
    simpa using (List.perm_append_singleton last init).symm

theorem get_putPending (commits : Table (List CommitEntry)) (client client' : Str)
    (left : List CommitEntry) :
    ((putPending commits client left).get client').getD [] =
      if client' = client then left else (commits.get client').getD [] := by
  rw [putPending]
  by_cases same : client' = client
  · subst same
    rw [if_pos rfl]
    split
    next empty => simpa using (List.isEmpty_iff.mp empty).symm
    next => simp
  · rw [if_neg same]
    split
    · rw [Table.get_delete_ne same]
    · rw [Table.get_set_ne same]

theorem pending_put (s : State) (client client' : Str) (left : List CommitEntry) :
    ({ s with commitsByClient := putPending s.commitsByClient client left }).pending client' =
      if client' = client then left else s.pending client' :=
  get_putPending ..

theorem pending_push (s : State) (client client' : Str) (entry : CommitEntry) :
    ({ s with
      commitsByClient := s.commitsByClient.set client (s.pending client ++ [entry]) }).pending client' =
      if client' = client then s.pending client ++ [entry] else s.pending client' := by
  rw [State.pending]
  dsimp only
  rw [Table.get_set]
  split
  · rfl
  · rfl

/-- What is taken was pending under its name, and is the only thing that goes. -/
theorem takeCommit_some {s : State} {remove : List CommitEntry → Nat → List CommitEntry}
    (removes : Removes remove) {client commitId : Str} {entry : CommitEntry}
    (taken : (s.takeCommit remove client commitId).1 = some entry) :
    entry.commitId = commitId ∧
      (entry :: (s.takeCommit remove client commitId).2.pending client).Perm (s.pending client) ∧
      ∀ client', client' ≠ client →
        (s.takeCommit remove client commitId).2.pending client' = s.pending client' := by
  unfold State.takeCommit at taken ⊢
  dsimp only at taken ⊢
  cases found : (s.pending client).find? fun e => e.commitId == commitId with
  | none =>
    rw [found] at taken
    cases taken
  | some entry' =>
    rw [found] at taken
    cases taken
    dsimp only
    refine ⟨by simpa using List.find?_some found, ?_, ?_⟩
    · rw [pending_put, if_pos rfl]
      apply removes
      rw [← found, List.find?_eq_getElem?_findIdx]
    · intro client' other
      rw [pending_put, if_neg other]

theorem takeCommit_none {s : State} {remove : List CommitEntry → Nat → List CommitEntry}
    {client commitId : Str} (missed : (s.takeCommit remove client commitId).1 = none) :
    (s.takeCommit remove client commitId).2 = s ∧
      ∀ entry ∈ s.pending client, entry.commitId ≠ commitId := by
  unfold State.takeCommit at missed ⊢
  dsimp only at missed ⊢
  cases found : (s.pending client).find? fun e => e.commitId == commitId with
  | none =>
    refine ⟨rfl, fun entry member => ?_⟩
    simpa using List.find?_eq_none.mp found entry member
  | some entry =>
    rw [found] at missed
    cases missed

/-- What is left of the commitments of every client. -/
theorem pending_reap (s : State) (cutoff : Nat) (client : Str) :
    (s.reapCommits cutoff).pending client =
      (s.pending client).filter fun e => decide (cutoff ≤ e.createdAt) := by
  have walk : ∀ (keys : List Str) (commits : Table (List CommitEntry)),
      ((keys.foldl (fun commits client => putPending commits client
        ((s.pending client).filter fun e => decide (cutoff ≤ e.createdAt))) commits).get client).getD [] =
      if client ∈ keys then (s.pending client).filter fun e => decide (cutoff ≤ e.createdAt)
      else (commits.get client).getD [] := by
    intro keys
    induction keys with
    | nil => simp
    | cons key keys ih =>
      intro commits
      rw [List.foldl_cons, ih, get_putPending]
      by_cases later : client ∈ keys
      · simp [later]
      · by_cases here : client = key
        · subst here
          simp
        · simp [later, here]
  rw [State.pending, State.reapCommits]
  dsimp only
  rw [walk]
  split
  · rfl
  next unlisted =>
    have absent : s.commitsByClient.get client = none :=
      AList.lookup_eq_none.mpr unlisted
    simp [State.pending, absent]

/-- The calls that touch the pending commitments. -/
def Op.TouchesPending : Op → Prop
  | .pushCommit _ _ | .takeCommit _ _ | .takeCommitInOrder _ _ | .reapCommits _ => True
  | _ => False

section Records

variable {signing : SigningFn} {R : Nat → Nat → Prop} {s s' : State} {o : Op} {answer : Ans o}

theorem commits_of_step (untouched : ¬ o.TouchesPending)
    (step : (world signing R).step o s answer s') : s'.commitsByClient = s.commitsByClient := by
  obtain ⟨e, _, outcome⟩ := step
  cases o with
  | set c key value =>
    cases outcome
    cases c <;> rfl
  | delete c key =>
    cases outcome
    cases c <;> rfl
  | pushCommit client entry => exact absurd trivial untouched
  | takeCommit client commitId => exact absurd trivial untouched
  | takeCommitInOrder client commitId => exact absurd trivial untouched
  | reapCommits cutoff => exact absurd trivial untouched
  | _ =>
    cases outcome
    rfl

/-- A call either puts one commitment of the client last, or takes some of them away. -/
theorem pending_of_step (client : Str) (step : (world signing R).step o s answer s') :
    (s'.pending client).Subperm (s.pending client) ∨
      ∃ entry, o = .pushCommit client entry ∧ s'.pending client = s.pending client ++ [entry] := by
  have take : ∀ {remove : List CommitEntry → Nat → List CommitEntry} (_ : Removes remove)
      (owner commitId : Str),
      ((s.takeCommit remove owner commitId).2.pending client).Subperm (s.pending client) := by
    intro remove removes owner commitId
    cases taken : (s.takeCommit remove owner commitId).1 with
    | none =>
      rw [(takeCommit_none taken).1]
    | some entry =>
      obtain ⟨_, own, others⟩ := takeCommit_some removes taken
      by_cases same : client = owner
      · subst same
        exact (List.subperm_cons_self).trans own.subperm
      · rw [others client same]
  by_cases touches : o.TouchesPending
  · cases o with
    | pushCommit owner entry =>
      obtain ⟨_, rfl⟩ := step_pushCommit.mp step
      rw [pending_push]
      by_cases same : client = owner
      · subst same
        exact .inr ⟨entry, rfl, if_pos rfl⟩
      · rw [if_neg same]
        exact .inl (List.Subperm.refl _)
    | takeCommit owner commitId =>
      obtain ⟨_, rfl⟩ := step_takeCommit.mp step
      exact .inl (take removes_swapRemove owner commitId)
    | takeCommitInOrder owner commitId =>
      obtain ⟨_, rfl⟩ := step_takeCommitInOrder.mp step
      exact .inl (take removes_eraseIdx owner commitId)
    | reapCommits cutoff =>
      obtain ⟨_, rfl⟩ := step_reapCommits.mp step
      rw [pending_reap]
      exact .inl (List.filter_sublist).subperm
    | _ => exact touches.elim
  · rw [State.pending, commits_of_step touches step]
    exact .inl (List.Subperm.refl _)

end Records

/-! ## What a request does with a commitment -/

variable {A : Type}

/-- The client and the body of a request to commit. -/
def Job.commits : Job A → Option (Str × SignCommitRequest)
  | .request (some auth) (.body (.signCommit data)) => some (auth.pubkey, data)
  | _ => none

/-- The client and the body of a request to sign. -/
def Job.completes : Job A → Option (Str × SignCompleteRequest)
  | .request (some auth) (.body (.signComplete data)) => some (auth.pubkey, data)
  | _ => none

section Calls

variable (Pt : Type) [AddCommGroup Pt] [Module Scalar Pt] [Curve Pt]

/-- The texts are those of the public nonces of a secret nonce. -/
structure Published (secret : SecretNonce) (hiddenPn binderPn : Str) : Prop where
  hidden : ∃ point, getPubkey Pt secret.hiddenSn = .ok point ∧ hiddenPn = hexEncode point.data
  binder : ∃ point, getPubkey Pt secret.binderSn = .ok point ∧ binderPn = hexEncode point.data

/-- What is signed with a commitment, for a session and in answer to a request. -/
structure Spends (session : SignerSession) (entry : CommitEntry) (data : SignCompleteRequest)
    (input : SigningInput) : Prop where
  input : input = { group := session.group, request := data.request, share := session.share,
                    secret := entry.secret, pnonces := data.pnonces }
  members : data.request.members = entry.members
  valid : pnoncesValid session.group data.request.members data.pnonces = true
  own : ownMatches Pt entry.secret data.pnonces = .ok true

/-- The calls that a job may make when it has made others.  A request to commit stores a
commitment for the session that it has read first, a request to sign takes the one it names, and
what is signed is signed right after that. -/
def HandlesCommitments (job : Job A) : Op → List SignerCall → Prop
  | .pushCommit client entry, seen => ∃ data session between seckey,
      job.commits = some (client, data) ∧
      seen = between ++ [⟨.get .sessions client, some session⟩] ∧
      entry.members = data.members ∧ entry.secret.idx = session.share.idx ∧
      session.share.idx ∈ data.members ∧ decode32 session.share.seckey = some seckey
  | .takeCommit client commitId, _ => ∃ data, job.completes = some (client, data) ∧
      commitId = data.commitId
  | .sign input, seen => ∃ client data session entry between,
      job.completes = some (client, data) ∧
      seen = ⟨.takeCommit client data.commitId, some entry⟩ ::
        (between ++ [⟨.get .sessions client, some session⟩]) ∧
      Spends Pt session entry data input
  | .takeCommitInOrder _ _, _ => False
  | _, _ => True

/-- The call stores, takes and uses no commitment. -/
def Op.Uncommitted : Op → Prop
  | .pushCommit _ _ | .takeCommit _ _ | .takeCommitInOrder _ _ | .sign _ => False
  | _ => True

/-- A request to sign is refused before it gets to the commitment. -/
def refusedEarly : List Response :=
  [refuse "No session found for client", refuse "Session is deactivated",
    refuse "Rate limit exceeded. Please try again later."]

/-- What a request says of commitments when it ends. -/
structure ConcludesCommitment (job : Job A) (r : Option Response) (seen : List SignerCall) :
    Prop where
  published : ∀ client data response commit, job.commits = some (client, data) →
    r = some response → response.payload = .commit commit →
      ∃ entry, ⟨.pushCommit client entry, ()⟩ ∈ seen ∧ entry.commitId = commit.commitId ∧
        entry.secret.idx = commit.idx ∧ Published Pt entry.secret commit.hiddenPn commit.binderPn
  taken : ∀ client data, job.completes = some (client, data) → job.schemaValid = true →
    (∃ response ∈ refusedEarly, r = some response) ∨
      ∃ answer, ⟨.takeCommit client data.commitId, answer⟩ ∈ seen
  signed : ∀ client data response, job.completes = some (client, data) → r = some response →
    response.ok = true → ∃ input result, ⟨.sign input, .ok result⟩ ∈ seen

end Calls

theorem Op.Plain.uncommitted {writes : List Coll} (o : Op) (plain : o.Plain writes) :
    o.Uncommitted := by
  cases o <;> first | exact plain | trivial

section Threads

variable {Pt : Type} [AddCommGroup Pt] [Module Scalar Pt] [Curve Pt] {job : Job A}

theorem createCommitPkg_published [Sha2] {share : SecretShare} {hiddenSeed binderSeed : Bytes 32}
    {pkg : CommitmentPackage} (made : createCommitPkg Pt share hiddenSeed binderSeed = .ok pkg) :
    pkg.secretNonce.idx = share.idx ∧
      Published Pt pkg.secretNonce (hexEncode pkg.hiddenPn.data) (hexEncode pkg.binderPn.data) := by
  rw [createCommitPkg] at made
  obtain ⟨binder, shownBinder, made⟩ := bind_ok made
  obtain ⟨hidden, shownHidden, made⟩ := bind_ok made
  cases made
  exact ⟨rfl, ⟨hidden, shownHidden, rfl⟩, ⟨binder, shownBinder, rfl⟩⟩

theorem handles_uncommitted (o : Op) (seen : List SignerCall) (uncommitted : o.Uncommitted) :
    HandlesCommitments Pt job o seen := by
  cases o <;> first | exact uncommitted.elim | trivial

/-- A job that neither commits nor signs. -/
theorem wp_uncommitted {p : SignerProg Response} (only : p.Only Op.Uncommitted)
    (idle : job.commits = none) (idle' : job.completes = none) :
    p.wp (World.thread (HandlesCommitments Pt job)) (ConcludesCommitment Pt job) [] := by
  refine Prog.wp_mono ?_ _ _ (Prog.wp_thread_of_only handles_uncommitted only [])
  intro r seen _
  refine ⟨?_, ?_, ?_⟩
  · intro client data _ _ same
    rw [idle] at same
    cases same
  · intro client data same
    rw [idle'] at same
    cases same
  · intro client data _ same
    rw [idle'] at same
    cases same

/-- A stretch without commitments, before the rest. -/
theorem wp_uncommitted_bind {α β : Type} {p : SignerProg α} {f : α → SignerProg β}
    {Q : Option β → List SignerCall → Prop} {seen : List SignerCall} (only : p.Only Op.Uncommitted)
    (returns : p.Returns)
    (rest : ∀ value newer,
      (f value).wp (World.thread (HandlesCommitments Pt job)) Q (newer ++ seen)) :
    (p >>= f).wp (World.thread (HandlesCommitments Pt job)) Q seen := by
  refine Prog.wp_seq (Prog.wp_thread_of_only handles_uncommitted only seen) ?_ ?_
  · rintro value _ ⟨_, newer, rfl⟩
    exact rest value newer
  · exact fun seen' stops => absurd rfl (stops.1 returns)

theorem uncommitted_checkAndRecordRateLimit (client : Str) :
    (checkAndRecordRateLimit client).Only Op.Uncommitted := by
  have listed : rateLimitByClient ∈ [rateLimitByClient] := List.mem_cons_self
  exact (plain_checkAndRecordRateLimit listed client).mono Op.Plain.uncommitted

theorem returns_checkAndRecordRateLimit (client : Str) :
    (checkAndRecordRateLimit client).Returns := by
  unfold checkAndRecordRateLimit
  rw [Prog.returns_op_bind]
  intro bucket
  refine Prog.Returns.bind ?_ fun limited => ?_
  · cases bucket with
    | none => trivial
    | some bucket => exact fun _ => trivial
  · split
    · trivial
    · exact fun _ _ => trivial

variable [Sha2]

theorem handleSignCommit_thread {auth : NostrAuth} {data : SignCommitRequest} :
    (handleSignCommit Pt auth data).wp
      (World.thread (HandlesCommitments Pt (.request (some auth) (.body (.signCommit data)) : Job A)))
      (ConcludesCommitment Pt (.request (some auth) (.body (.signCommit data)) : Job A)) [] := by
  -- A request to commit neither completes nor signs: only the published commitment is to be shown.
  have concludes : ∀ {r : Option Response} {seen : List SignerCall},
      (∀ response commit, r = some response → response.payload = .commit commit →
        ∃ entry, ⟨.pushCommit auth.pubkey entry, ()⟩ ∈ seen ∧ entry.commitId = commit.commitId ∧
          entry.secret.idx = commit.idx ∧
          Published Pt entry.secret commit.hiddenPn commit.binderPn) →
      ConcludesCommitment Pt (.request (some auth) (.body (.signCommit data)) : Job A) r seen := by
    intro r seen published
    refine ⟨?_, nofun, nofun⟩
    intro client data' response commit same
    cases same
    exact published response commit
  have refused : ∀ {message : String} {seen : List SignerCall}, ConcludesCommitment Pt
      (.request (some auth) (.body (.signCommit data)) : Job A) (some (refuse message)) seen := by
    intro message seen
    apply concludes
    intro response commit same payload
    cases same
    cases payload
  have stopped : ∀ {seen : List SignerCall}, ConcludesCommitment Pt
      (.request (some auth) (.body (.signCommit data)) : Job A) none seen :=
    concludes fun _ _ same => nomatch same
  unfold handleSignCommit
  dsimp only
  rw [Prog.wp_op_bind]
  refine ⟨trivial, ?_⟩
  rintro answer _ rfl
  cases answer with
  | none => exact refused
  | some session =>
    dsimp only
    split
    · exact refused
    refine wp_uncommitted_bind (uncommitted_checkAndRecordRateLimit _)
      (returns_checkAndRecordRateLimit _) ?_
    intro admitted newer
    split
    · exact refused
    split
    · exact refused
    next member =>
    split
    · exact refused
    next seckey decoded =>
    rw [Prog.wp_op_bind]
    refine ⟨trivial, ?_⟩
    rintro binderSeed _ rfl
    rw [Prog.wp_op_bind]
    refine ⟨trivial, ?_⟩
    rintro hiddenSeed _ rfl
    -- Both seeds are drawn before the package is made, so the pushed entry holds what is answered.
    cases made : createCommitPkg Pt { idx := session.share.idx, seckey } hiddenSeed binderSeed with
    | error fault =>
      cases fault with
      | err e => exact stopped
      | panic reason => exact stopped
    | ok pkg =>
      obtain ⟨own, published⟩ := createCommitPkg_published made
      rw [ofResult, Prog.pure_bind]
      dsimp only
      refine wp_uncommitted_bind ⟨trivial, fun _ => trivial⟩ (fun _ => trivial) ?_
      intro commitId drawn
      rw [Prog.wp_op_bind]
      refine ⟨trivial, ?_⟩
      rintro createdAt _ rfl
      rw [Prog.wp_op_bind]
      refine ⟨⟨data, session, ⟨.now, createdAt⟩ :: (drawn ++ ⟨.randomBytes32, hiddenSeed⟩ ::
        ⟨.randomBytes32, binderSeed⟩ :: newer), seckey, rfl, by simp, rfl, own,
        not_not.mp member, decoded⟩, ?_⟩
      rintro _ _ rfl
      -- The entry is in the pool by now: an answer, if there is one, names it.
      cases getPubkey Pt seckey with
      | error fault =>
        cases fault with
        | err e => exact stopped
        | panic reason => exact stopped
      | ok pubkey =>
        apply concludes
        intro response commit same payload
        cases same
        cases payload
        exact ⟨_, List.mem_cons_self, rfl, own, published⟩

theorem handleSignComplete_thread {auth : NostrAuth} {data : SignCompleteRequest} :
    (handleSignComplete Pt auth data).wp
      (World.thread (HandlesCommitments Pt (.request (some auth) (.body (.signComplete data)) : Job A)))
      (ConcludesCommitment Pt (.request (some auth) (.body (.signComplete data)) : Job A)) [] := by
  -- Refused before the commitment is taken: the pool still has it.
  have early : ∀ {message : String} {seen : List SignerCall}, refuse message ∈ refusedEarly →
      ConcludesCommitment Pt (.request (some auth) (.body (.signComplete data)) : Job A)
        (some (refuse message)) seen := by
    intro message seen listed
    refine ⟨nofun, fun _ _ _ _ => .inl ⟨_, listed, rfl⟩, ?_⟩
    intro client data' response _ same ok
    cases same
    cases ok
  -- Past the take, the history itself shows the call that used the commitment up.
  have late : ∀ {r : Option Response} {seen : List SignerCall},
      (∃ answer, ⟨.takeCommit auth.pubkey data.commitId, answer⟩ ∈ seen) →
      (∀ response, r = some response → response.ok = true →
        ∃ input result, ⟨.sign input, .ok result⟩ ∈ seen) →
      ConcludesCommitment Pt (.request (some auth) (.body (.signComplete data)) : Job A) r seen := by
    intro r seen taken signed
    refine ⟨nofun, ?_, ?_⟩
    · intro client data' same _
      cases same
      exact .inr taken
    · intro client data' response _
      exact signed response
  have refused : ∀ {message : String} {seen : List SignerCall},
      (∃ answer, ⟨.takeCommit auth.pubkey data.commitId, answer⟩ ∈ seen) →
      ConcludesCommitment Pt (.request (some auth) (.body (.signComplete data)) : Job A)
        (some (refuse message)) seen := by
    intro message seen taken
    refine late taken ?_
    intro response same ok
    cases same
    cases ok
  have stopped : ∀ {seen : List SignerCall},
      (∃ answer, ⟨.takeCommit auth.pubkey data.commitId, answer⟩ ∈ seen) →
      ConcludesCommitment Pt (.request (some auth) (.body (.signComplete data)) : Job A) none seen :=
    fun taken => late taken fun _ same => nomatch same
  unfold handleSignComplete
  dsimp only
  rw [Prog.wp_op_bind]
  refine ⟨trivial, ?_⟩
  rintro answer _ rfl
  cases answer with
  | none => exact early (by simp [refusedEarly])
  | some session =>
    dsimp only
    split
    · exact early (by simp [refusedEarly])
    refine wp_uncommitted_bind (uncommitted_checkAndRecordRateLimit _)
      (returns_checkAndRecordRateLimit _) ?_
    intro admitted newer
    split
    · exact early (by simp [refusedEarly])
    -- From here on the commitment is gone, whatever comes of the request.
    rw [takeCommit, Prog.wp_op_bind]
    refine ⟨⟨data, rfl, rfl⟩, ?_⟩
    rintro answer _ rfl
    have taken : ∃ answer' : Option CommitEntry,
        (⟨.takeCommit auth.pubkey data.commitId, answer'⟩ : SignerCall) ∈
          ⟨.takeCommit auth.pubkey data.commitId, answer⟩ ::
            (newer ++ [⟨.get sessions auth.pubkey, some session⟩]) := ⟨answer, List.mem_cons_self⟩
    cases answer with
    | none => exact refused taken
    | some entry =>
      dsimp only
      split
      · exact refused taken
      next members =>
      split
      · exact refused taken
      next valid =>
      cases matched : ownMatches Pt entry.secret data.pnonces with
      | error fault =>
        cases fault with
        | err e => exact refused taken
        | panic reason => exact stopped taken
      | ok own =>
        cases own with
        | false => exact refused taken
        | true =>
          rw [ofResult, Prog.pure_bind]
          dsimp only
          split
          · exact refused taken
          rw [Prog.wp_op_bind]
          -- All checks have passed on the entry that the take has answered.
          refine ⟨⟨auth.pubkey, data, session, entry, newer, rfl, rfl, rfl, not_not.mp members,
            by simpa using valid, matched⟩, ?_⟩
          rintro outcome _ rfl
          have taken := taken.imp fun _ member => List.mem_cons_of_mem
            (⟨.sign { group := session.group, request := data.request, share := session.share,
                      secret := entry.secret, pnonces := data.pnonces }, outcome⟩ : SignerCall) member
          cases outcome with
          | error fault =>
            cases fault with
            | err e => exact refused taken
            | panic reason => exact stopped taken
          | ok result =>
            rw [ofResult, Prog.pure_bind]
            dsimp only
            rw [Prog.wp_op_bind]
            refine ⟨trivial, ?_⟩
            rintro lastActivity _ rfl
            rw [Prog.wp_op_bind]
            refine ⟨trivial, ?_⟩
            rintro _ _ rfl
            refine late ?_ fun _ _ _ => ⟨_, result,
              List.mem_cons_of_mem _ (List.mem_cons_of_mem _ List.mem_cons_self)⟩
            exact taken.imp fun _ member => List.mem_cons_of_mem _ (List.mem_cons_of_mem _ member)

omit [Sha2] in
theorem uncommitted_handleLoginStart (auth : NostrAuth) (data : StartRequest Auth) :
    (handleLoginStart auth data).Only Op.Uncommitted := by
  unfold handleLoginStart
  exact only_startWith trivial (fun _ _ => trivial) (fun _ => trivial) (fun _ _ => trivial)
    (fun _ _ _ => Prog.only_op.mpr trivial) auth data

omit [Sha2] in
theorem uncommitted_handleRecoveryStart (auth : NostrAuth) (data : StartRequest Auth) :
    (handleRecoveryStart auth data).Only Op.Uncommitted := by
  unfold handleRecoveryStart
  exact only_startWith trivial (fun _ _ => trivial) (fun _ => trivial) (fun _ _ => trivial)
    (fun _ _ _ => Prog.only_op.mpr trivial) auth data

theorem dispatch_commitments [Argon2] {options : SignerOptions} (auth : NostrAuth) (body : Body Auth) :
    (dispatch Pt options auth body).wp
      (World.thread (HandlesCommitments Pt (.request (some auth) (.body body))))
      (ConcludesCommitment Pt (.request (some auth) (.body body))) [] := by
  cases body with
  | signCommit data => exact handleSignCommit_thread
  | signComplete data => exact handleSignComplete_thread
  | challenge data =>
    exact wp_uncommitted ((plain_handleChallenge data).mono Op.Plain.uncommitted) rfl rfl
  | ecdh data => exact wp_uncommitted ((plain_handleEcdh auth data).mono Op.Plain.uncommitted) rfl rfl
  | loginSelect data =>
    exact wp_uncommitted ((plain_handleLoginSelect auth data).mono Op.Plain.uncommitted) rfl rfl
  | loginStart data => exact wp_uncommitted (uncommitted_handleLoginStart auth data) rfl rfl
  | recoverySelect data =>
    exact wp_uncommitted ((plain_handleRecoverySelect auth data).mono Op.Plain.uncommitted) rfl rfl
  | recoverySetup data =>
    exact wp_uncommitted ((plain_handleRecoverySetup auth data).mono Op.Plain.uncommitted) rfl rfl
  | recoveryStart data => exact wp_uncommitted (uncommitted_handleRecoveryStart auth data) rfl rfl
  | register data =>
    exact wp_uncommitted ((plain_handleRegister auth data).mono Op.Plain.uncommitted) rfl rfl
  | sessionDeactivate data =>
    exact wp_uncommitted ((plain_handleSessionDeactivate auth data).mono Op.Plain.uncommitted) rfl rfl
  | sessionDelete data =>
    exact wp_uncommitted ((plain_handleSessionDelete auth data).mono Op.Plain.uncommitted) rfl rfl
  | sessionList =>
    exact wp_uncommitted ((plain_handleSessionList auth).mono Op.Plain.uncommitted) rfl rfl

/-- What every job does with commitments. -/
theorem handle_commitments [Argon2] (options : SignerOptions) (job : Job Auth) :
    (handle Pt options job).wp (World.thread (HandlesCommitments Pt job))
      (ConcludesCommitment Pt job) [] := by
  have invalid : ∀ (auth : NostrAuth) (body : Body Auth), body.schemaValid ≠ true →
      ∀ {message : String}, ConcludesCommitment Pt (.request (some auth) (.body body))
        (some (refuse message)) [] := by
    intro auth body invalid message
    refine ⟨?_, fun _ _ _ valid => absurd valid invalid, ?_⟩
    · intro client data response commit _ same payload
      cases same
      cases payload
    · intro client data response _ same ok
      cases same
      cases ok
  unfold handle
  split
  · exact ⟨nofun, nofun, nofun⟩
  · exact ⟨nofun, nofun, nofun⟩
  · exact ⟨nofun, nofun, nofun⟩
  next auth body =>
    split
    · exact dispatch_commitments auth body
    next wrong => exact invalid auth body wrong
  · refine wp_uncommitted (Prog.Only.bind ?_ fun _ => trivial) rfl rfl
    exact only_cleanup (fun _ => trivial) trivial (fun _ _ _ => trivial) fun _ => trivial

end Threads

end Pomade.Signer
