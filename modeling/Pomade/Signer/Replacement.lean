import Pomade.Signer.Sessions
import Pomade.Signer.SignerSet

/-! # Sessions replaced while a commitment is pending

A commitment is kept beside the sessions, and is not dropped when its session is deleted and
another one is registered under the same key.  What is signed with it is then signed with the
share that is stored at that time.  The index of the share and the public nonce are those of the
commitment all the same, and the share is the same as well if the session was there throughout.
-/

namespace Pomade.Signer

open Pomade.Lib Pomade.Frost Coll

/-! ## Calls -/

section Calls

variable {signing : SigningFn} {R : Nat → Nat → Prop} {s : State} {calls : List SignerCall}
variable {α : Type}

theorem Op.Plain.untouched {writes : List Coll} (o : Op) (plain : o.Plain writes) :
    ¬ o.TouchesPending := by
  intro touches
  cases o with
  | pushCommit client entry => exact plain
  | takeCommit client commitId => exact plain
  | takeCommitInOrder client commitId => exact plain
  | reapCommits cutoff => exact plain
  | _ => exact touches

theorem commits_of_only {program : SignerProg α} (only : program.Only fun o => ¬ o.TouchesPending) :
    Prog.wp (traced signing R) program (fun _ p => p.1.commitsByClient = s.commitsByClient)
      (s, calls) :=
  Prog.wp_of_only (W := traced signing R)
    (R := fun p p' => p'.1.commitsByClient = p.1.commitsByClient) (fun _ => rfl)
    (fun first second => second.trans first)
    (fun _ _ _ _ untouched step => commits_of_step untouched step.1) (fun _ _ => trivial) only
    (s, calls)

/-- The limiter touches neither the registry nor the commitments. -/
theorem limiter_beside [IsPreorder Nat R] {client : Str} :
    Prog.wp (traced signing R) (checkAndRecordRateLimit client)
      (fun r p => ∃ admitted, r = some admitted ∧ Quiet R s p.1 ∧
        p.1.commitsByClient = s.commitsByClient) (s, calls) := by
  have listed : rateLimitByClient ∈ [rateLimitByClient] := List.mem_cons_self
  have only := (plain_checkAndRecordRateLimit listed client).mono Op.Plain.untouched
  refine Prog.wp_mono ?_ _ _ (Prog.wp_and checkAndRecordRateLimit_spec (commits_of_only only))
  intro r p both
  obtain ⟨⟨admitted, returned, quiet⟩, same⟩ := both
  exact ⟨admitted, returned, quiet, same⟩

/-- What is pending after some calls was pending before, or was put there by one of them. -/
theorem pending_of_calls (client : Str) {program : SignerProg α} :
    Prog.wp (traced signing R) program
      (fun _ p => ∃ new, p.2 = new ++ calls ∧ ∀ entry ∈ p.1.pending client,
        entry ∈ s.pending client ∨ ⟨.pushCommit client entry, ()⟩ ∈ new) (s, calls) := by
  refine Prog.wp_of_only (W := traced signing R) (P := fun _ => True)
    (R := fun p p' => ∃ new, p'.2 = new ++ p.2 ∧ ∀ entry ∈ p'.1.pending client,
      entry ∈ p.1.pending client ∨ ⟨.pushCommit client entry, ()⟩ ∈ new)
    ?_ ?_ ?_ (fun _ _ => trivial) (Prog.only_true program) (s, calls)
  · exact fun p => ⟨[], rfl, fun entry member => .inl member⟩
  · intro p p' p'' first second
    obtain ⟨new, grown, first⟩ := first
    obtain ⟨new', grown', second⟩ := second
    refine ⟨new' ++ new, by rw [grown', grown, List.append_assoc], fun entry member => ?_⟩
    cases second entry member with
    | inr pushed => exact .inr (List.mem_append_left _ pushed)
    | inl kept => exact (first entry kept).imp_right (List.mem_append_right _)
  · intro o p answer p' _ step
    obtain ⟨step, grown⟩ := step
    refine ⟨[⟨o, answer⟩], grown, fun entry member => ?_⟩
    cases pending_of_step client step with
    | inl fewer => exact .inl (fewer.subset member)
    | inr pushed =>
      obtain ⟨entry', put, pending⟩ := pushed
      subst put
      rw [pending] at member
      cases List.mem_append.mp member with
      | inl earlier => exact .inl earlier
      | inr last =>
        rw [List.mem_singleton.mp last]
        exact .inr List.mem_cons_self

end Calls

/-! ## Handlers -/

section Handlers

variable (Pt : Type) [AddCommGroup Pt] [Module Scalar Pt] [Curve Pt]

/-- A commitment that a request of a client makes for the session that it finds, and what the
request answers. -/
structure Makes (s : State) (client : Str) (data : SignCommitRequest) (r : Option Response)
    (entry : CommitEntry) (session : SignerSession) : Prop where
  stored : s.sessions.get client = some session
  members : entry.members = data.members
  idx : entry.secret.idx = session.share.idx
  member : session.share.idx ∈ data.members
  published : ∀ response commit, r = some response → response.payload = .commit commit →
    commit.commitId = entry.commitId ∧ commit.idx = entry.secret.idx ∧
      Published Pt entry.secret commit.hiddenPn commit.binderPn

variable {Pt} [Sha2] {R : Nat → Nat → Prop} [IsPreorder Nat R] {s : State}
variable {calls : List SignerCall}

/-- A request to commit makes a commitment, or it leaves the pending ones alone and answers none. -/
theorem handleSignCommit_makes {auth : NostrAuth} {data : SignCommitRequest} :
    Prog.wp (traced (createPsigPkgWithNonce Pt) R) (handleSignCommit Pt auth data)
      (fun r p => (p.1.pending auth.pubkey = s.pending auth.pubkey ∧
          ∀ response commit, r = some response → response.payload ≠ .commit commit) ∨
        ∃ entry session, p.1.pending auth.pubkey = s.pending auth.pubkey ++ [entry] ∧
          entry.createdAt = p.1.clock ∧ Makes Pt s auth.pubkey data r entry session) (s, calls) := by
  have refused : ∀ {s' : State} {message : String}, s'.commitsByClient = s.commitsByClient →
      s'.pending auth.pubkey = s.pending auth.pubkey ∧ ∀ response commit,
        some (refuse message) = some response → response.payload ≠ .commit commit := by
    intro s' message same
    refine ⟨by rw [State.pending, same, State.pending], fun response commit returned => ?_⟩
    cases returned
    simp [refuse]
  have stopped : ∀ {s' : State}, s'.commitsByClient = s.commitsByClient →
      s'.pending auth.pubkey = s.pending auth.pubkey ∧ ∀ (response : Response) commit,
        none = some response → response.payload ≠ .commit commit := by
    intro s' same
    refine ⟨by rw [State.pending, same, State.pending], fun response commit returned => ?_⟩
    cases returned
  unfold handleSignCommit
  dsimp only
  rw [wp_get]
  cases stored : (s.table sessions).get auth.pubkey with
  | none => exact .inl (refused rfl)
  | some session =>
    dsimp only
    split
    · exact .inl (refused rfl)
    refine Prog.wp_then limiter_beside ?_
    intro admitted p limited
    obtain ⟨s₁, calls₁⟩ := p
    obtain ⟨_, same⟩ := limited
    split
    · exact .inl (refused same)
    split
    · exact .inl (refused same)
    next member =>
    cases decode32 session.share.seckey with
    | none => exact .inl (refused same)
    | some seckey =>
      dsimp only
      rw [wp_randomBytes32]
      intro binderSeed
      rw [wp_randomBytes32]
      intro hiddenSeed
      refine wp_ofResult ?_ ?_ (.inl (stopped same))
      · intro pkg made
        obtain ⟨own, published⟩ := createCommitPkg_published made
        dsimp only
        refine Prog.wp_then randomCommitId_spec ?_
        intro commitId p drawn
        obtain ⟨s₂, calls₂⟩ := p
        have drawn : s₂ = s₁ := drawn
        subst drawn
        rw [wp_now]
        intro createdAt later
        rw [wp_pushCommit]
        -- What is pending now is what was, and the new commitment.
        have here := pending_push { s₂ with clock := createdAt } auth.pubkey auth.pubkey
          { commitId, members := data.members, secret := pkg.secretNonce, createdAt }
        have before : s₂.pending auth.pubkey = s.pending auth.pubkey := by
          rw [State.pending, same, State.pending]
        replace here := (here.trans (if_pos rfl)).trans (congrArg (· ++ _) before)
        have pushed : ∀ {r : Option Response},
            (∀ response commit, r = some response → response.payload = .commit commit →
              commit.commitId = commitId ∧ commit.idx = session.share.idx ∧
                commit.hiddenPn = hexEncode pkg.hiddenPn.data ∧
                commit.binderPn = hexEncode pkg.binderPn.data) →
            Makes Pt s auth.pubkey data r
              { commitId, members := data.members, secret := pkg.secretNonce, createdAt } session := by
          intro r answers
          refine ⟨stored, rfl, own, not_not.mp member, ?_⟩
          intro response commit returned payload
          obtain ⟨named, idx, hidden, binder⟩ := answers response commit returned payload
          rw [hidden, binder]
          exact ⟨named, idx.trans own.symm, published⟩
        refine wp_ofResult ?_ ?_ ?_
        · intro pubkey _
          refine .inr ⟨_, session, here, rfl, pushed ?_⟩
          intro response commit returned payload
          cases returned
          cases payload
          exact ⟨rfl, rfl, rfl, rfl⟩
        · intro e _
          refine .inr ⟨_, session, here, rfl, pushed ?_⟩
          intro response commit returned
          cases returned
        · refine .inr ⟨_, session, here, rfl, pushed ?_⟩
          intro response commit returned
          cases returned
      · intro e _
        exact .inl (stopped same)

omit [Sha2] in
theorem idx_of_signMsg {ctx : GroupSigningCtx Pt} {share : SecretShare} {snonce : SecretNonce}
    {sig : ShareSignature} (signed : signMsg ctx share snonce = .ok sig) :
    snonce.idx = share.idx := by
  by_contra other
  rw [signMsg, if_pos other] at signed
  have impossible : (Except.error _ : Result ShareSignature) = .ok sig := signed
  cases impossible

theorem tweakSecretNonce_idx (secret : SecretNonce) (sessionId : Bytes 32) (sigvec : List Str) :
    (tweakSecretNonce secret sessionId sigvec).idx = secret.idx := by
  rw [tweakSecretNonce]

/-- What is signed is signed for the index of the nonce. -/
theorem idx_of_signed {input : SigningInput} {result : SignCompleteResult}
    (signed : createPsigPkgWithNonce Pt input = .ok result) :
    input.share.idx = input.secret.idx := by
  rw [createPsigPkgWithNonce] at signed
  obtain ⟨⟨sighash, ctx⟩, _, signed⟩ := bind_ok signed
  obtain ⟨seckey, _, signed⟩ := bind_ok signed
  obtain ⟨pubkey, _, signed⟩ := bind_ok signed
  obtain ⟨sig, signed, _⟩ := bind_ok signed
  have own := idx_of_signMsg signed
  rw [tweakSecretNonce_idx] at own
  exact own.symm

variable (Pt) in
/-- A request to sign takes a commitment that is pending and signs with it and the session that is
stored. -/
structure Signs (s s' : State) (client : Str) (data : SignCompleteRequest) (session : SignerSession)
    (entry : CommitEntry) (result : SignCompleteResult) : Prop where
  stored : s.sessions.get client = some session
  taken : (entry :: s'.pending client).Perm (s.pending client)
  named : entry.commitId = data.commitId
  spends : Spends Pt session entry data
    { group := session.group, request := data.request, share := session.share,
      secret := entry.secret, pnonces := data.pnonces }
  signed : createPsigPkgWithNonce Pt
    { group := session.group, request := data.request, share := session.share,
      secret := entry.secret, pnonces := data.pnonces } = .ok result

theorem handleSignComplete_signs {auth : NostrAuth} {data : SignCompleteRequest} :
    Prog.wp (traced (createPsigPkgWithNonce Pt) R) (handleSignComplete Pt auth data)
      (fun r p => ∀ response, r = some response → response.ok = true → ∃ session entry result,
        response.payload = .psig result ∧ Signs Pt s p.1 auth.pubkey data session entry result)
      (s, calls) := by
  have refused : ∀ {s' : State} {message : String} (response : Response),
      some (refuse message) = some response → response.ok = true → ∃ session entry result,
        response.payload = .psig result ∧ Signs Pt s s' auth.pubkey data session entry result := by
    intro s' message response same ok
    cases same
    cases ok
  have stopped : ∀ {s' : State} (response : Response),
      none = some response → response.ok = true → ∃ session entry result,
        response.payload = .psig result ∧ Signs Pt s s' auth.pubkey data session entry result := by
    intro s' response same
    cases same
  unfold handleSignComplete
  dsimp only
  rw [wp_get]
  cases stored : (s.table sessions).get auth.pubkey with
  | none => exact refused
  | some session =>
    dsimp only
    split
    · exact refused
    -- The limiter writes a bucket only, so the pool at the take is that of the start.
    refine Prog.wp_then limiter_beside ?_
    intro admitted p limited
    obtain ⟨s₁, calls₁⟩ := p
    obtain ⟨_, same⟩ := limited
    split
    · exact refused
    rw [takeCommit, wp_takePending]
    cases taken : (s₁.takeCommit swapRemove auth.pubkey data.commitId).1 with
    | none => exact refused
    | some entry =>
      dsimp only
      split
      · exact refused
      next members =>
      split
      · exact refused
      next valid =>
      refine wp_ofResult ?_ ?_ stopped
      · intro own matched
        cases own with
        | false => exact refused
        | true =>
          dsimp only
          split
          · exact refused
          rw [wp_sign]
          refine wp_ofResult ?_ ?_ stopped
          · intro result signed
            dsimp only
            rw [wp_now]
            intro t later
            rw [wp_set]
            -- The one path that answers with a signature share.
            intro response returned _
            cases returned
            obtain ⟨named, removed, _⟩ := takeCommit_some removes_swapRemove taken
            have before : s₁.pending auth.pubkey = s.pending auth.pubkey := by
              rw [State.pending, same]
              rfl
            refine ⟨session, entry, result, rfl, stored, ?_, named, ⟨rfl, not_not.mp members, ?_,
              matched⟩, signed⟩
            · rw [← before]
              exact removed
            · simpa using valid
          · intro e _
            exact refused
      · intro e _
        exact refused

end Handlers

/-! ## Runs -/

section Runs

variable (Pt : Type) [AddCommGroup Pt] [Module Scalar Pt] [Curve Pt]

/-- A request of the client has made the commitment for the session that was there.  If the client
has had a session ever since, the one that is there has evolved from that one. -/
def CommittedIn (client : Str) (entry : CommitEntry) (events : List RustEvent) (s : State) : Prop :=
  ∃ between e earlier data session, events = between ++ e :: earlier ∧
    e.job.commits = some (client, data) ∧ Makes Pt e.before client data e.result entry session ∧
    ((∀ e' ∈ between, e'.after.sessions.get client ≠ none) →
      ∃ session', s.sessions.get client = some session' ∧ session.Evolves client session')

variable {Pt} [Sha2] [Argon2] {options : SignerOptions} {client : Str}

omit [Sha2] [Argon2] in
theorem commits_eq {A : Type} {job : Job A} {data : SignCommitRequest}
    (commits : job.commits = some (client, data)) :
    ∃ auth, job = .request (some auth) (.body (.signCommit data)) ∧ auth.pubkey = client := by
  unfold Job.commits at commits
  split at commits
  · cases commits
    exact ⟨_, rfl, rfl⟩
  · cases commits

omit [Sha2] [Argon2] in
theorem completes_eq {A : Type} {job : Job A} {data : SignCompleteRequest}
    (completes : job.completes = some (client, data)) :
    ∃ auth, job = .request (some auth) (.body (.signComplete data)) ∧ auth.pubkey = client := by
  unfold Job.completes at completes
  split at completes
  · cases completes
    exact ⟨_, rfl, rfl⟩
  · cases completes

omit [Sha2] [Argon2] in
/-- A request that uses a share takes no session away. -/
theorem Step.keeps_of_usesShare {A : Type} {rules : Rules} {R : Nat → Nat → Prop} {r r' : Registry}
    {auth : NostrAuth} {body : Body A} (step : Step rules R (.request (some auth) (.body body)) r r')
    (uses : body.UsesShare) (stored : r.sessions.get client ≠ none) :
    r'.sessions.get client ≠ none := by
  cases step with
  | idle _ => exact stored
  | touch _ _ _ _ =>
    intro absent
    rw [Registry.putSession, Table.get_set] at absent
    split at absent
    · cases absent
    · exact stored absent
  | _ => exact uses.elim

/-- What the event of a request to commit has done. -/
theorem commit_happens {e : RustEvent} (happens : e.Happens (rustWorld Pt (· ≤ ·)) (handle Pt options))
    {auth : NostrAuth} {data : SignCommitRequest}
    (job : e.job = .request (some auth) (.body (.signCommit data))) :
    (e.after.pending auth.pubkey = e.before.pending auth.pubkey ∧
        ∀ response commit, e.result = some response → response.payload ≠ .commit commit) ∨
      ∃ entry session, e.after.pending auth.pubkey = e.before.pending auth.pubkey ++ [entry] ∧
        entry.createdAt = e.after.clock ∧ Makes Pt e.before auth.pubkey data e.result entry session := by
  refine of_body happens job (Q := fun r p =>
    (p.1.pending auth.pubkey = e.before.pending auth.pubkey ∧
        ∀ response commit, r = some response → response.payload ≠ .commit commit) ∨
      ∃ entry session, p.1.pending auth.pubkey = e.before.pending auth.pubkey ++ [entry] ∧
        entry.createdAt = p.1.clock ∧ Makes Pt e.before auth.pubkey data r entry session)
    (fun _ => handleSignCommit_makes) fun _ => .inl ⟨rfl, fun response commit returned => ?_⟩
  cases returned
  simp [refuse]

/-- What is pending after an event was pending before, or the event is the request that has made
it. -/
theorem makes_of_happens {e : RustEvent}
    (happens : e.Happens (rustWorld Pt (· ≤ ·)) (handle Pt options)) {entry : CommitEntry}
    (pending : entry ∈ e.after.pending client) :
    entry ∈ e.before.pending client ∨ ∃ data session, e.job.commits = some (client, data) ∧
      Makes Pt e.before client data e.result entry session := by
  have grown : ∀ entry ∈ e.after.pending client, entry ∈ e.before.pending client ∨
      ⟨.pushCommit client entry, ()⟩ ∈ e.calls := by
    refine happens.of_wp (Q := fun _ p => ∀ entry ∈ p.1.pending client,
      entry ∈ e.before.pending client ∨ ⟨.pushCommit client entry, ()⟩ ∈ p.2) ?_
    refine Prog.wp_mono ?_ _ _ (pending_of_calls client)
    intro _ p grows
    obtain ⟨new, calls, grown⟩ := grows
    rw [calls, List.append_nil]
    exact grown
  cases grown entry pending with
  | inl kept => exact .inl kept
  | inr pushed =>
    -- Only a request to commit puts a commitment there.
    obtain ⟨newer, older, split⟩ := List.append_of_mem pushed
    have chain := (Pool.of_thread happens (handle_commitments options e.job)).2
    rw [split] at chain
    obtain ⟨data, _, _, _, commits, _⟩ := chain.of_append
    obtain ⟨auth, job, same⟩ := commits_eq commits
    subst same
    obtain kept | made := commit_happens happens job
    · exact .inl (kept.1 ▸ pending)
    · obtain ⟨new, session, grown, _, makes⟩ := made
      rw [grown] at pending
      cases List.mem_append.mp pending with
      | inl earlier => exact .inl earlier
      | inr last =>
        rw [List.mem_singleton.mp last]
        exact .inr ⟨data, session, commits, makes⟩

/-- Whatever is pending was committed to in the run. -/
theorem committedIn_of_pending {ok : RustEvent → Prop} {events : List RustEvent} {s : State}
    (run : RustRuns Pt options (· ≤ ·) Opened ok events s) :
    s.registry.Orderly ∧ ∀ entry ∈ s.pending client, CommittedIn Pt client entry events s := by
  induction run with
  | start s initial =>
    obtain ⟨clock, same⟩ := initial
    subst same
    exact ⟨opened_orderly clock, fun entry member => nomatch member⟩
  | step e earlier happens _ ih =>
    obtain ⟨orderly, committed⟩ := ih
    have step := registry_step happens
    refine ⟨step.orderly orderly, fun entry pending => ?_⟩
    cases makes_of_happens happens pending with
    | inr made =>
      obtain ⟨data, session, commits, makes⟩ := made
      refine ⟨[], e, _, data, session, rfl, commits, makes, fun _ => ?_⟩
      obtain ⟨auth, job, same⟩ := commits_eq commits
      have sessions : e.after.sessions.get client ≠ none := by
        rw [job] at step
        have stored : e.before.registry.sessions.get client ≠ none :=
          makes.stored.trans_ne (Option.some_ne_none session)
        exact step.keeps_of_usesShare trivial stored
      obtain ⟨session', stored⟩ := Option.ne_none_iff_exists'.mp sessions
      exact ⟨session', stored, step.evolves orderly makes.stored stored⟩
    | inl before =>
      obtain ⟨between, e₀, rest, data, session, split, commits, makes, evolves⟩ :=
        committed entry before
      refine ⟨e :: between, e₀, rest, data, session, ?_, commits, makes, fun present => ?_⟩
      · rw [split, List.cons_append]
      · rw [List.forall_mem_cons] at present
        obtain ⟨session₁, stored₁, evolved⟩ := evolves present.2
        obtain ⟨session₂, stored₂⟩ := Option.ne_none_iff_exists'.mp present.1
        exact ⟨session₂, stored₂, evolved.trans (step.evolves orderly stored₁ stored₂)⟩

variable (Pt) in
/-- What is signed for a request is bound to a commitment by the index of the share, by the members
and by the public nonce at that index. -/
structure Bound (session session₀ : SignerSession) (data₀ : SignCommitRequest)
    (data : SignCompleteRequest) (entry : CommitEntry) : Prop where
  idx : session.share.idx = session₀.share.idx
  members : data.request.members = data₀.members
  listed : ∃ pn ∈ data.pnonces, pn.idx = session.share.idx
  published : ∀ pn ∈ data.pnonces, pn.idx = session.share.idx →
    Published Pt entry.secret pn.hiddenPn pn.binderPn

omit [Argon2] in
theorem bound_of_signs {s s' s₀ : State} {data₀ : SignCommitRequest} {data : SignCompleteRequest}
    {r₀ : Option Response} {entry : CommitEntry} {session session₀ : SignerSession}
    {result : SignCompleteResult} (signs : Signs Pt s s' client data session entry result)
    (makes : Makes Pt s₀ client data₀ r₀ entry session₀) :
    Bound Pt session session₀ data₀ data entry := by
  have own : session.share.idx = entry.secret.idx := idx_of_signed signs.signed
  have member : entry.secret.idx ∈ entry.members := by
    rw [makes.idx, makes.members]
    exact makes.member
  obtain ⟨listed, published⟩ := published_of_spends signs.spends member
  rw [← own] at listed published
  exact ⟨own.trans makes.idx, signs.spends.members.trans makes.members, listed, published⟩

/-- Whatever becomes of the session of a client, what is signed for it with a commitment is signed
with the share of the index, for the members and with the public nonce of the commitment.  As long
as the client has had a session ever since the commitment, it is the share of that time. -/
theorem signs_as_committed {ok : RustEvent → Prop} {events : List RustEvent} {e : RustEvent}
    {s : State} (run : RustRuns Pt options (· ≤ ·) Opened ok (e :: events) s)
    {data : SignCompleteRequest} {response : Response} (completes : e.job.completes = some (client, data))
    (answered : e.result = some response) (accepted : response.ok = true) :
    ∃ between e₀ earlier data₀ session₀ session entry result,
      events = between ++ e₀ :: earlier ∧ e₀.job.commits = some (client, data₀) ∧
      Makes Pt e₀.before client data₀ e₀.result entry session₀ ∧ response.payload = .psig result ∧
      Signs Pt e.before e.after client data session entry result ∧
      Bound Pt session session₀ data₀ data entry ∧
      ((∀ e' ∈ between, e'.after.sessions.get client ≠ none) →
        session.share = session₀.share ∧ session.group = session₀.group) := by
  cases run with
  | step _ earlier happens _ =>
    obtain ⟨auth, job, same⟩ := completes_eq completes
    subst same
    have signed := of_body happens job (Q := fun r p => ∀ response, r = some response →
      response.ok = true → ∃ session entry result, response.payload = .psig result ∧
        Signs Pt e.before p.1 auth.pubkey data session entry result)
      (fun _ => handleSignComplete_signs) (fun _ response same ok => by cases same; cases ok)
    obtain ⟨session, entry, result, payload, signs⟩ := signed response answered accepted
    have pending : entry ∈ e.before.pending auth.pubkey := signs.taken.subset List.mem_cons_self
    obtain ⟨between, e₀, rest, data₀, session₀, split, commits, makes, evolves⟩ :=
      (committedIn_of_pending earlier).2 entry pending
    refine ⟨between, e₀, rest, data₀, session₀, session, entry, result, split, commits, makes,
      payload, signs, bound_of_signs signs makes, fun present => ?_⟩
    obtain ⟨session', stored, evolved⟩ := evolves present
    rw [signs.stored] at stored
    cases stored
    exact ⟨evolved.share, evolved.group⟩

end Runs

namespace Sample

/-- A client commits, and its session is deleted and another one registered. -/
def replacedRun : List (Job Auth × Nat) :=
  [(register (clientKey 1) [1, 2], 1000), (signCommitFor (clientKey 1) [1, 2], 1001),
    (job userKey (.sessionDelete { client := (clientKey 1).pubkey }), 1002),
    (register (clientKey 1) [1, 2], 1003)]

/-- A request to sign with the commitment. -/
def late : SignCompleteRequest := completion [1, 2] [ownNonce, { ownNonce with idx := 2 }]

section

attribute [local instance] sha2 argon2

def signedLate : RustEvent := next (job (clientKey 1) (.signComplete late)) 1004 (play replacedRun).2

theorem signedLate_before : signedLate.before = (play replacedRun).2 := by
  rw [signedLate, next, Event.ofRun]

theorem signedLate_happens :
    signedLate.Happens (rustWorld Scalar (· ≤ ·)) (handle Scalar options) :=
  Event.happens_ofRun (by decide +kernel)

end

end Sample

theorem signs_as_committed_replaced :
    let _ := Sample.sha2
    let _ := Sample.argon2
    ∃ response, Sample.signedLate.result = some response ∧
      ∃ between e₀ earlier data₀ session₀ session entry result,
        (Sample.play Sample.replacedRun).1 = between ++ e₀ :: earlier ∧
        e₀.job.commits = some ((Sample.clientKey 1).pubkey, data₀) ∧
        Makes Scalar e₀.before (Sample.clientKey 1).pubkey data₀ e₀.result entry session₀ ∧
        response.payload = .psig result ∧
        Signs Scalar Sample.signedLate.before Sample.signedLate.after (Sample.clientKey 1).pubkey
          Sample.late session entry result ∧
        Bound Scalar session session₀ data₀ Sample.late entry ∧
        ((∀ e' ∈ between, e'.after.sessions.get (Sample.clientKey 1).pubkey ≠ none) →
          session.share = session₀.share ∧ session.group = session₀.group) := by
  intro _ _
  have replaced := Sample.play_runs (R := (· ≤ ·)) Sample.replacedRun (by decide +kernel)
  have accepted : (Sample.signedLate.result.map (·.ok)) = some true := by decide +kernel
  obtain ⟨response, answered, ok⟩ := Option.map_eq_some_iff.mp accepted
  rw [← Sample.signedLate_before] at replaced
  refine ⟨response, answered, ?_⟩
  exact signs_as_committed (.step Sample.signedLate replaced Sample.signedLate_happens trivial) rfl
    answered ok

end Pomade.Signer
