import Pomade.Frost.NonceOrder
import Pomade.Frost.SignSession
import Pomade.Signer.NonceUse
import Pomade.Signer.Panics

/-! # The members a request is signed for

The members are checked against those of the commitment, and the public nonces against the
members.  The signature is computed for the indices of the nonces that are points: a nonce that is
none is left out and nobody is told.
-/

namespace Pomade.Signer

open Pomade.Lib Pomade.Frost Coll

section Contexts

variable (Pt : Type) [AddCommGroup Pt] [Module Scalar Pt] [Curve Pt]

/-- The text is that of a point. -/
def IsPoint (text : Str) : Prop :=
  ∃ data, decode33 text = some data ∧ ∃ point : Pt, liftX data.data = .ok point

/-- Both nonces of the member are points. -/
structure IsPointPair (pn : PublicNonceItem) : Prop where
  hidden : IsPoint Pt pn.hiddenPn
  binder : IsPoint Pt pn.binderPn

variable {Pt} in
/-- The context is for the members, each once, and they belong to the group. -/
structure SignsForMembers (group : Group) (members : List UInt32) (ctx : GroupSigningCtx Pt) :
    Prop where
  distinct : ctx.indexes.Nodup
  exactly : ∀ idx, idx ∈ ctx.indexes ↔ idx ∈ members
  listed : ∀ idx ∈ ctx.indexes, ∃ commit ∈ group.commits, commit.idx = idx

variable [Sha2]

variable {Pt} in
/-- The context that the signer builds for a session to answer a request. -/
def SignsIn (session : SignerSession) (data : SignCompleteRequest) (ctx : GroupSigningCtx Pt) :
    Prop :=
  ∃ sighash, buildSighashContextFromPnonces Pt session.group data.request
    (computeSessionId session.group data.request) data.pnonces = .ok (sighash, ctx)

variable {Pt}

omit [Sha2] in
theorem tweakPubkey_ok (tweak : Bytes 32) {pubkey : List UInt8} {point : Pt}
    (lifted : liftX pubkey = .ok point) (calm : ¬ Panics (tweakPubkey Pt pubkey tweak)) :
    ∃ tweaked, tweakPubkey Pt pubkey tweak = .ok tweaked := by
  have nonzero : point + scalarBaseMulti Pt (scalarFromBytes tweak) ≠ 0 :=
    fun zero => calm (panics_tweakPubkey.mpr ⟨point, lifted, zero⟩)
  refine ⟨encodePoint (point + scalarBaseMulti Pt (scalarFromBytes tweak)), ?_⟩
  rw [tweakPubkey, lifted, ok_bind]
  exact serializePoint_eq nonzero

/-- Nonces that tweak are points, and keep their index. -/
theorem tweakPnonce_of_ok {pn : PublicNonceItem} {sessionId : Bytes 32} {sigvec : List Str}
    {tweaked : PublicNonce} (made : tweakPnonce Pt pn sessionId sigvec = .ok tweaked) :
    IsPointPair Pt pn ∧ tweaked.idx = pn.idx := by
  rw [tweakPnonce] at made
  obtain ⟨hidden, shownHidden, made⟩ := bind_ok made
  obtain ⟨_, tweakedHidden, made⟩ := bind_ok made
  obtain ⟨binder, shownBinder, made⟩ := bind_ok made
  obtain ⟨_, tweakedBinder, made⟩ := bind_ok made
  obtain ⟨H, liftedHidden, _⟩ := bind_ok tweakedHidden
  obtain ⟨B, liftedBinder, _⟩ := bind_ok tweakedBinder
  cases made
  exact ⟨⟨⟨hidden, orInvalidPoint_ok.mp shownHidden, H, liftedHidden⟩,
    ⟨binder, orInvalidPoint_ok.mp shownBinder, B, liftedBinder⟩⟩, rfl⟩

/-- Nonces that are points tweak, if that does not panic. -/
theorem tweakPnonce_ok {pn : PublicNonceItem} {sessionId : Bytes 32} {sigvec : List Str}
    (pair : IsPointPair Pt pn) (calm : ¬ Panics (tweakPnonce Pt pn sessionId sigvec)) :
    ∃ tweaked, tweakPnonce Pt pn sessionId sigvec = .ok tweaked := by
  obtain ⟨hidden, shownHidden, H, liftedHidden⟩ := pair.hidden
  obtain ⟨binder, shownBinder, B, liftedBinder⟩ := pair.binder
  rw [panics_tweakPnonce, CancelsNonce] at calm
  obtain ⟨hiddenPn, tweakedHidden⟩ := tweakPubkey_ok
    (getSighashBinder sessionId pn.idx sigvec) liftedHidden (by
      rw [panics_tweakPubkey]
      rintro ⟨H', lifted, zero⟩
      exact calm ⟨hidden, shownHidden, H', lifted, .inl zero⟩)
  obtain ⟨binderPn, tweakedBinder⟩ := tweakPubkey_ok
    (getSighashBinder sessionId pn.idx sigvec) liftedBinder (by
      rw [panics_tweakPubkey]
      rintro ⟨B', lifted, zero⟩
      exact calm ⟨hidden, shownHidden, H, liftedHidden, .inr ⟨binder, shownBinder, B', lifted, zero⟩⟩)
  refine ⟨{ idx := pn.idx, hiddenPn, binderPn }, ?_⟩
  rw [tweakPnonce, orInvalidPoint_ok.mpr shownHidden, ok_bind, tweakedHidden, ok_bind,
    orInvalidPoint_ok.mpr shownBinder, ok_bind, tweakedBinder, ok_bind]
  rfl

/-- The indices of a context are those of the nonces that are points. -/
theorem mem_indexes {session : SignerSession} {data : SignCompleteRequest}
    {ctx : GroupSigningCtx Pt} (signs : SignsIn session data ctx) (idx : UInt32) :
    idx ∈ ctx.indexes ↔ ∃ pn ∈ data.pnonces, IsPointPair Pt pn ∧ pn.idx = idx := by
  obtain ⟨sighash, built⟩ := signs
  rw [buildSighashContextFromPnonces] at built
  obtain ⟨groupPk, _, built⟩ := bind_ok built
  cases hash : data.request.hash with
  | nil =>
    rw [hash] at built
    cases built
  | cons first rest =>
    rw [hash] at built
    obtain ⟨_, _, built⟩ := bind_ok built
    obtain ⟨kept, loop, built⟩ := bind_ok built
    obtain ⟨_, inner, built⟩ := bind_ok built
    cases built
    -- The loop has ended, so no nonce has made it panic.
    have walk := filterMapM_okOnly (g := fun pn => tweakPnonce Pt pn
      (computeSessionId session.group data.request) (first :: rest)) data.pnonces
    have calm : ∀ pn ∈ data.pnonces, ¬ Panics (tweakPnonce Pt pn
        (computeSessionId session.group data.request) (first :: rest)) := by
      intro pn member panics
      obtain ⟨reason, stopped⟩ := walk.1.mpr ⟨pn, member, panics⟩
      rw [loop] at stopped
      cases stopped
    rw [walk.2 calm] at loop
    rw [(lists_of_getGroupSigningCtx inner).2, getNonceIds, ← Except.ok.inj loop]
    simp only [List.mem_map, List.mem_filterMap]
    constructor
    · rintro ⟨tweaked, ⟨pn, member, shown⟩, rfl⟩
      cases made : tweakPnonce Pt pn (computeSessionId session.group data.request) (first :: rest) with
      | error fault =>
        rw [made] at shown
        cases shown
      | ok tweaked' =>
        rw [made] at shown
        cases shown
        obtain ⟨pair, same⟩ := tweakPnonce_of_ok made
        exact ⟨pn, member, pair, same.symm⟩
    · rintro ⟨pn, member, pair, rfl⟩
      obtain ⟨tweaked, made⟩ := tweakPnonce_ok pair (calm pn member)
      exact ⟨tweaked, ⟨pn, member, by rw [made]; rfl⟩, (tweakPnonce_of_ok made).2⟩

omit [Sha2] in
/-- A valid set of nonces has one for each member, and the members belong to the group. -/
theorem only_of_pnoncesValid {group : Group} {members : List UInt32}
    {pnonces : List PublicNonceItem} (valid : pnoncesValid group members pnonces = true)
    {idx : UInt32} (member : idx ∈ members) : (∃ commit ∈ group.commits, commit.idx = idx) ∧
      ∃ only ∈ pnonces, ∀ pn ∈ pnonces, pn.idx = idx ↔ pn = only := by
  rw [pnoncesValid, Bool.and_eq_true, List.all_eq_true] at valid
  have single := valid.2 idx member
  simp only [Bool.and_eq_true, beq_iff_eq, decide_eq_true_eq, List.mem_map] at single
  obtain ⟨only, filtered⟩ := List.length_eq_one_iff.mp single.2
  have there : ∀ pn, pn ∈ pnonces ∧ pn.idx = idx ↔ pn = only := by
    intro pn
    have listed : pn ∈ pnonces.filter (fun pn => pn.idx == idx) ↔ _ := List.mem_filter
    rw [filtered, List.mem_singleton, beq_iff_eq] at listed
    exact listed.symm
  refine ⟨single.1, only, ((there only).mpr rfl).1, ?_⟩
  intro pn given
  rw [← there pn]
  exact (and_iff_right given).symm

/-- The context is for the members if and only if the nonces of the members are points, and any
others are not. -/
theorem signsForMembers_iff {session : SignerSession} {data : SignCompleteRequest}
    {members : List UInt32} {ctx : GroupSigningCtx Pt} (signs : SignsIn session data ctx)
    (distinct : ctx.indexes.Nodup)
    (valid : pnoncesValid session.group members data.pnonces = true) :
    SignsForMembers session.group members ctx ↔
      ∀ pn ∈ data.pnonces, IsPointPair Pt pn ↔ pn.idx ∈ members := by
  constructor
  · intro agreed pn given
    rw [← agreed.exactly, mem_indexes signs]
    constructor
    · intro pair
      exact ⟨pn, given, pair, rfl⟩
    · rintro ⟨pn', given', pair, same⟩
      -- The member has one nonce only.
      have member : pn.idx ∈ members :=
        (agreed.exactly _).mp ((mem_indexes signs _).mpr ⟨pn', given', pair, same⟩)
      obtain ⟨_, only, _, unique⟩ := only_of_pnoncesValid valid member
      rw [(unique pn given).mp rfl, ← (unique pn' given').mp same]
      exact pair
  · intro points
    have exactly : ∀ idx, idx ∈ ctx.indexes ↔ idx ∈ members := by
      intro idx
      rw [mem_indexes signs]
      constructor
      · rintro ⟨pn, given, pair, rfl⟩
        exact (points pn given).mp pair
      · intro member
        obtain ⟨_, only, given, unique⟩ := only_of_pnoncesValid valid member
        have same := (unique only given).mpr rfl
        exact ⟨only, given, (points only given).mpr (same ▸ member), same⟩
    refine ⟨distinct, exactly, ?_⟩
    intro idx listed
    exact (only_of_pnoncesValid valid ((exactly idx).mp listed)).1

/-- What is signed was signed in a context of distinct indices. -/
theorem signsIn_of_signed {input : SigningInput} {result : SignCompleteResult}
    {session : SignerSession} {data : SignCompleteRequest} {entry : CommitEntry}
    (spends : Spends Pt session entry data input)
    (signed : createPsigPkgWithNonce Pt input = .ok result) :
    ∃ ctx : GroupSigningCtx Pt, SignsIn session data ctx ∧ ctx.indexes.Nodup := by
  have same := spends.input
  subst same
  rw [createPsigPkgWithNonce] at signed
  obtain ⟨⟨sighash, ctx⟩, built, signed⟩ := bind_ok signed
  obtain ⟨_, _, signed⟩ := bind_ok signed
  obtain ⟨_, _, signed⟩ := bind_ok signed
  obtain ⟨_, signed, _⟩ := bind_ok signed
  exact ⟨ctx, ⟨sighash, built⟩, nodup_of_signMsg signed⟩

end Contexts

/-! ## Accepted requests -/

section Accepted

variable {Pt : Type} [AddCommGroup Pt] [Module Scalar Pt] [Curve Pt] [Sha2] [Argon2]
variable {options : SignerOptions} {R : Nat → Nat → Prop}
variable {ok : SignerPool Auth → SignerAction Auth → Prop} {p : SignerPool Auth}

variable {tid : Nat} {thread : Thread (Job Auth) Op Ans Response} {client : Str}
variable {data : SignCompleteRequest} {response : Response}

/-- What an accepted request was signed with and for. -/
theorem signed_context (reach : RustPool Pt options R ok p) (found : p.threads[tid]? = some thread)
    (job : thread.job.completes = some (client, data))
    (answer : answered thread.rest = some response) (accepted : response.ok = true) :
    ∃ e ∈ p.history, ∃ entry commit, e.call.op = .pushCommit client entry ∧
      e.job.commits = some (client, commit) ∧ entry.commitId = data.commitId ∧
      commit.members = data.request.members ∧
      ∃ session, ⟨.get .sessions client, some session⟩ ∈ thread.seen ∧
        pnoncesValid session.group commit.members data.pnonces = true ∧
        ∃ ctx : GroupSigningCtx Pt, SignsIn session data ctx ∧ ctx.indexes.Nodup := by
  have conclusion := concludes reach found (ended_of_answered answer)
  obtain ⟨input, result, signed⟩ := conclusion.signed client data response job answer accepted
  obtain ⟨x, member, own, call⟩ := Pool.mem_callsOf.mp signed
  obtain ⟨newer, older, split⟩ := List.append_of_mem member
  obtain ⟨client', data', session, entry, job', spends, read, named, e, stored, pushed⟩ :=
    stored_of_sign reach split (by rw [call])
  have listed : e ∈ p.history := by simp [split, stored]
  -- The call is the thread's, and so is the request it was made for.
  obtain ⟨thread', found', same⟩ := reach.coherent.job x member
  rw [own, found] at found'
  cases found'
  rw [← same, job] at job'
  cases job'
  obtain ⟨_, _, _, _, _, s', step⟩ := reach.at_entry split
  rw [call] at step
  have context := signsIn_of_signed spends (step_sign.mp step).1.symm
  obtain ⟨commit, committed, members, _⟩ := commits_of_stored reach listed pushed
  have valid := spends.valid
  rw [spends.members, members] at valid
  refine ⟨e, listed, entry, commit, pushed, committed, named, ?_, session, ?_, valid, context⟩
  · rw [← members, spends.members]
  · rw [reach.coherent.seen tid thread found, split, Pool.callsOf_append, own.symm,
      Pool.callsOf_cons_self]
    simp [read]

/-- Whatever requests and cleanups the signer carries out, and in whatever order their calls come,
a request that is accepted was signed for a session that the signer has read for it and for the
members of an earlier commitment of the client, if and only if the nonces that are points are
those of the members. -/
theorem signs_for_members_iff (reach : RustPool Pt options R ok p)
    (found : p.threads[tid]? = some thread) (job : thread.job.completes = some (client, data))
    (answer : answered thread.rest = some response) (accepted : response.ok = true) :
    ∃ e ∈ p.history, ∃ entry commit, e.call.op = .pushCommit client entry ∧
      e.job.commits = some (client, commit) ∧ entry.commitId = data.commitId ∧
      ∃ session, ⟨.get .sessions client, some session⟩ ∈ thread.seen ∧
        ∃ ctx : GroupSigningCtx Pt, SignsIn session data ctx ∧
          (SignsForMembers session.group commit.members ctx ↔
            ∀ pn ∈ data.pnonces, IsPointPair Pt pn ↔ pn.idx ∈ commit.members) := by
  obtain ⟨e, listed, entry, commit, pushed, committed, named, _, session, read, valid, ctx, signs,
    distinct⟩ := signed_context reach found job answer accepted
  exact ⟨e, listed, entry, commit, pushed, committed, named, session, read, ctx, signs,
    signsForMembers_iff signs distinct valid⟩

end Accepted

/-! ## A nonce that is no point -/

namespace Sample

def signCommitFor (auth : NostrAuth) (members : List UInt32) : Job Auth :=
  job auth (.signCommit { members })

/-- The public nonce of a secret nonce of one. -/
def ownNonce : PublicNonceItem where
  idx := 1
  hiddenPn := generatorPoint
  binderPn := generatorPoint

def noPoint (idx : UInt32) : PublicNonceItem where
  idx := idx
  hiddenPn := List.replicate 66 '0'
  binderPn := List.replicate 66 '0'

def completion (members : List UInt32) (pnonces : List PublicNonceItem) : SignCompleteRequest where
  commitId := commitId
  request :=
    { content := none, hash := [List.replicate 64 '0'], members, stamp := 0, kind := [],
      gid := List.replicate 64 '0', sid := List.replicate 64 '0' }
  pnonces := pnonces

/-- A request to sign for two members, after a commitment for both. -/
def signedFor (pnonces : List PublicNonceItem) : List (Pool.Choice (Job Auth) Nat Env) :=
  alone 0 (register (clientKey 1) [1, 2]) 1000 ++
    alone 1 (signCommitFor (clientKey 1) [1, 2]) 1001 ++
    alone 2 (job (clientKey 1) (.signComplete (completion [1, 2] pnonces))) 1002

section

attribute [local instance] sha2 argon2

/-- What is known of the last request. -/
theorem signedFor_last (pnonces : List PublicNonceItem)
    (accepts : ((playPool (signedFor pnonces)).threads[2]?.bind fun thread =>
      (answered thread.rest).map (·.ok)) = some true)
    (jobs : ((playPool (signedFor pnonces)).threads[2]?.bind fun thread =>
      thread.job.completes) = some ((clientKey 1).pubkey, completion [1, 2] pnonces)) :
    ∃ thread response, (playPool (signedFor pnonces)).threads[2]? = some thread ∧
      thread.job.completes = some ((clientKey 1).pubkey, completion [1, 2] pnonces) ∧
      answered thread.rest = some response ∧ response.ok = true := by
  obtain ⟨thread, found, answer⟩ := Option.bind_eq_some_iff.mp accepts
  obtain ⟨response, answer, accepted⟩ := Option.map_eq_some_iff.mp answer
  rw [found] at jobs
  exact ⟨thread, response, found, jobs, answer, accepted⟩

theorem not_isPoint_zeros : ¬ IsPoint Scalar (List.replicate 66 '0') := by
  rintro ⟨data, decoded, point, lifted⟩
  have unlifted : ((decode33 (List.replicate 66 '0')).bind fun data =>
      (liftX data.data : Result Scalar).toOption) = none := by decide +kernel
  rw [decoded, Option.bind_some, lifted] at unlifted
  cases unlifted

end

end Sample

theorem signs_for_members_iff_points :
    let _ := Sample.sha2
    let _ := Sample.argon2
    let pnonces := [Sample.ownNonce, { Sample.ownNonce with idx := 2 }]
    ∃ p : SignerPool Auth, ∃ thread, p.threads[2]? = some thread ∧
      ∃ e ∈ p.history, ∃ entry commit, e.call.op = .pushCommit (Sample.clientKey 1).pubkey entry ∧
        e.job.commits = some ((Sample.clientKey 1).pubkey, commit) ∧
        entry.commitId = Sample.commitId ∧
        ∃ session, ⟨.get .sessions (Sample.clientKey 1).pubkey, some session⟩ ∈ thread.seen ∧
          ∃ ctx : GroupSigningCtx Scalar, SignsIn session (Sample.completion [1, 2] pnonces) ctx ∧
            (SignsForMembers session.group commit.members ctx ↔
              ∀ pn ∈ pnonces, IsPointPair Scalar pn ↔ pn.idx ∈ commit.members) := by
  intro hash email pnonces
  obtain ⟨thread, response, found, job, answer, accepted⟩ :=
    Sample.signedFor_last pnonces (by decide +kernel) (by decide +kernel)
  have reach : RustPool Scalar Sample.options (fun before after => before ≤ after)
      (fun _ _ => True) (Sample.playPool (Sample.signedFor pnonces)) :=
    Sample.playPool_reach _ (by decide +kernel)
  exact ⟨_, thread, found, signs_for_members_iff reach found job answer accepted⟩

/-- The second member's nonce is no point, and the request is signed for the first one alone. -/
theorem signs_without_member :
    let _ := Sample.sha2
    let _ := Sample.argon2
    ∃ p : SignerPool Auth, RustPool Scalar Sample.options (fun before after => before ≤ after)
      (fun _ _ => True) p ∧ ∃ thread client data response, p.threads[2]? = some thread ∧
        thread.job.completes = some (client, data) ∧ answered thread.rest = some response ∧
        response.ok = true ∧ ∃ e ∈ p.history, ∃ entry commit,
          e.call.op = .pushCommit client entry ∧ e.job.commits = some (client, commit) ∧
          entry.commitId = data.commitId ∧
          ∃ session, ⟨.get .sessions client, some session⟩ ∈ thread.seen ∧
            ∃ ctx : GroupSigningCtx Scalar, SignsIn session data ctx ∧
              ¬ SignsForMembers session.group commit.members ctx := by
  intro hash email
  obtain ⟨thread, response, found, job, answer, accepted⟩ :=
    Sample.signedFor_last [Sample.ownNonce, Sample.noPoint 2] (by decide +kernel)
      (by decide +kernel)
  have reach : RustPool Scalar Sample.options (fun before after => before ≤ after)
      (fun _ _ => True) (Sample.playPool (Sample.signedFor [Sample.ownNonce, Sample.noPoint 2])) :=
    Sample.playPool_reach _ (by decide +kernel)
  obtain ⟨e, listed, entry, commit, pushed, committed, named, members, session, read, valid, ctx,
    signs, distinct⟩ := signed_context reach found job answer accepted
  refine ⟨_, reach, thread, _, _, response, found, job, answer, accepted, e, listed, entry, commit,
    pushed, committed, named, session, read, ctx, signs, ?_⟩
  rw [signsForMembers_iff signs distinct valid, members]
  intro points
  have pair := (points (Sample.noPoint 2) (by simp [Sample.completion])).mpr
    (by simp [Sample.completion, Sample.noPoint])
  exact Sample.not_isPoint_zeros pair.hidden

end Pomade.Signer
