import Pomade.Lib.Lockstep
import Pomade.Signer.Challenge
import Pomade.Signer.Release

/-! # What the answers tell about an account

Two signers that differ only in what they know about one email hash are asked the same questions.
A request about that email hash takes different branches on the two sides and leaves different
records, but these are records about the email hash again; any other request runs in step on the two
sides.  So nobody who does not know its credentials learns from the answers whether an account is
there.
-/

namespace Pomade.Signer

open Pomade.Lib Pomade.Frost Coll

/-! ## Two stores that agree apart from one email hash -/

/-- The key has no session of an account with the email hash. -/
def Clear (h : Str) (sessions : Table SignerSession) (key : Str) : Prop :=
  ∀ session, sessions.get key = some session → session.emailHash ≠ some h

/-- The two stores agree on everything but the records about an email hash: its index entry, the
sessions registered with it, its challenge and its bucket. -/
structure AgreeApart (h : Str) (s s' : State) : Prop where
  logins : ∀ client, s.logins.get client = s'.logins.get client
  recoveries : ∀ client, s.recoveries.get client = s'.recoveries.get client
  index : ∀ g, g ≠ h → s.sessionsByEmailHash.get g = s'.sessionsByEmailHash.get g
  challenges : ∀ g, g ≠ h → s.challenges.get g = s'.challenges.get g
  buckets : ∀ g, g ≠ h → s.rateLimitByEmailHash.get g = s'.rateLimitByEmailHash.get g
  sessions : ∀ key,
    ((s.sessions.get key).filter fun session => decide (session.emailHash ≠ some h)) =
      (s'.sessions.get key).filter fun session => decide (session.emailHash ≠ some h)

/-- The index entries of other email hashes list no session of the account. -/
def ListsApart (h : Str) (s : State) : Prop :=
  ∀ g, g ≠ h → ∀ index, s.sessionsByEmailHash.get g = some index →
    ∀ key ∈ index.clients, Clear h s.sessions key

/-- The key has the same session in both tables, and it is not one of the account. -/
structure Same (h : Str) (t t' : Table SignerSession) (key : Str) : Prop where
  equal : t.get key = t'.get key
  clear : Clear h t key

/-- What two runs keep in common: the stores agree apart from the email hash, and whatever a request
about another one can reach is the same on both sides. -/
structure AlikeApart (h : Str) (U : Str → Prop) (s s' : State) : Prop where
  logins : ∀ client, U client → s.logins.get client = s'.logins.get client
  recoveries : ∀ client, U client → s.recoveries.get client = s'.recoveries.get client
  index : ∀ g, g ≠ h → s.sessionsByEmailHash.get g = s'.sessionsByEmailHash.get g
  challenges : ∀ g, g ≠ h → s.challenges.get g = s'.challenges.get g
  buckets : ∀ g, g ≠ h → s.rateLimitByEmailHash.get g = s'.rateLimitByEmailHash.get g
  own : ∀ key session, s.sessions.get key = some session → session.client = key
  listed : ∀ g, g ≠ h → ∀ index, s.sessionsByEmailHash.get g = some index →
    ∀ key ∈ index.clients, Same h s.sessions s'.sessions key
  users : ∀ client, U client → Same h s.sessions s'.sessions client
  login : ∀ client, U client → ∀ login, s.logins.get client = some login →
    ∀ key ∈ login.clients, Same h s.sessions s'.sessions key
  recovery : ∀ client, U client → ∀ recovery, s.recoveries.get client = some recovery →
    ∀ key ∈ recovery.clients, Same h s.sessions s'.sessions key

section Alike

variable {h : Str} {U : Str → Prop} {s s' t t' : State}

theorem AgreeApart.same (agree : AgreeApart h s s') {key : Str} (clear : Clear h s.sessions key)
    (clear' : Clear h s'.sessions key) : Same h s.sessions s'.sessions key := by
  have whole : ∀ {sessions : Table SignerSession}, Clear h sessions key →
      (sessions.get key).filter (fun session => decide (session.emailHash ≠ some h)) =
        sessions.get key := by
    intro sessions clear
    cases stored : sessions.get key with
    | none => rfl
    | some session => simp [clear session stored]
  refine ⟨?_, clear⟩
  rw [← whole clear, ← whole clear']
  exact agree.sessions key

/-- Stores that agree apart from the email hash are alike to clients that have no record. -/
theorem AgreeApart.alike (agree : AgreeApart h s s') (sound : s.registry.Sound)
    (apart : ListsApart h s) (apart' : ListsApart h s')
    (unused : ∀ client, U client → s.registry.Unused client)
    (unused' : ∀ client, U client → s'.registry.Unused client) : AlikeApart h U s s' where
  logins client _ := agree.logins client
  recoveries client _ := agree.recoveries client
  index := agree.index
  challenges := agree.challenges
  buckets := agree.buckets
  own key session stored := (sound key session stored).own
  listed g other index stored key member :=
    agree.same (apart g other index stored key member)
      (apart' g other index ((agree.index g other).symm.trans stored) key member)
  users client user := by
    have none' : s.sessions.get client = none := (unused client user).session
    have none'' : s'.sessions.get client = none := (unused' client user).session
    refine ⟨none'.trans none''.symm, fun session stored => ?_⟩
    rw [none'] at stored
    cases stored
  login client user login stored := by
    have none' : s.logins.get client = none := (unused client user).login
    rw [none'] at stored
    cases stored
  recovery client user recovery stored := by
    have none' : s.recoveries.get client = none := (unused client user).recovery
    rw [none'] at stored
    cases stored

/-- The second store differs from the first in the challenge and the bucket of the email hash. -/
structure OnlyAbout (h : Str) (s t : State) : Prop where
  sessions : t.sessions = s.sessions
  index : t.sessionsByEmailHash = s.sessionsByEmailHash
  logins : t.logins = s.logins
  recoveries : t.recoveries = s.recoveries
  challenges : ∀ g, g ≠ h → t.challenges.get g = s.challenges.get g
  buckets : ∀ g, g ≠ h → t.rateLimitByEmailHash.get g = s.rateLimitByEmailHash.get g

theorem OnlyAbout.refl (s : State) : OnlyAbout h s s :=
  ⟨rfl, rfl, rfl, rfl, fun _ _ => rfl, fun _ _ => rfl⟩

theorem OnlyAbout.trans (first : OnlyAbout h s t) (second : OnlyAbout h t t') :
    OnlyAbout h s t' where
  sessions := second.sessions.trans first.sessions
  index := second.index.trans first.index
  logins := second.logins.trans first.logins
  recoveries := second.recoveries.trans first.recoveries
  challenges g other := (second.challenges g other).trans (first.challenges g other)
  buckets g other := (second.buckets g other).trans (first.buckets g other)

/-- Records about the email hash do not count. -/
theorem AlikeApart.of_about (alike : AlikeApart h U s s') (about : OnlyAbout h s t)
    (about' : OnlyAbout h s' t') : AlikeApart h U t t' where
  logins := by simpa only [about.logins, about'.logins] using alike.logins
  recoveries := by simpa only [about.recoveries, about'.recoveries] using alike.recoveries
  index := by simpa only [about.index, about'.index] using alike.index
  challenges g other := by
    rw [about.challenges g other, about'.challenges g other]
    exact alike.challenges g other
  buckets g other := by
    rw [about.buckets g other, about'.buckets g other]
    exact alike.buckets g other
  own := by simpa only [about.sessions] using alike.own
  listed := by simpa only [about.index, about.sessions, about'.sessions] using alike.listed
  users := by simpa only [about.sessions, about'.sessions] using alike.users
  login := by simpa only [about.logins, about.sessions, about'.sessions] using alike.login
  recovery := by simpa only [about.recoveries, about.sessions, about'.sessions] using alike.recovery

/-! ### Changes made on both sides -/

theorem get_set_congr {V : Type} {t t' : Table V} {key key' : Str} {value : V}
    (equal : t.get key' = t'.get key') :
    (t.set key value).get key' = (t'.set key value).get key' := by
  simp only [Table.get_set, equal]

theorem get_delete_congr {V : Type} {t t' : Table V} {key key' : Str}
    (equal : t.get key' = t'.get key') : (t.delete key).get key' = (t'.delete key).get key' := by
  simp only [Table.get_delete, equal]

/-- What is found after a value was set is that value or was found before. -/
theorem of_get_set {V : Type} {t : Table V} {key key' : Str} {value : V} {P : V → Prop}
    (new : key' = key → P value) (old : ∀ found, t.get key' = some found → P found) :
    ∀ found, (t.set key value).get key' = some found → P found := by
  intro found stored
  by_cases same : key' = key
  · subst same
    rw [Table.get_set_self] at stored
    cases stored
    exact new rfl
  · rw [Table.get_set_ne same] at stored
    exact old found stored

theorem of_get_delete {V : Type} {t : Table V} {key key' : Str} {P : V → Prop}
    (old : ∀ found, t.get key' = some found → P found) :
    ∀ found, (t.delete key).get key' = some found → P found := by
  intro found stored
  by_cases same : key' = key
  · subst same
    rw [Table.get_delete_self] at stored
    cases stored
  · rw [Table.get_delete_ne same] at stored
    exact old found stored

theorem AlikeApart.elapse (alike : AlikeApart h U s s') (time : Nat) :
    AlikeApart h U { s with clock := time } { s' with clock := time } :=
  { alike with }

theorem AlikeApart.setBucket (alike : AlikeApart h U s s') (g : Str) (bucket : RateLimitBucket) :
    AlikeApart h U (s.setTable .rateLimitByEmailHash (s.rateLimitByEmailHash.set g bucket))
      (s'.setTable .rateLimitByEmailHash (s'.rateLimitByEmailHash.set g bucket)) :=
  { alike with buckets := fun g' other => get_set_congr (alike.buckets g' other) }

theorem AlikeApart.setChallenge (alike : AlikeApart h U s s') (g : Str) (challenge : SignerChallenge) :
    AlikeApart h U (s.setTable .challenges (s.challenges.set g challenge))
      (s'.setTable .challenges (s'.challenges.set g challenge)) :=
  { alike with challenges := fun g' other => get_set_congr (alike.challenges g' other) }

theorem AlikeApart.deleteChallenge (alike : AlikeApart h U s s') (g : Str) :
    AlikeApart h U (s.setTable .challenges (s.challenges.delete g))
      (s'.setTable .challenges (s'.challenges.delete g)) :=
  { alike with challenges := fun g' other => get_delete_congr (alike.challenges g' other) }

theorem AlikeApart.setLogin (alike : AlikeApart h U s s') (client : Str) {login : SignerLogin}
    (same : ∀ key ∈ login.clients, Same h s.sessions s'.sessions key) :
    AlikeApart h U (s.setTable .logins (s.logins.set client login))
      (s'.setTable .logins (s'.logins.set client login)) :=
  { alike with
    logins := fun client' user => get_set_congr (alike.logins client' user)
    login := fun client' user => of_get_set (fun _ => same) (alike.login client' user) }

theorem AlikeApart.deleteLogin (alike : AlikeApart h U s s') (client : Str) :
    AlikeApart h U (s.setTable .logins (s.logins.delete client))
      (s'.setTable .logins (s'.logins.delete client)) :=
  { alike with
    logins := fun client' user => get_delete_congr (alike.logins client' user)
    login := fun client' user => of_get_delete (alike.login client' user) }

theorem AlikeApart.setRecovery (alike : AlikeApart h U s s') (client : Str) {recovery : SignerRecovery}
    (same : ∀ key ∈ recovery.clients, Same h s.sessions s'.sessions key) :
    AlikeApart h U (s.setTable .recoveries (s.recoveries.set client recovery))
      (s'.setTable .recoveries (s'.recoveries.set client recovery)) :=
  { alike with
    recoveries := fun client' user => get_set_congr (alike.recoveries client' user)
    recovery := fun client' user => of_get_set (fun _ => same) (alike.recovery client' user) }

theorem AlikeApart.deleteRecovery (alike : AlikeApart h U s s') (client : Str) :
    AlikeApart h U (s.setTable .recoveries (s.recoveries.delete client))
      (s'.setTable .recoveries (s'.recoveries.delete client)) :=
  { alike with
    recoveries := fun client' user => get_delete_congr (alike.recoveries client' user)
    recovery := fun client' user => of_get_delete (alike.recovery client' user) }

/-- A session that is not of the account, stored on both sides. -/
theorem Same.set {t t' : Table SignerSession} {key client : Str} {session : SignerSession}
    (clear : session.emailHash ≠ some h) (same : key = client ∨ Same h t t' key) :
    Same h (t.set client session) (t'.set client session) key := by
  by_cases here : key = client
  · subst here
    refine ⟨by simp, fun stored found => ?_⟩
    rw [Table.get_set_self] at found
    cases found
    exact clear
  · have same := same.resolve_left here
    exact ⟨get_set_congr same.equal, of_get_set (fun at_ => absurd at_ here) same.clear⟩

theorem AlikeApart.setSession (alike : AlikeApart h U s s') {client : Str} {session : SignerSession}
    (own : session.client = client) (clear : session.emailHash ≠ some h) :
    AlikeApart h U (s.setTable .sessions (s.sessions.set client session))
      (s'.setTable .sessions (s'.sessions.set client session)) :=
  { alike with
    own := fun key => of_get_set (fun here => own.trans here.symm) (alike.own key)
    listed := fun g other index stored key member =>
      .set clear (.inr (alike.listed g other index stored key member))
    users := fun client user => .set clear (.inr (alike.users client user))
    login := fun client user login stored key member =>
      .set clear (.inr (alike.login client user login stored key member))
    recovery := fun client user recovery stored key member =>
      .set clear (.inr (alike.recovery client user recovery stored key member)) }

theorem AlikeApart.setIndex (alike : AlikeApart h U s s') (g : Str) {index : SessionIndex}
    (same : ∀ key ∈ index.clients, Same h s.sessions s'.sessions key) :
    AlikeApart h U (s.setTable .sessionsByEmailHash (s.sessionsByEmailHash.set g index))
      (s'.setTable .sessionsByEmailHash (s'.sessionsByEmailHash.set g index)) :=
  { alike with
    index := fun g' other => get_set_congr (alike.index g' other)
    listed := fun g' other => of_get_set (fun _ => same) (alike.listed g' other) }

end Alike

/-! ## Requests about other email hashes -/

section Lockstep

variable {signing : SigningFn} {h : Str} {U : Str → Prop} {s s' : State}

/-- The world of two signers that are asked the same. -/
abbrev twin (signing : SigningFn) : World Op Ans (State × State) := World.lockstep (exec signing)

section Calls

variable {α : Type} {Q : Option α → State × State → Prop}

theorem twin_get {c : Coll} {key : Str} {f : Option c.Val → SignerProg α}
    (equal : (s.table c).get key = (s'.table c).get key)
    (rest : Prog.wp (twin signing) (f ((s.table c).get key)) Q (s, s')) :
    Prog.wp (twin signing) (c.get key >>= f) Q (s, s') :=
  Prog.wp_lockstep (fun _ => equal) fun _ => rest

theorem twin_set {c : Coll} {key : Str} {value : c.Val} {f : Unit → SignerProg α}
    (rest : Prog.wp (twin signing) (f ()) Q
      (s.setTable c ((s.table c).set key value), s'.setTable c ((s'.table c).set key value))) :
    Prog.wp (twin signing) (c.set key value >>= f) Q (s, s') :=
  Prog.wp_lockstep (fun _ => rfl) fun _ => rest

theorem twin_delete {c : Coll} {key : Str} {f : Bool → SignerProg α}
    (equal : (s.table c).get key = (s'.table c).get key)
    (rest : ∀ found, Prog.wp (twin signing) (f found) Q
      (s.setTable c ((s.table c).delete key), s'.setTable c ((s'.table c).delete key))) :
    Prog.wp (twin signing) (c.delete key >>= f) Q (s, s') :=
  Prog.wp_lockstep (fun _ => congrArg Option.isSome equal) fun _ => rest _

theorem twin_now {f : Nat → SignerProg α}
    (rest : ∀ time, Prog.wp (twin signing) (f time) Q
      ({ s with clock := time }, { s' with clock := time })) :
    Prog.wp (twin signing) (now >>= f) Q (s, s') :=
  Prog.wp_lockstep (fun _ => rfl) fun e => rest e.now

theorem twin_randomU32 {f : UInt32 → SignerProg α}
    (rest : ∀ word, Prog.wp (twin signing) (f word) Q (s, s')) :
    Prog.wp (twin signing) (randomU32 >>= f) Q (s, s') :=
  Prog.wp_lockstep (fun _ => rfl) fun e => rest e.word

theorem twin_sendMail {recipient otp : Str} {f : Unit → SignerProg α}
    (rest : Prog.wp (twin signing) (f ()) Q (s, s')) :
    Prog.wp (twin signing) (sendMail recipient otp >>= f) Q (s, s') :=
  Prog.wp_lockstep (fun _ => rfl) fun _ => rest

end Calls

/-! ### Helpers -/

theorem isRateLimited_twin (alike : AlikeApart h U s s') {bucket : Option RateLimitBucket}
    {config : RateLimitConfig} :
    Prog.wp (twin signing) (isRateLimited bucket config)
      (fun r p => ∃ limited, r = some limited ∧ AlikeApart h U p.1 p.2) (s, s') := by
  cases bucket with
  | none => exact ⟨false, rfl, alike⟩
  | some bucket =>
    refine twin_now fun time => ?_
    exact ⟨_, rfl, alike.elapse time⟩

theorem recordAttempt_twin (alike : AlikeApart h U s s') {bucket : Option RateLimitBucket}
    {config : RateLimitConfig} :
    Prog.wp (twin signing) (recordAttempt bucket config)
      (fun r p => ∃ attempt, r = some attempt ∧ AlikeApart h U p.1 p.2) (s, s') :=
  twin_now fun time => ⟨_, rfl, alike.elapse time⟩

theorem checkKeyReuse_twin (alike : AlikeApart h U s s') {client : Str} (user : U client) :
    Prog.wp (twin signing) (checkKeyReuse client)
      (fun r p => ∃ reused, r = some reused ∧ p = (s, s')) (s, s') := by
  unfold checkKeyReuse
  refine twin_get (alike.users client user).equal ?_
  split
  · exact ⟨true, rfl, rfl⟩
  refine twin_get (alike.recoveries client user) ?_
  split
  · exact ⟨true, rfl, rfl⟩
  refine twin_get (alike.logins client user) ?_
  split
  · exact ⟨true, rfl, rfl⟩
  · exact ⟨false, rfl, rfl⟩

/-- The sessions that an entry lists, if they are the same on both sides. -/
theorem indexedSessions_twin (alike : AlikeApart h U s s') {index : SessionIndex}
    (same : ∀ key ∈ index.clients, Same h s.sessions s'.sessions key) :
    Prog.wp (twin signing) (indexedSessions index)
      (fun r p => ∃ found, r = some found ∧ p = (s, s') ∧
        ∀ session ∈ found, Same h s.sessions s'.sessions session.client) (s, s') := by
  refine Prog.wp_filterMap (I := fun _ kept p => p = (s, s') ∧
    ∀ session ∈ kept, Same h s.sessions s'.sessions session.client) index.clients [] [] _
    ⟨rfl, by simp⟩ ?_ ?_
  · intro done kept client p member held
    obtain ⟨unchanged, sames⟩ := held
    subst unchanged
    rw [Coll.get, Prog.op_eq]
    refine twin_get (same client member).equal ?_
    refine ⟨_, rfl, rfl, fun session listed => ?_⟩
    cases List.mem_append.mp listed with
    | inl earlier => exact sames session earlier
    | inr last =>
      have stored : s.sessions.get client = some session := Option.mem_toList.mp last
      rw [alike.own client session stored]
      exact same client member
  · intro rest p held
    exact ⟨rest, rfl, held.1, by simpa using held.2⟩

theorem evaluateAuth_twin (alike : AlikeApart h U s s') {auth : Auth} (other : auth.emailHash ≠ h) :
    Prog.wp (twin signing) (evaluateAuth auth (s.sessionsByEmailHash.get auth.emailHash))
      (fun r p => ∃ found, r = some found ∧ AlikeApart h U p.1 p.2 ∧
        ∀ session ∈ found, Same h p.1.sessions p.2.sessions session.client) (s, s') := by
  unfold evaluateAuth
  cases indexed : s.sessionsByEmailHash.get auth.emailHash with
  | none => exact ⟨[], rfl, alike, by simp⟩
  | some index =>
    have same := alike.listed auth.emailHash other index indexed
    cases auth with
    | password emailHash passwordHash =>
      refine Prog.wp_then (indexedSessions_twin alike same) ?_
      intro stored p found
      obtain ⟨unchanged, sames⟩ := found
      subst unchanged
      exact ⟨_, rfl, alike, fun session member => sames session (List.mem_of_mem_filter member)⟩
    | otp emailHash otp =>
      have equal := alike.challenges emailHash other
      dsimp only
      refine twin_get equal ?_
      cases (s.table .challenges).get emailHash with
      | none => exact ⟨[], rfl, alike, by simp⟩
      | some challenge =>
        refine twin_delete equal fun found => ?_
        have alike := alike.deleteChallenge emailHash
        split
        · refine Prog.wp_mono ?_ _ _ (indexedSessions_twin alike same)
          intro r p result
          obtain ⟨found, returned, unchanged, sames⟩ := result
          subst unchanged
          exact ⟨found, returned, alike, sames⟩
        · exact ⟨[], rfl, alike, by simp⟩

theorem getAuthenticatedSessions_twin (alike : AlikeApart h U s s') {auth : Auth}
    (other : auth.emailHash ≠ h) :
    Prog.wp (twin signing) (getAuthenticatedSessions auth)
      (fun r p => ∃ found, r = some found ∧ AlikeApart h U p.1 p.2 ∧
        ∀ session ∈ found, Same h p.1.sessions p.2.sessions session.client) (s, s') := by
  unfold getAuthenticatedSessions
  dsimp only
  refine twin_get (alike.buckets _ other) ?_
  refine Prog.wp_then (isRateLimited_twin alike) ?_
  intro limited p alike
  obtain ⟨s₁, s₁'⟩ := p
  split
  · exact ⟨[], rfl, alike, by simp⟩
  refine twin_get (alike.index _ other) ?_
  refine Prog.wp_then (evaluateAuth_twin alike other) ?_
  intro found p evaluated
  obtain ⟨s₂, s₂'⟩ := p
  obtain ⟨alike, same⟩ := evaluated
  split
  · next nothing =>
    have nothing : found = [] := List.isEmpty_iff.mp nothing
    subst nothing
    refine Prog.wp_then (recordAttempt_twin alike) ?_
    intro attempt p alike
    obtain ⟨s₃, s₃'⟩ := p
    exact twin_set ⟨[], rfl, alike.setBucket _ attempt, by simp⟩
  · exact ⟨found, rfl, alike, same⟩

theorem addSession_twin (alike : AlikeApart h U s s') {client : Str} {session : SignerSession}
    (own : session.client = client) (clear : session.emailHash ≠ some h) :
    Prog.wp (twin signing) (addSession client session)
      (fun r p => r = some () ∧ AlikeApart h U p.1 p.2) (s, s') := by
  unfold addSession
  refine twin_set ?_
  have alike := alike.setSession own clear
  cases registered : session.emailHash with
  | none => exact ⟨rfl, alike⟩
  | some emailHash =>
    have other : emailHash ≠ h := fun about => clear (about ▸ registered)
    dsimp only
    refine twin_get (alike.index emailHash other) ?_
    rw [Coll.set, Prog.op_eq]
    refine twin_set ⟨rfl, alike.setIndex emailHash ?_⟩
    -- The new entry lists the client, whose session is the same, and what was listed before.
    intro key member
    by_cases here : key = client
    · exact .set clear (.inl here)
    · cases indexed : s.sessionsByEmailHash.get emailHash with
      | none => simp [indexWith, indexed, here] at member
      | some index =>
        refine alike.listed emailHash other index indexed key ?_
        by_cases listed : client ∈ index.clients
        · simpa [indexWith, indexed, listed] using member
        · simpa [indexWith, indexed, listed, here] using member

theorem challengeRecipient_twin (alike : AlikeApart h U s s') {emailHash : Str}
    (other : emailHash ≠ h) :
    Prog.wp (twin signing) (challengeRecipient emailHash)
      (fun r p => ∃ recipient, r = some recipient ∧ p = (s, s')) (s, s') := by
  unfold challengeRecipient
  refine twin_get (alike.index emailHash other) ?_
  cases indexed : (s.table .sessionsByEmailHash).get emailHash with
  | none => exact ⟨none, rfl, rfl⟩
  | some index =>
    dsimp only
    cases first : index.clients.head? with
    | none => exact ⟨none, rfl, rfl⟩
    | some client =>
      have same := alike.listed emailHash other index indexed client (List.mem_of_mem_head? first)
      refine twin_get same.equal ?_
      cases (s.table .sessions).get client with
      | none => exact ⟨none, rfl, rfl⟩
      | some session => exact ⟨session.email, rfl, rfl⟩

/-! ### Handlers -/

theorem handleChallenge_twin {options : SignerOptions} (alike : AlikeApart h U s s')
    {data : ChallengeRequest} (other : data.emailHash ≠ h) :
    Prog.wp (twin signing) (handleChallenge options data) (fun _ p => AlikeApart h U p.1 p.2)
      (s, s') := by
  unfold handleChallenge
  refine twin_get (alike.buckets _ other) ?_
  refine Prog.wp_then (isRateLimited_twin alike) ?_
  intro limited p alike
  obtain ⟨s₁, s₁'⟩ := p
  split
  · exact alike
  refine Prog.wp_then (challengeRecipient_twin alike other) ?_
  intro recipient p unchanged
  obtain ⟨_, unchanged⟩ := Prod.mk.inj unchanged
  subst_vars
  cases recipient with
  | none => exact alike
  | some email =>
    refine Prog.wp_then (recordAttempt_twin alike) ?_
    intro attempt p alike
    obtain ⟨s₂, s₂'⟩ := p
    refine twin_set ?_
    have alike := alike.setBucket data.emailHash attempt
    refine twin_randomU32 fun word => ?_
    refine twin_now fun createdAt => ?_
    refine twin_set ?_
    have alike := (alike.elapse createdAt).setChallenge data.emailHash
      { otp := challengeOtp data word, createdAt }
    split
    · exact alike
    · split
      · exact twin_sendMail alike
      · exact alike

/-- A start in step: what is recorded lists sessions that are the same on both sides. -/
theorem startWith_twin {record : Str → Nat → List Str → SignerProg Unit} {success : String}
    (alike : AlikeApart h U s s') {auth : NostrAuth} (user : U auth.pubkey)
    {data : StartRequest Auth} (other : data.auth.emailHash ≠ h)
    (recorded : ∀ (t t' : State) createdAt clients, AlikeApart h U t t' →
      (∀ key ∈ clients, Same h t.sessions t'.sessions key) →
      Prog.wp (twin signing) (record auth.pubkey createdAt clients)
        (fun r p => r = some () ∧ AlikeApart h U p.1 p.2) (t, t')) :
    Prog.wp (twin signing) (startWith record success auth data)
      (fun _ p => AlikeApart h U p.1 p.2) (s, s') := by
  unfold startWith
  dsimp only
  refine Prog.wp_then (checkKeyReuse_twin alike user) ?_
  intro reused p unchanged
  subst unchanged
  split
  · exact alike
  refine Prog.wp_then (getAuthenticatedSessions_twin alike other) ?_
  intro found p authenticated
  obtain ⟨s₁, s₁'⟩ := p
  obtain ⟨alike, same⟩ := authenticated
  split
  · exact alike
  refine twin_now fun createdAt => ?_
  refine Prog.wp_unit (recorded _ _ createdAt _ (alike.elapse createdAt) ?_) ?_
  · intro key member
    obtain ⟨session, listed, here⟩ := List.mem_map.mp member
    exact here ▸ same session listed
  · intro p alike
    exact alike

theorem handleLoginStart_twin (alike : AlikeApart h U s s') {auth : NostrAuth}
    (user : U auth.pubkey) {data : StartRequest Auth} (other : data.auth.emailHash ≠ h) :
    Prog.wp (twin signing) (handleLoginStart auth data) (fun _ p => AlikeApart h U p.1 p.2)
      (s, s') := by
  refine startWith_twin alike user other ?_
  intro t t' createdAt clients alike same
  rw [Coll.set, Prog.op_eq]
  exact twin_set ⟨rfl, alike.setLogin auth.pubkey same⟩

theorem handleRecoveryStart_twin (alike : AlikeApart h U s s') {auth : NostrAuth}
    (user : U auth.pubkey) {data : StartRequest Auth} (other : data.auth.emailHash ≠ h) :
    Prog.wp (twin signing) (handleRecoveryStart auth data) (fun _ p => AlikeApart h U p.1 p.2)
      (s, s') := by
  refine startWith_twin alike user other ?_
  intro t t' createdAt clients alike same
  rw [Coll.set, Prog.op_eq]
  exact twin_set ⟨rfl, alike.setRecovery auth.pubkey same⟩

theorem handleRecoverySelect_twin (alike : AlikeApart h U s s') {auth : NostrAuth}
    (user : U auth.pubkey) {data : SelectRequest} :
    Prog.wp (twin signing) (handleRecoverySelect auth data) (fun _ p => AlikeApart h U p.1 p.2)
      (s, s') := by
  unfold handleRecoverySelect
  have equal := alike.recoveries auth.pubkey user
  refine twin_get equal ?_
  cases opened : (s.table .recoveries).get auth.pubkey with
  | none => exact alike
  | some recovery =>
    refine twin_delete equal fun _ => ?_
    have after := alike.deleteRecovery auth.pubkey
    split
    · exact after
    · next chosen =>
      have same := alike.recovery auth.pubkey user recovery opened data.client (not_not.mp chosen)
      refine twin_get same.equal ?_
      split
      · exact after
      · exact after

theorem handleLoginSelect_twin (alike : AlikeApart h U s s') {auth : NostrAuth}
    (user : U auth.pubkey) {data : SelectRequest} :
    Prog.wp (twin signing) (handleLoginSelect auth data) (fun _ p => AlikeApart h U p.1 p.2)
      (s, s') := by
  unfold handleLoginSelect
  have equal := alike.logins auth.pubkey user
  refine twin_get equal ?_
  cases opened : (s.table .logins).get auth.pubkey with
  | none => exact alike
  | some login =>
    refine twin_delete equal fun _ => ?_
    have after := alike.deleteLogin auth.pubkey
    split
    · exact after
    · next chosen =>
      have same := alike.login auth.pubkey user login opened data.client (not_not.mp chosen)
      refine twin_get same.equal ?_
      cases stored : s.sessions.get data.client with
      | none =>
        simp only [State.setTable, State.table, stored]
        exact after
      | some session =>
        simp only [State.setTable, State.table, stored]
        refine twin_now fun createdAt => ?_
        refine twin_now fun lastActivity => ?_
        -- The copy keeps the email hash of the session that was selected.
        refine Prog.wp_unit (addSession_twin ((after.elapse createdAt).elapse lastActivity) rfl
          (same.clear session stored)) ?_
        intro p alike
        exact alike

end Lockstep

/-! ## Requests about the email hash -/

/-- The call writes no more than the challenge and the bucket of the email hash. -/
def Op.About (h : Str) : Op → Prop
  | .get _ _ | .now | .randomU32 | .sendMail _ _ => True
  | .set .challenges key _ | .set .rateLimitByEmailHash key _ | .delete .challenges key => key = h
  | _ => False

section About

variable {signing : SigningFn} {R : Nat → Nat → Prop} {options : SignerOptions} {h : Str}
variable {s s' : State} {calls : List SignerCall}

theorem OnlyAbout.of_step {o : Op} {answer : Ans o} (about : o.About h)
    (step : (world signing R).step o s answer s') : OnlyAbout h s s' := by
  obtain ⟨e, _, outcome⟩ := step
  cases o with
  | get _ _ | now | randomU32 | sendMail _ _ =>
    cases outcome
    exact ⟨rfl, rfl, rfl, rfl, fun _ _ => rfl, fun _ _ => rfl⟩
  | set c key value =>
    cases outcome
    cases c with
    | challenges =>
      have about : key = h := about
      subst about
      exact ⟨rfl, rfl, rfl, rfl, fun _ other => Table.get_set_ne other, fun _ _ => rfl⟩
    | rateLimitByEmailHash =>
      have about : key = h := about
      subst about
      exact ⟨rfl, rfl, rfl, rfl, fun _ _ => rfl, fun _ other => Table.get_set_ne other⟩
    | _ => exact about.elim
  | delete c key =>
    cases outcome
    cases c with
    | challenges =>
      have about : key = h := about
      subst about
      exact ⟨rfl, rfl, rfl, rfl, fun _ other => Table.get_delete_ne other, fun _ _ => rfl⟩
    | _ => exact about.elim
  | _ => exact about.elim

theorem onlyAbout_of_only {α : Type} {program : SignerProg α} (only : program.Only (Op.About h)) :
    Prog.wp (traced signing R) program (fun _ p => OnlyAbout h s p.1) (s, calls) := by
  refine Prog.wp_of_only (W := traced signing R) (R := fun p p' => OnlyAbout h p.1 p'.1)
    (fun p => .refl p.1) .trans ?_ (fun _ _ => trivial) only (s, calls)
  intro o p answer p' about step
  exact .of_step about step.1

theorem about_recordAttempt (bucket : Option RateLimitBucket) (config : RateLimitConfig) :
    (recordAttempt bucket config).Only (Op.About h) :=
  ⟨trivial, fun _ => trivial⟩

theorem about_indexedSessions (index : SessionIndex) :
    (indexedSessions index).Only (Op.About h) :=
  Prog.only_filterMap (fun _ => Prog.only_op.mpr trivial) _

theorem about_handleChallenge (data : ChallengeRequest) :
    (handleChallenge options data).Only (Op.About data.emailHash) := by
  unfold handleChallenge
  refine ⟨trivial, fun bucket => (only_isRateLimited trivial bucket _).bind fun limited => ?_⟩
  split
  · trivial
  refine (only_challengeRecipient (fun _ _ => trivial) _).bind fun recipient => ?_
  cases recipient with
  | none => trivial
  | some email =>
    refine (about_recordAttempt bucket _).bind fun attempt => ?_
    refine ⟨rfl, fun _ => ⟨trivial, fun word => ⟨trivial, fun createdAt => ⟨rfl, fun _ => ?_⟩⟩⟩⟩
    split
    · trivial
    · split
      · exact ⟨trivial, fun _ => trivial⟩
      · trivial

theorem about_evaluateAuth (auth : Auth) (index : Option SessionIndex) :
    (evaluateAuth auth index).Only (Op.About auth.emailHash) := by
  cases index with
  | none => trivial
  | some index =>
    cases auth with
    | password emailHash passwordHash =>
      exact (about_indexedSessions index).bind fun _ => trivial
    | otp emailHash otp =>
      refine ⟨trivial, fun challenge => ?_⟩
      cases challenge with
      | none => trivial
      | some challenge =>
        refine ⟨rfl, fun _ => ?_⟩
        dsimp only
        split
        · exact about_indexedSessions index
        · trivial

theorem about_getAuthenticatedSessions (auth : Auth) :
    (getAuthenticatedSessions auth).Only (Op.About auth.emailHash) := by
  unfold getAuthenticatedSessions
  refine ⟨trivial, fun bucket => (only_isRateLimited trivial bucket _).bind fun limited => ?_⟩
  split
  · trivial
  refine ⟨trivial, fun index => (about_evaluateAuth auth index).bind fun found => ?_⟩
  split
  · exact (about_recordAttempt bucket _).bind fun _ => ⟨rfl, fun _ => trivial⟩
  · trivial

/-- Whether the client has a record. -/
def State.reuses (s : State) (client : Str) : Bool :=
  (s.sessions.get client).isSome || (s.recoveries.get client).isSome || (s.logins.get client).isSome

theorem AlikeApart.reuses {U : Str → Prop} (alike : AlikeApart h U s s') {client : Str}
    (user : U client) : s'.reuses client = s.reuses client := by
  unfold State.reuses
  rw [(alike.users client user).equal, alike.recoveries client user, alike.logins client user]

theorem checkKeyReuse_reads {client : Str} :
    Prog.wp (traced signing R) (checkKeyReuse client)
      (fun r p => ∃ reused, r = some reused ∧ reused = s.reuses client ∧ p.1 = s) (s, calls) := by
  unfold checkKeyReuse
  rw [wp_get]
  cases session : s.sessions.get client with
  | some _ =>
    simp only [State.table, session]
    exact ⟨true, rfl, by simp [State.reuses, session], rfl⟩
  | none =>
    simp only [State.table, session, Option.isSome_none, Bool.false_eq_true, if_false]
    rw [wp_get]
    cases recovery : s.recoveries.get client with
    | some _ =>
      simp only [State.table, recovery]
      exact ⟨true, rfl, by simp [State.reuses, recovery], rfl⟩
    | none =>
      simp only [State.table, recovery, Option.isSome_none, Bool.false_eq_true, if_false]
      rw [wp_get]
      cases login : s.logins.get client with
      | some _ =>
        simp only [State.table, login]
        exact ⟨true, rfl, by simp [State.reuses, login], rfl⟩
      | none =>
        simp only [State.table, login]
        exact ⟨false, rfl, by simp [State.reuses, session, recovery, login], rfl⟩

/-- The answer to a start whose credentials open nothing. -/
def notFound (reused : Bool) : Response :=
  refuse (if reused then "Do not re-use session keys." else "No sessions found.")

theorem startWith_closed [IsPreorder Nat R] {record : Str → Nat → List Str → SignerProg Unit}
    {success : String} {auth : NostrAuth} {data : StartRequest Auth}
    (closed : ∀ key session, ¬ Opens s data.auth key session) :
    Prog.wp (traced signing R) (startWith record success auth data)
      (fun r p => r = some (notFound (s.reuses auth.pubkey)) ∧
        OnlyAbout data.auth.emailHash s p.1) (s, calls) := by
  unfold startWith
  dsimp only
  refine Prog.wp_then checkKeyReuse_reads ?_
  intro reused p checked
  obtain ⟨s₁, calls₁⟩ := p
  obtain ⟨same, unchanged⟩ := checked
  have unchanged : s₁ = s := unchanged
  subst unchanged
  rw [← same]
  cases reused with
  | true => exact ⟨rfl, .refl s₁⟩
  | false =>
    simp only [Bool.false_eq_true, if_false]
    refine Prog.wp_seq (Prog.wp_and getAuthenticatedSessions_opens
      (onlyAbout_of_only (about_getAuthenticatedSessions data.auth))) ?_ ?_
    · intro found p result
      obtain ⟨⟨_, returned, _, opened⟩, about⟩ := result
      cases returned
      have nothing : found = [] := by
        refine List.eq_nil_iff_forall_not_mem.mpr fun session member => ?_
        obtain ⟨key, opens⟩ := opened session member
        exact closed key session opens
      subst nothing
      exact ⟨rfl, about⟩
    · intro p result
      obtain ⟨⟨_, returned, _⟩, _⟩ := result
      cases returned

end About

/-! ## Probing -/

/-- The requests that can be made without a session. -/
def Body.Probes {A : Type} : Body A → Prop
  | .challenge _ | .loginStart _ | .loginSelect _ | .recoveryStart _ | .recoverySelect _ => True
  | _ => False

/-- The email hash that a request is about. -/
def Body.about : Body Auth → Option Str
  | .challenge data => some data.emailHash
  | .loginStart data | .recoveryStart data => some data.auth.emailHash
  | _ => none

/-- The answer to a request about an account whose credentials it does not present. -/
def Body.untold (reused : Bool) : Body Auth → Response
  | .challenge _ => checkInbox
  | _ => notFound reused

/-- The job is a probe of one of the clients. -/
def Probes (U : Str → Prop) (job : Job Auth) : Prop :=
  ∃ auth body, job = .request (some auth) (.body body) ∧ U auth.pubkey ∧ body.Probes

/-- The event presents credentials that open a session of the email hash. -/
def Guesses (h : Str) (e : RustEvent) : Prop :=
  ∃ auth access data, e.job = .request (some auth) (.body (Access.start data access)) ∧
    data.auth.emailHash = h ∧ ∃ key session, Opens e.before data.auth key session

section Probing

variable {Pt : Type} [AddCommGroup Pt] [Module Scalar Pt] [Curve Pt] [Sha2] [Argon2]
variable {options : SignerOptions} {R : Nat → Nat → Prop} {h : Str} {U : Str → Prop}
variable {s s' : State}

theorem dispatch_twin (alike : AlikeApart h U s s') {auth : NostrAuth} {body : Body Auth}
    (user : U auth.pubkey) (probes : body.Probes) (other : body.about ≠ some h) :
    Prog.wp (twin (createPsigPkgWithNonce Pt)) (dispatch Pt options auth body)
      (fun _ p => AlikeApart h U p.1 p.2) (s, s') := by
  have differ : ∀ {g : Str}, some g ≠ some h → g ≠ h := fun other same => other (congrArg some same)
  cases body with
  | challenge data => exact handleChallenge_twin alike (differ other)
  | loginStart data => exact handleLoginStart_twin alike user (differ other)
  | loginSelect data => exact handleLoginSelect_twin alike user
  | recoveryStart data => exact handleRecoveryStart_twin alike user (differ other)
  | recoverySelect data => exact handleRecoverySelect_twin alike user
  | _ => exact probes.elim

variable [IsPreorder Nat R]

/-- A request about the account gets an answer that says nothing, and leaves records about it. -/
theorem dispatch_about (mails : options.testMode = true ∨ options.mailer = true) {auth : NostrAuth}
    {body : Body Auth} (about : body.about = some h)
    (closed : ∀ access data, body = Access.start data access →
      ∀ key session, ¬ Opens s data.auth key session) :
    Prog.wp (traced (createPsigPkgWithNonce Pt) R) (dispatch Pt options auth body)
      (fun r p => r = some (body.untold (s.reuses auth.pubkey)) ∧ OnlyAbout h s p.1) (s, []) := by
  cases body with
  | challenge data =>
    cases about
    refine Prog.wp_mono ?_ _ _ (Prog.wp_and handleChallenge_challenged
      (onlyAbout_of_only (about_handleChallenge data)))
    intro r p both
    exact ⟨both.1.2 mails, both.2⟩
  | loginStart data =>
    cases about
    unfold dispatch handleLoginStart
    exact startWith_closed (closed .login data rfl)
  | recoveryStart data =>
    cases about
    unfold dispatch handleRecoveryStart
    exact startWith_closed (closed .recovery data rfl)
  | _ => cases about

/-- One probe is answered alike by the two signers, and they are alike afterwards. -/
theorem probe_alike (mails : options.testMode = true ∨ options.mailer = true)
    (alike : AlikeApart h U s s') {job : Job Auth} (probes : Probes U job) {env : Nat → Env}
    (admitted : Prog.Admits (exec (createPsigPkgWithNonce Pt)) (permit R) (handle Pt options job) env s)
    (admitted' : Prog.Admits (exec (createPsigPkgWithNonce Pt)) (permit R) (handle Pt options job)
      env s')
    (honest : ¬ Guesses h (Event.ofRun (exec (createPsigPkgWithNonce Pt)) (handle Pt options) job env s))
    (honest' : ¬ Guesses h
      (Event.ofRun (exec (createPsigPkgWithNonce Pt)) (handle Pt options) job env s')) :
    (Event.ofRun (exec (createPsigPkgWithNonce Pt)) (handle Pt options) job env s').result =
        (Event.ofRun (exec (createPsigPkgWithNonce Pt)) (handle Pt options) job env s).result ∧
      AlikeApart h U
        (Event.ofRun (exec (createPsigPkgWithNonce Pt)) (handle Pt options) job env s).after
        (Event.ofRun (exec (createPsigPkgWithNonce Pt)) (handle Pt options) job env s').after := by
  obtain ⟨auth, body, same, user, probes⟩ := probes
  subst same
  by_cases valid : body.schemaValid = true
  · by_cases about : body.about = some h
    · -- Both sides give the same answer, each from its own records.
      have told : ∀ {t : State},
          Prog.Admits (exec (createPsigPkgWithNonce Pt)) (permit R)
            (handle Pt options (.request (some auth) (.body body))) env t →
          ¬ Guesses h (Event.ofRun (exec (createPsigPkgWithNonce Pt)) (handle Pt options)
            (.request (some auth) (.body body)) env t) →
          (Event.ofRun (exec (createPsigPkgWithNonce Pt)) (handle Pt options)
              (.request (some auth) (.body body)) env t).result =
            some (body.untold (t.reuses auth.pubkey)) ∧
          OnlyAbout h t (Event.ofRun (exec (createPsigPkgWithNonce Pt)) (handle Pt options)
            (.request (some auth) (.body body)) env t).after := by
        intro t admitted honest
        have happens : (Event.ofRun (exec (createPsigPkgWithNonce Pt)) (handle Pt options)
            (.request (some auth) (.body body)) env t).Happens (rustWorld Pt R)
            (handle Pt options) := Event.happens_ofRun admitted
        refine of_body (R := R) (Q := fun r p => r = some (body.untold (t.reuses auth.pubkey)) ∧
          OnlyAbout h t p.1) happens rfl (fun _ => ?_) fun invalid => absurd valid invalid
        refine dispatch_about mails about fun access data same key session opens => honest ?_
        have job : Job.request (some auth) (.body body) =
            .request (some auth) (.body (Access.start data access)) := by rw [same]
        refine ⟨auth, access, data, job, ?_, key, session, opens⟩
        subst same
        cases access with
        | login => exact Option.some.inj about
        | recovery => exact Option.some.inj about
      have first := told admitted honest
      have second := told admitted' honest'
      refine ⟨?_, alike.of_about first.2 second.2⟩
      rw [first.1, second.1, alike.reuses user]
    · refine Prog.run_lockstep (Q := fun _ p => AlikeApart h U p.1 p.2) ?_ env [] []
      unfold handle
      dsimp only
      rw [if_pos valid]
      exact dispatch_twin alike user probes about
  · simp only [Event.ofRun, handle, valid]
    exact ⟨rfl, alike⟩

theorem probes_alike (mails : options.testMode = true ∨ options.mailer = true)
    (jobs : List (Job Auth × (Nat → Env))) (probes : ∀ job ∈ jobs, Probes U job.1)
    (alike : AlikeApart h U s s')
    (run : Replays (exec (createPsigPkgWithNonce Pt)) (permit R) (handle Pt options)
      (fun e => ¬ Guesses h e) jobs s)
    (run' : Replays (exec (createPsigPkgWithNonce Pt)) (permit R) (handle Pt options)
      (fun e => ¬ Guesses h e) jobs s') {events events' : List RustEvent}
    (past : events'.map (·.result) = events.map (·.result)) :
    (replay (exec (createPsigPkgWithNonce Pt)) (handle Pt options) jobs events' s').1.map (·.result) =
      (replay (exec (createPsigPkgWithNonce Pt)) (handle Pt options) jobs events s).1.map
        (·.result) := by
  induction jobs generalizing s s' events events' with
  | nil => exact past
  | cons job rest ih =>
    obtain ⟨job, env⟩ := job
    rw [List.forall_mem_cons] at probes
    obtain ⟨⟨admitted, honest⟩, run⟩ := run
    obtain ⟨⟨admitted', honest'⟩, run'⟩ := run'
    obtain ⟨answered, alike⟩ := probe_alike mails alike probes.1 admitted admitted' honest honest'
    refine ih probes.2 alike run run' ?_
    rw [List.map_cons, List.map_cons, answered, past]

/-- The answers do not tell whether an account is there.  A signer can reach one of two stores that
agree apart from the records about an email hash, and the index entries of other email hashes list
no session of its account.  Then any probes, made at the same times by clients that have no record
and do not guess the credentials, are answered alike from both. -/
theorem answers_tell_no_account (mails : options.testMode = true ∨ options.mailer = true)
    {ok : RustEvent → Prop} {past : List RustEvent} (reached : RustRuns Pt options R Opened ok past s)
    (agree : AgreeApart h s s') (apart : ListsApart h s) (apart' : ListsApart h s')
    (unused : ∀ client, U client → s.registry.Unused client)
    (unused' : ∀ client, U client → s'.registry.Unused client)
    (jobs : List (Job Auth × (Nat → Env))) (probes : ∀ job ∈ jobs, Probes U job.1)
    (run : Replays (exec (createPsigPkgWithNonce Pt)) (permit R) (handle Pt options)
      (fun e => ¬ Guesses h e) jobs s)
    (run' : Replays (exec (createPsigPkgWithNonce Pt)) (permit R) (handle Pt options)
      (fun e => ¬ Guesses h e) jobs s') :
    (replay (exec (createPsigPkgWithNonce Pt)) (handle Pt options) jobs [] s').1.map (·.result) =
      (replay (exec (createPsigPkgWithNonce Pt)) (handle Pt options) jobs [] s).1.map
        (·.result) :=
  probes_alike mails jobs probes (agree.alike (rust_sound reached) apart apart' unused unused') run
    run' rfl

end Probing

section Sample

attribute [local instance] Sample.sha2 Sample.argon2

/-- An account that has been asked for a one-time password. -/
def knownRun : List (Job Auth × Nat) :=
  [(Sample.register (Sample.clientKey 7) [1], 1000),
    (Sample.setup (Sample.clientKey 7) Sample.passwordHash, 1001), (Sample.challenge [], 1002)]

/-- Someone asks for another one, and tries a password. -/
def probeJobs : List (Job Auth × (Nat → Env)) :=
  [(Sample.challenge [], Sample.steady 1003),
    (Sample.wrongPassword (Sample.clientKey 9), Sample.steady 1004)]

/-- What is found under every key is told by the keys that are stored. -/
theorem forall_get {V : Type} {t : Table V} {P : Str → Option V → Prop}
    (stored : ∀ key ∈ t.keys, P key (t.get key)) (absent : ∀ key, P key none) (key : Str) :
    P key (t.get key) := by
  by_cases member : key ∈ t.keys
  · exact stored key member
  · rw [show t.get key = none from AList.lookup_eq_none.mpr member]
    exact absent key

/-- The other password opens no session that does not have it. -/
theorem wrongPassword_honest {e : RustEvent} {auth : NostrAuth} {h : Str}
    (job : e.job = Sample.wrongPassword auth)
    (guarded : ∀ key, (e.before.sessions.get key).all
      (fun session => decide (session.passwordHash ≠ some Sample.otherHash)) = true) :
    ¬ Guesses h e := by
  intro guesses
  obtain ⟨auth', access, data, same, _, key, session, opens⟩ := guesses
  rw [job] at same
  have other := guarded key
  rw [opens.stored, Option.all_some, decide_eq_true_iff] at other
  cases access with
  | login =>
    cases same
    exact other opens.proved
  | recovery => cases same

theorem challenge_honest {e : RustEvent} {otpPrefix h : Str}
    (job : e.job = Sample.challenge otpPrefix) : ¬ Guesses h e := by
  intro guesses
  obtain ⟨auth, access, data, same, _⟩ := guesses
  rw [job] at same
  cases access <;> cases same

/-- The answers are those of a signer that has no account at all. -/
theorem answers_tell_no_account_known :
    (replay (exec (createPsigPkgWithNonce Scalar)) (handle Scalar Sample.options) probeJobs []
        (State.opened 0)).1.map (·.result) =
      (replay (exec (createPsigPkgWithNonce Scalar)) (handle Scalar Sample.options) probeJobs []
        (Sample.play knownRun).2).1.map (·.result) := by
  -- The run is checked once; what its state holds away from the one account is read off the tables.
  have reached := Sample.play_runs (R := anyClock) knownRun (by decide +kernel)
  have logins : ∀ client, (Sample.play knownRun).2.logins.get client = none :=
    forall_get (P := fun _ found => found = none) (by decide +kernel) fun _ => rfl
  have recoveries : ∀ client, (Sample.play knownRun).2.recoveries.get client = none :=
    forall_get (P := fun _ found => found = none) (by decide +kernel) fun _ => rfl
  have index : ∀ g, g ≠ Sample.emailHash →
      (Sample.play knownRun).2.sessionsByEmailHash.get g = none :=
    forall_get (P := fun g found => g ≠ Sample.emailHash → found = none) (by decide +kernel)
      fun _ _ => rfl
  have challenges : ∀ g, g ≠ Sample.emailHash →
      (Sample.play knownRun).2.challenges.get g = none :=
    forall_get (P := fun g found => g ≠ Sample.emailHash → found = none) (by decide +kernel)
      fun _ _ => rfl
  have buckets : ∀ g, g ≠ Sample.emailHash →
      (Sample.play knownRun).2.rateLimitByEmailHash.get g = none :=
    forall_get (P := fun g found => g ≠ Sample.emailHash → found = none) (by decide +kernel)
      fun _ _ => rfl
  have sessions : ∀ key, (((Sample.play knownRun).2.sessions.get key).filter fun session =>
      decide (session.emailHash ≠ some Sample.emailHash)) = none :=
    forall_get (P := fun _ (found : Option SignerSession) =>
      found.filter (fun session => decide (session.emailHash ≠ some Sample.emailHash)) = none)
      (by decide +kernel) fun _ => rfl
  -- The two callers are strangers: neither client key has a session.
  have users : ∀ client, client = (Sample.clientKey 1).pubkey ∨
      client = (Sample.clientKey 9).pubkey → (Sample.play knownRun).2.sessions.get client = none := by
    intro client user
    cases user with
    | inl first => rw [first]; decide +kernel
    | inr second => rw [second]; decide +kernel
  have agree : AgreeApart Sample.emailHash (Sample.play knownRun).2 (State.opened 0) :=
    ⟨logins, recoveries, index, challenges, buckets, sessions⟩
  refine answers_tell_no_account
    (U := fun client => client = (Sample.clientKey 1).pubkey ∨ client = (Sample.clientKey 9).pubkey)
    (.inl rfl) reached agree ?_ ?_ ?_ ?_ probeJobs ?_ ?_ ?_
  · intro g other entry stored
    rw [index g other] at stored
    cases stored
  · intro g other entry stored
    cases stored
  · exact fun client user => ⟨users client user, recoveries client, logins client⟩
  · exact fun client user => ⟨rfl, rfl, rfl⟩
  · intro job member
    cases member with
    | head => exact ⟨_, _, rfl, .inl rfl, trivial⟩
    | tail _ member =>
      cases member with
      | head => exact ⟨_, _, rfl, .inr rfl, trivial⟩
      | tail _ member => cases member
  · refine ⟨⟨by decide +kernel, challenge_honest rfl⟩, ⟨by decide +kernel, ?_⟩, trivial⟩
    refine wrongPassword_honest rfl (forall_get (P := fun _ (found : Option SignerSession) =>
      found.all (fun session => decide (session.passwordHash ≠ some Sample.otherHash)) = true)
      (by decide +kernel) fun _ => rfl)
  · exact ⟨⟨by decide +kernel, challenge_honest rfl⟩,
      ⟨by decide +kernel, wrongPassword_honest rfl fun _ => rfl⟩, trivial⟩

end Sample

end Pomade.Signer
