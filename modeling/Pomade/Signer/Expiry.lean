import Pomade.Signer.Challenge
import Pomade.Signer.Commitments

/-! # How long records live

Logins, recoveries, one-time passwords and commitments are to live for some minutes.  No handler
looks at their age: it is the cleanup that drops them.  So in every run a record that is used is
no older than its lifetime and what has passed since the last cleanup, and a cleanup drops no
record before its time.
-/

namespace Pomade.Signer

open Pomade.Lib Pomade.Frost Coll

/-- The lifetime of logins, recoveries and one-time passwords. -/
def recordTtlSecs : Nat := 15 * minuteSecs

/-- No record of the collections that a cleanup sweeps was out of its time when they were swept,
and no commitment when they were reaped. -/
structure Fresh (swept reaped : Nat) (s : State) : Prop where
  recoveries : ∀ key r, s.recoveries.get key = some r → swept ≤ r.createdAt + recordTtlSecs
  logins : ∀ key l, s.logins.get key = some l → swept ≤ l.createdAt + recordTtlSecs
  challenges : ∀ key c, s.challenges.get key = some c → swept ≤ c.createdAt + recordTtlSecs
  commits : ∀ client, ∀ e ∈ s.pending client, reaped ≤ e.createdAt + commitTtlSecs
  clock : swept ≤ s.clock ∧ reaped ≤ s.clock

/-- The calls that write a record with a time of creation. -/
def Op.Dates : Op → Prop
  | .set .logins _ _ | .set .recoveries _ _ | .set .challenges _ _ | .pushCommit _ _ => True
  | _ => False

theorem Op.Plain.undated {writes : List Coll} (logins_ : logins ∉ writes) (recoveries_ : recoveries ∉ writes)
    (challenges_ : challenges ∉ writes) {o : Op} (plain : o.Plain writes) : ¬ o.Dates := by
  intro dates
  cases o with
  | set c key value =>
    cases c with
    | logins => exact logins_ plain
    | recoveries => exact recoveries_ plain
    | challenges => exact challenges_ plain
    | _ => exact dates
  | pushCommit client entry => exact plain
  | _ => exact dates

/-! ## Calls -/

section Calls

variable {signing : SigningFn} {swept reaped : Nat} {s s' : State} {calls : List SignerCall}
variable {α : Type}

theorem forall_delete {V : Type} {P : V → Prop} {t : Table V} {key : Str}
    (all : ∀ k v, t.get k = some v → P v) : ∀ k v, (t.delete key).get k = some v → P v := by
  intro k v stored
  by_cases same : k = key
  · rw [same, Table.get_delete_self] at stored
    cases stored
  · rw [Table.get_delete_ne same] at stored
    exact all k v stored

theorem forall_set {V : Type} {P : V → Prop} {t : Table V} {key : Str} {value : V}
    (all : ∀ k v, t.get k = some v → P v) (new : P value) :
    ∀ k v, (t.set key value).get k = some v → P v := by
  intro k v stored
  by_cases same : k = key
  · rw [same, Table.get_set_self] at stored
    cases stored
    exact new
  · rw [Table.get_set_ne same] at stored
    exact all k v stored

/-- Time goes by. -/
theorem Fresh.later (fresh : Fresh swept reaped s) {time : Nat} (next : s.clock ≤ time) :
    Fresh swept reaped { s with clock := time } :=
  ⟨fresh.recoveries, fresh.logins, fresh.challenges, fresh.commits,
    le_trans fresh.clock.1 next, le_trans fresh.clock.2 next⟩

/-- A call that dates nothing only drops records. -/
theorem Fresh.of_step {o : Op} {answer : Ans o} (fresh : Fresh swept reaped s) (undated : ¬ o.Dates)
    (step : (world signing (· ≤ ·)).step o s answer s') : Fresh swept reaped s' := by
  -- A commitment is dated when it is pushed; every other step can only take some away.
  have commits : ∀ client, ∀ e ∈ s'.pending client, reaped ≤ e.createdAt + commitTtlSecs := by
    intro client e member
    cases pending_of_step client step with
    | inl fewer => exact fresh.commits client e (fewer.subset member)
    | inr pushed =>
      obtain ⟨entry, rfl, _⟩ := pushed
      exact absurd trivial undated
  obtain ⟨env, related, outcome⟩ := step
  cases o with
  | set c key value =>
    cases outcome
    cases c with
    | logins => exact absurd trivial undated
    | recoveries => exact absurd trivial undated
    | challenges => exact absurd trivial undated
    | _ => exact ⟨fresh.recoveries, fresh.logins, fresh.challenges, commits, fresh.clock⟩
  | delete c key =>
    cases outcome
    cases c with
    | logins =>
      exact ⟨fresh.recoveries, forall_delete fresh.logins, fresh.challenges, commits, fresh.clock⟩
    | recoveries =>
      exact ⟨forall_delete fresh.recoveries, fresh.logins, fresh.challenges, commits, fresh.clock⟩
    | challenges =>
      exact ⟨fresh.recoveries, fresh.logins, forall_delete fresh.challenges, commits, fresh.clock⟩
    | _ => exact ⟨fresh.recoveries, fresh.logins, fresh.challenges, commits, fresh.clock⟩
  | takeCommit client commitId =>
    obtain ⟨left, taken⟩ := takeCommit_state s swapRemove client commitId
    have same : s' = { s with commitsByClient := left } :=
      (congrArg Prod.snd outcome).symm.trans taken
    subst same
    exact ⟨fresh.recoveries, fresh.logins, fresh.challenges, commits, fresh.clock⟩
  | takeCommitInOrder client commitId =>
    obtain ⟨left, taken⟩ := takeCommit_state s List.eraseIdx client commitId
    have same : s' = { s with commitsByClient := left } :=
      (congrArg Prod.snd outcome).symm.trans taken
    subst same
    exact ⟨fresh.recoveries, fresh.logins, fresh.challenges, commits, fresh.clock⟩
  | now =>
    cases outcome
    exact fresh.later related
  | _ =>
    cases outcome
    exact ⟨fresh.recoveries, fresh.logins, fresh.challenges, commits, fresh.clock⟩

theorem fresh_of_only {program : SignerProg α} (only : program.Only fun o => ¬ o.Dates)
    (fresh : Fresh swept reaped s) :
    Prog.wp (traced signing (· ≤ ·)) program (fun _ p => Fresh swept reaped p.1) (s, calls) := by
  have kept := Prog.wp_of_only (W := traced signing (· ≤ ·))
    (R := fun p p' => Fresh swept reaped p.1 → Fresh swept reaped p'.1) (fun _ held => held)
    (fun first second held => second (first held))
    (fun o p answer p' undated step held => held.of_step undated step.1) (fun _ _ => trivial) only (s, calls)
  exact Prog.wp_mono (fun _ _ holds => holds fresh) _ _ kept

/-- What comes after calls that date nothing. -/
theorem fresh_bind {β : Type} {p : SignerProg α} {f : α → SignerProg β}
    (only : p.Only fun o => ¬ o.Dates) (fresh : Fresh swept reaped s)
    (rest : ∀ a s₁ calls₁, Fresh swept reaped s₁ →
      Prog.wp (traced signing (· ≤ ·)) (f a) (fun _ p => Fresh swept reaped p.1) (s₁, calls₁)) :
    Prog.wp (traced signing (· ≤ ·)) (p >>= f) (fun _ p => Fresh swept reaped p.1) (s, calls) := by
  refine Prog.wp_seq (fresh_of_only only fresh) ?_ ?_
  · rintro a ⟨s₁, calls₁⟩ held
    exact rest a s₁ calls₁ held
  · exact fun _ held => held

end Calls

/-! ## Handlers -/

section Handlers

variable {Pt : Type} [AddCommGroup Pt] [Module Scalar Pt] [Curve Pt] [Sha2] [Argon2]
variable {options : SignerOptions} {signing : SigningFn} {swept reaped : Nat} {s : State}
variable {calls : List SignerCall}

omit [Sha2] [Argon2] in
theorem handleChallenge_fresh {data : ChallengeRequest} (fresh : Fresh swept reaped s) :
    Prog.wp (traced signing (· ≤ ·)) (handleChallenge options data)
      (fun _ p => Fresh swept reaped p.1) (s, calls) := by
  unfold handleChallenge
  refine fresh_bind (Prog.only_op.mpr id) fresh fun bucket s₁ calls₁ fresh₁ => ?_
  refine fresh_bind (only_isRateLimited id _ _) fresh₁ fun limited s₂ calls₂ fresh₂ => ?_
  split
  · exact fresh₂
  refine fresh_bind (only_challengeRecipient (fun _ _ => id) _) fresh₂ fun recipient s₃ calls₃ fresh₃ => ?_
  cases recipient with
  | none => exact fresh₃
  | some email =>
    dsimp only
    refine fresh_bind ⟨id, fun _ => trivial⟩ fresh₃ fun attempt s₄ calls₄ fresh₄ => ?_
    refine fresh_bind (Prog.only_op.mpr id) fresh₄ fun _ s₅ calls₅ fresh₅ => ?_
    refine fresh_bind ⟨id, fun _ => trivial⟩ fresh₅ fun suffix s₆ calls₆ fresh₆ => ?_
    rw [wp_now]
    intro createdAt next
    rw [wp_set]
    -- The one-time password is as old as the last reading of the clock.
    have held := fresh₆.later next
    have young : swept ≤ createdAt + recordTtlSecs := le_trans held.clock.1 (Nat.le_add_right _ _)
    have stored : Fresh swept reaped (({ s₆ with clock := createdAt } : State).setTable challenges
        (s₆.challenges.set data.emailHash
          { otp := data.otpPrefix ++ (toString suffix.toNat).toList, createdAt })) :=
      ⟨held.recoveries, held.logins, forall_set held.challenges young, held.commits, held.clock⟩
    split
    · exact stored
    split
    · rw [wp_sendMail]
      exact stored
    · exact stored

omit [Sha2] [Argon2] in
theorem startWith_fresh {record : Str → Nat → List Str → SignerProg Unit} {success : String}
    {auth : NostrAuth} {data : StartRequest Auth} (fresh : Fresh swept reaped s)
    (recorded : ∀ (s₁ : State) calls₁ clients, Fresh swept reaped s₁ →
      Prog.wp (traced signing (· ≤ ·)) (record auth.pubkey s₁.clock clients)
        (fun _ p => Fresh swept reaped p.1) (s₁, calls₁)) :
    Prog.wp (traced signing (· ≤ ·)) (startWith record success auth data)
      (fun _ p => Fresh swept reaped p.1) (s, calls) := by
  unfold startWith
  have reuse := only_checkKeyReuse (P := fun o => ¬ o.Dates) (fun _ => id) (fun _ => id) (fun _ => id)
    auth.pubkey
  refine fresh_bind reuse fresh fun reused s₁ calls₁ fresh₁ => ?_
  split
  · exact fresh₁
  have authenticated := only_getAuthenticatedSessions (P := fun o => ¬ o.Dates) id (fun _ _ => id)
    (fun _ => id) (fun _ _ => id) data.auth
  refine fresh_bind authenticated fresh₁ fun found s₂ calls₂ fresh₂ => ?_
  split
  · exact fresh₂
  rw [wp_now]
  intro createdAt next
  refine Prog.wp_seq (recorded { s₂ with clock := createdAt } _ _ (fresh₂.later next)) ?_ ?_
  · rintro _ ⟨s₃, calls₃⟩ held
    exact held
  · exact fun _ held => held

omit [Sha2] [Argon2] in
theorem undated_checkAndRecordRateLimit (client : Str) :
    (checkAndRecordRateLimit client).Only fun o => ¬ o.Dates := by
  have plain : (checkAndRecordRateLimit client).Only (Op.Plain [rateLimitByClient]) :=
    plain_checkAndRecordRateLimit (by decide) client
  exact plain.mono fun o => Op.Plain.undated (by decide) (by decide) (by decide)

omit [Argon2] in
theorem handleSignCommit_fresh {auth : NostrAuth} {data : SignCommitRequest}
    (fresh : Fresh swept reaped s) :
    Prog.wp (traced signing (· ≤ ·)) (handleSignCommit Pt auth data)
      (fun _ p => Fresh swept reaped p.1) (s, calls) := by
  unfold handleSignCommit
  dsimp only
  refine fresh_bind (Prog.only_op.mpr id) fresh fun session s₁ calls₁ fresh₁ => ?_
  cases session with
  | none => exact fresh₁
  | some session =>
    dsimp only
    split
    · exact fresh₁
    have limiter := undated_checkAndRecordRateLimit auth.pubkey
    refine fresh_bind limiter fresh₁ fun admitted s₂ calls₂ fresh₂ => ?_
    split
    · exact fresh₂
    split
    · exact fresh₂
    cases decode32 session.share.seckey with
    | none => exact fresh₂
    | some seckey =>
      dsimp only
      refine fresh_bind (Prog.only_op.mpr id) fresh₂ fun binderSeed s₃ calls₃ fresh₃ => ?_
      refine fresh_bind (Prog.only_op.mpr id) fresh₃ fun hiddenSeed s₄ calls₄ fresh₄ => ?_
      refine fresh_bind (only_ofResult _) fresh₄ fun pkg s₅ calls₅ fresh₅ => ?_
      cases pkg with
      | error e => exact fresh₅
      | ok pkg =>
        refine fresh_bind ⟨id, fun _ => trivial⟩ fresh₅ fun commitId s₆ calls₆ fresh₆ => ?_
        rw [wp_now]
        intro createdAt next
        rw [wp_pushCommit]
        have held := fresh₆.later next
        -- The clock has not gone back since the sweep, so what is dated now outlives it.
        have young : reaped ≤ createdAt + commitTtlSecs := le_trans held.clock.2 (Nat.le_add_right _ _)
        refine fresh_bind (only_ofResult _) ⟨held.recoveries, held.logins, held.challenges, ?_,
          held.clock⟩ fun pubkey s₇ calls₇ fresh₇ => ?_
        · intro client e member
          rw [pending_push] at member
          split at member
          · cases List.mem_append.mp member with
            | inl earlier => exact held.commits _ e earlier
            | inr last =>
              rw [List.mem_singleton.mp last]
              exact young
          · exact held.commits client e member
        · cases pubkey with
          | error e => exact fresh₇
          | ok pubkey => exact fresh₇

omit [Sha2] [Argon2] in
theorem undated_handleLoginSelect (auth : NostrAuth) (data : SelectRequest) :
    (handleLoginSelect auth data).Only fun o => ¬ o.Dates := by
  unfold handleLoginSelect
  dsimp only
  rw [Prog.only_op_bind]
  refine ⟨id, fun login => ?_⟩
  cases login with
  | none => trivial
  | some login =>
    dsimp only
    rw [Prog.only_op_bind]
    refine ⟨id, fun _ => ?_⟩
    split
    · trivial
    rw [Prog.only_op_bind]
    refine ⟨id, fun session => ?_⟩
    cases session with
    | none => trivial
    | some session =>
      have added : ∀ session, (addSession auth.pubkey session).Only fun o => ¬ o.Dates := by
        intro session
        have plain : (addSession auth.pubkey session).Only (Op.Plain sessionWrites) :=
          plain_addSession (by decide) (by decide) auth.pubkey session
        exact plain.mono fun o => Op.Plain.undated (by decide) (by decide) (by decide)
      exact ⟨id, fun createdAt => ⟨id, fun lastActivity => (added _).bind fun _ => trivial⟩⟩

omit [Sha2] [Argon2] in
theorem undated_handleRecoverySelect (auth : NostrAuth) (data : SelectRequest) :
    (handleRecoverySelect auth data).Only fun o => ¬ o.Dates := by
  unfold handleRecoverySelect
  dsimp only
  rw [Prog.only_op_bind]
  refine ⟨id, fun recovery => ?_⟩
  cases recovery with
  | none => trivial
  | some recovery =>
    dsimp only
    rw [Prog.only_op_bind]
    refine ⟨id, fun _ => ?_⟩
    split
    · trivial
    rw [Prog.only_op_bind]
    refine ⟨id, fun session => ?_⟩
    cases session <;> trivial

omit [Argon2] in
/-- Completing a signature writes the session and takes a commitment. -/
theorem only_handleSignComplete {P : Op → Prop} {auth : NostrAuth} {data : SignCompleteRequest}
    (limiter : (checkAndRecordRateLimit auth.pubkey).Only P) (clock : P .now)
    (reads : ∀ key, P (.get sessions key)) (takes : P (.takeCommit auth.pubkey data.commitId))
    (signs : ∀ input, P (.sign input)) (touches : ∀ key session, P (.set sessions key session)) :
    (handleSignComplete Pt auth data).Only P := by
  unfold handleSignComplete
  dsimp only
  rw [Prog.only_op_bind]
  refine ⟨reads _, fun session => ?_⟩
  cases session with
  | none => trivial
  | some session =>
    dsimp only
    split
    · trivial
    refine limiter.bind fun admitted => ?_
    split
    · trivial
    rw [takeCommit, Prog.only_op_bind]
    refine ⟨takes, fun taken => ?_⟩
    cases taken with
    | none => trivial
    | some entry =>
      dsimp only
      split
      · trivial
      split
      · trivial
      refine (only_ofResult _).bind fun own => ?_
      split
      · split
        · trivial
        refine ⟨signs _, fun outcome => (only_ofResult _).bind fun result => ?_⟩
        cases result with
        | error e => trivial
        | ok result => exact ⟨clock, fun _ => ⟨touches _ _, fun _ => trivial⟩⟩
      · trivial

theorem dispatch_fresh (auth : NostrAuth) (body : Body Auth) (fresh : Fresh swept reaped s) :
    Prog.wp (traced signing (· ≤ ·)) (dispatch Pt options auth body)
      (fun _ p => Fresh swept reaped p.1) (s, calls) := by
  have plain : ∀ {writes : List Coll} {program : SignerProg Response},
      program.Only (Op.Plain writes) → logins ∉ writes → recoveries ∉ writes → challenges ∉ writes →
        Prog.wp (traced signing (· ≤ ·)) program (fun _ p => Fresh swept reaped p.1) (s, calls) :=
    fun only noLogins noRecoveries noChallenges => fresh_of_only
      (only.mono fun _ => Op.Plain.undated noLogins noRecoveries noChallenges) fresh
  cases body with
  | challenge data => exact handleChallenge_fresh fresh
  | ecdh data => exact plain (plain_handleEcdh auth data) (by decide) (by decide) (by decide)
  | loginSelect data => exact fresh_of_only (undated_handleLoginSelect auth data) fresh
  | loginStart data =>
    unfold dispatch handleLoginStart
    refine startWith_fresh fresh fun s₁ calls₁ clients held => ?_
    rw [Coll.set, Prog.op_eq, wp_set]
    exact ⟨held.recoveries, forall_set held.logins (le_trans held.clock.1 (Nat.le_add_right _ _)),
      held.challenges, held.commits, held.clock⟩
  | recoverySelect data => exact fresh_of_only (undated_handleRecoverySelect auth data) fresh
  | recoverySetup data =>
    exact plain (plain_handleRecoverySetup auth data) (by decide) (by decide) (by decide)
  | recoveryStart data =>
    unfold dispatch handleRecoveryStart
    refine startWith_fresh fresh fun s₁ calls₁ clients held => ?_
    rw [Coll.set, Prog.op_eq, wp_set]
    exact ⟨forall_set held.recoveries (le_trans held.clock.1 (Nat.le_add_right _ _)), held.logins,
      held.challenges, held.commits, held.clock⟩
  | register data => exact plain (plain_handleRegister auth data) (by decide) (by decide) (by decide)
  | sessionDeactivate data =>
    exact plain (plain_handleSessionDeactivate auth data) (by decide) (by decide) (by decide)
  | sessionDelete data =>
    exact plain (plain_handleSessionDelete auth data) (by decide) (by decide) (by decide)
  | sessionList => exact plain (plain_handleSessionList auth) (by simp) (by simp) (by simp)
  | signCommit data => exact handleSignCommit_fresh fresh
  | signComplete data =>
    refine fresh_of_only (only_handleSignComplete ?_ id ?_ id ?_ ?_) fresh
    · exact undated_checkAndRecordRateLimit auth.pubkey
    · exact fun _ => id
    · exact fun _ => id
    · exact fun _ _ => id

end Handlers

/-! ## Cleanups -/

/-- What a cleanup keeps of the records with a lifetime: exactly those that are not out of it when
it sweeps and when it reaps. -/
structure KeepsYoung (swept reaped : Nat) (s s' : State) : Prop where
  recoveries : ∀ key, s'.recoveries.get key =
    (s.recoveries.get key).filter fun r => decide (swept ≤ r.createdAt + recordTtlSecs)
  logins : ∀ key, s'.logins.get key =
    (s.logins.get key).filter fun l => decide (swept ≤ l.createdAt + recordTtlSecs)
  challenges : ∀ key, s'.challenges.get key =
    (s.challenges.get key).filter fun c => decide (swept ≤ c.createdAt + recordTtlSecs)
  commits : ∀ client, s'.pending client =
    (s.pending client).filter fun e => decide (reaped ≤ e.createdAt + commitTtlSecs)

theorem filter_young {V : Type} (createdAt : V → Nat) (time : Nat) (found : Option V) :
    (found.filter fun value => !decide (createdAt value < cutoff15m time)) =
      found.filter fun value => decide (time ≤ createdAt value + recordTtlSecs) := by
  have same : ∀ value, (!decide (createdAt value < cutoff15m time)) =
      decide (time ≤ createdAt value + recordTtlSecs) := by
    intro value
    rw [cutoff15m, saturatingSub_eq, recordTtlSecs, ← decide_not, decide_eq_decide]
    omega
  simp only [same]

theorem KeepsYoung.fresh {swept reaped : Nat} {s s' : State} (kept : KeepsYoung swept reaped s s')
    (clock : swept ≤ s'.clock ∧ reaped ≤ s'.clock) : Fresh swept reaped s' := by
  have young : ∀ {V : Type} {t t' : Table V} {createdAt : V → Nat},
      (∀ key, t'.get key =
        (t.get key).filter fun value => decide (swept ≤ createdAt value + recordTtlSecs)) →
        ∀ key value, t'.get key = some value → swept ≤ createdAt value + recordTtlSecs := by
    intro V t t' createdAt filtered key value stored
    rw [filtered, Option.filter_eq_some_iff] at stored
    exact of_decide_eq_true stored.2
  refine ⟨young kept.recoveries, young kept.logins, young kept.challenges, ?_, clock⟩
  intro client e member
  rw [kept.commits] at member
  exact of_decide_eq_true (List.mem_filter.mp member).2

/-- A cleanup sweeps at its first reading of the clock and reaps at its last. -/
theorem cleanup_keepsYoung {signing : SigningFn} {s : State} :
    Prog.wp (traced signing (· ≤ ·)) cleanup
      (fun r p => r = some () ∧ ∃ swept timeMonth reaped calls, KeepsYoung swept reaped s p.1 ∧
        (swept ≤ p.1.clock ∧ reaped ≤ p.1.clock) ∧
        [⟨.now, timeMonth⟩, ⟨.now, swept⟩] <:+ p.2 ∧
        p.2 = ⟨.reapCommits (saturatingSub reaped commitTtlSecs), ()⟩ :: ⟨.now, reaped⟩ :: calls)
      (s, []) := by
  unfold cleanup
  rw [wp_now]
  intro swept first
  rw [wp_now]
  intro timeMonth second
  -- Whatever is called from here on, the first two readings stay the oldest calls.
  refine Prog.wp_mono ?_ _ _ (Prog.wp_and (P := fun r p => r = some () ∧ ∃ reaped calls,
    KeepsYoung swept reaped s p.1 ∧ (swept ≤ p.1.clock ∧ reaped ≤ p.1.clock) ∧
    p.2 = ⟨.reapCommits (saturatingSub reaped commitTtlSecs), ()⟩ :: ⟨.now, reaped⟩ :: calls) ?_
    (Prog.wp_suffix (fun _ _ => trivial) _ _))
  · rintro r p ⟨⟨returned, reaped, calls, kept, clock, called⟩, longer⟩
    exact ⟨returned, swept, timeMonth, reaped, calls, kept, clock, longer, called⟩
  dsimp only
  refine Prog.wp_unit sweep_spec ?_
  rintro ⟨s₁, calls₁⟩ ⟨recoveries, rfl, sweptRecoveries⟩
  refine Prog.wp_unit sweep_spec ?_
  rintro ⟨s₂, calls₂⟩ ⟨logins, rfl, sweptLogins⟩
  refine Prog.wp_unit sweep_spec ?_
  rintro ⟨s₃, calls₃⟩ ⟨challenges, rfl, sweptChallenges⟩
  refine Prog.wp_unit sweepBuckets_spec ?_
  rintro ⟨s₄, calls₄⟩ ⟨emailBuckets, emailClock, rfl, laterEmail, _⟩
  refine Prog.wp_unit sweepBuckets_spec ?_
  rintro ⟨s₅, calls₅⟩ ⟨clientBuckets, clientClock, rfl, laterClient, _⟩
  refine Prog.wp_unit sweep_spec ?_
  rintro ⟨s₆, calls₆⟩ ⟨sessions, rfl, _⟩
  rw [wp_now]
  intro reaped laterCommit
  rw [reapCommits, Prog.op_eq, wp_reapCommits]
  have later : swept ≤ reaped :=
    le_trans second (le_trans laterEmail (le_trans laterClient laterCommit))
  refine ⟨rfl, reaped, calls₆, ⟨?_, ?_, ?_, ?_⟩, ⟨later, le_refl reaped⟩, rfl⟩
  · exact fun key => (sweptRecoveries key).trans (filter_young ..)
  · exact fun key => (sweptLogins key).trans (filter_young ..)
  · exact fun key => (sweptChallenges key).trans (filter_young ..)
  · intro client
    rw [pending_reap]
    refine List.filter_congr fun e _ => ?_
    rw [saturatingSub_eq, decide_eq_decide]
    omega

/-! ## Runs -/

section Runs

variable {Pt : Type} [AddCommGroup Pt] [Module Scalar Pt] [Curve Pt] [Sha2] [Argon2]
variable {options : SignerOptions} {ok : RustEvent → Prop}

/-- What the event of a cleanup has done, told by its first reading of the clock and its last. -/
theorem cleanup_youngest {e : RustEvent}
    (happens : e.Happens (rustWorld Pt (· ≤ ·)) (handle Pt options)) (job : e.job = .cleanup) :
    ∃ swept reaped, (clockReadings e).head? = some swept ∧ (clockReadings e).getLast? = some reaped ∧
      KeepsYoung swept reaped e.before e.after ∧ swept ≤ e.after.clock ∧ reaped ≤ e.after.clock := by
  have outcome : ∃ swept timeMonth reaped calls, KeepsYoung swept reaped e.before e.after ∧
      (swept ≤ e.after.clock ∧ reaped ≤ e.after.clock) ∧
      [⟨.now, timeMonth⟩, ⟨.now, swept⟩] <:+ e.calls ∧
      e.calls = ⟨.reapCommits (saturatingSub reaped commitTtlSecs), ()⟩ :: ⟨.now, reaped⟩ :: calls := by
    refine happens.of_wp (Q := fun _ p => ∃ swept timeMonth reaped calls,
      KeepsYoung swept reaped e.before p.1 ∧ (swept ≤ p.1.clock ∧ reaped ≤ p.1.clock) ∧
      [⟨.now, timeMonth⟩, ⟨.now, swept⟩] <:+ p.2 ∧
      p.2 = ⟨.reapCommits (saturatingSub reaped commitTtlSecs), ()⟩ :: ⟨.now, reaped⟩ :: calls) ?_
    rw [job]
    exact Prog.wp_unit cleanup_keepsYoung fun _ cleaned => cleaned
  obtain ⟨swept, timeMonth, reaped, calls, kept, clock, ⟨later, first⟩, last⟩ := outcome
  refine ⟨swept, reaped, ?_, ?_, kept, clock⟩
  · rw [clockReadings, ← first]
    simp [clockReading]
  · rw [clockReadings, last, List.reverse_cons, List.reverse_cons, List.filterMap_append,
      List.filterMap_append]
    simp [List.filterMap_cons, clockReading]

omit [Sha2] [Argon2] in
/-- A cleanup drops records and lets time go by. -/
theorem Fresh.of_keepsYoung {swept reaped swept' reaped' : Nat} {s s' : State}
    (fresh : Fresh swept reaped s) (kept : KeepsYoung swept' reaped' s s')
    (later : s.clock ≤ s'.clock) : Fresh swept reaped s' := by
  have subset : ∀ {V : Type} {P : V → Prop} {t t' : Table V} {young : V → Bool},
      (∀ key, t'.get key = (t.get key).filter young) → (∀ key value, t.get key = some value → P value) →
        ∀ key value, t'.get key = some value → P value := by
    intro V P t t' young filtered all key value stored
    rw [filtered, Option.filter_eq_some_iff] at stored
    exact all key value stored.1
  refine ⟨subset kept.recoveries fresh.recoveries, subset kept.logins fresh.logins,
    subset kept.challenges fresh.challenges, ?_, ?_⟩
  · intro client e member
    rw [kept.commits] at member
    exact fresh.commits client e (List.mem_filter.mp member).1
  · exact ⟨le_trans fresh.clock.1 later, le_trans fresh.clock.2 later⟩

theorem fresh_step {swept reaped : Nat} {e : RustEvent}
    (happens : e.Happens (rustWorld Pt (· ≤ ·)) (handle Pt options))
    (fresh : Fresh swept reaped e.before) : Fresh swept reaped e.after := by
  cases job : e.job with
  | cleanup =>
    obtain ⟨_, _, _, _, kept, _⟩ := cleanup_youngest happens job
    obtain ⟨time15m, timeMonth, _, cleaned, _⟩ := cleanup_happens happens job
    exact fresh.of_keepsYoung kept (le_trans cleaned.first (le_trans cleaned.second cleaned.later))
  | request auth route =>
    refine happens.of_wp (Q := fun _ p => Fresh swept reaped p.1) ?_
    rw [job]
    unfold handle
    cases auth with
    | none => exact fresh
    | some auth =>
      cases route with
      | unknown => exact fresh
      | malformed => exact fresh
      | body data =>
        dsimp only
        split
        · exact dispatch_fresh auth data fresh
        · exact fresh

/-- After a cleanup, no login, recovery, one-time password or commitment is ever there that was
out of its time at that cleanup: what a handler finds is older than its lifetime by no more than
what has passed since.  And the cleanup itself has dropped exactly what was out of its time. -/
theorem records_expire_with_cleanup {later earlier : List RustEvent} {e : RustEvent} {s : State}
    (run : RustRuns Pt options (· ≤ ·) Opened ok (later ++ e :: earlier) s)
    (job : e.job = .cleanup) :
    ∃ swept reaped, (clockReadings e).head? = some swept ∧ (clockReadings e).getLast? = some reaped ∧
      KeepsYoung swept reaped e.before e.after ∧ Fresh swept reaped s := by
  have happens := (run.of_mem (List.mem_append_right _ List.mem_cons_self)).2.1
  obtain ⟨swept, reaped, first, last, kept, clock⟩ := cleanup_youngest happens job
  refine ⟨swept, reaped, first, last, kept, ?_⟩
  -- The induction is on what has happened since.
  induction later generalizing s with
  | nil =>
    cases run with
    | step _ _ _ _ => exact kept.fresh clock
  | cons e' later ih =>
    cases run with
    | step _ before happens' _ => exact fresh_step happens' (ih before)

end Runs

section Sample

attribute [local instance] Sample.sha2 Sample.argon2

/-- Someone starts a login and leaves it. -/
def leftRun : List (Job Auth × Nat) :=
  contactRun ++ [(Sample.loginStart (Sample.clientKey 8), 1002)]

/-- A cleanup a quarter of an hour and some seconds later drops it; then someone else starts. -/
theorem records_expire_with_cleanup_left : ∃ swept reaped,
    (clockReadings (Sample.next .cleanup 2000 (Sample.play leftRun).2)).head? = some swept ∧
    (clockReadings (Sample.next .cleanup 2000 (Sample.play leftRun).2)).getLast? = some reaped ∧
    KeepsYoung swept reaped (Sample.play leftRun).2
      (Sample.next .cleanup 2000 (Sample.play leftRun).2).after ∧
    Fresh swept reaped (Sample.next (Sample.loginStart (Sample.clientKey 9)) 2001
      (Sample.next .cleanup 2000 (Sample.play leftRun).2).after).after := by
  have left := Sample.play_runs (R := (· ≤ ·)) leftRun (by decide +kernel)
  have swept : RustRuns Scalar Sample.options (· ≤ ·) Opened (fun _ => True)
      (Sample.next .cleanup 2000 (Sample.play leftRun).2 :: (Sample.play leftRun).1)
      (Sample.next .cleanup 2000 (Sample.play leftRun).2).after :=
    .step _ left (Event.happens_ofRun (by decide +kernel)) trivial
  have started : RustRuns Scalar Sample.options (· ≤ ·) Opened (fun _ => True)
      ([Sample.next (Sample.loginStart (Sample.clientKey 9)) 2001
        (Sample.next .cleanup 2000 (Sample.play leftRun).2).after] ++
        Sample.next .cleanup 2000 (Sample.play leftRun).2 :: (Sample.play leftRun).1) _ :=
    .step _ swept (Event.happens_ofRun (by decide +kernel)) trivial
  exact records_expire_with_cleanup started rfl

end Sample

end Pomade.Signer
