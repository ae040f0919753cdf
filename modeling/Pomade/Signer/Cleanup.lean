import Pomade.Signer.Refinement

/-! # The cleanup and the whole signer

A sweep deletes exactly the expired entries of its collection.  With that the cleanup,
and then every job, is a step of the registry.
-/

namespace Pomade.Signer

open Pomade.Lib Pomade.Frost Coll

section Sweeps

variable {signing : SigningFn} {R : Nat → Nat → Prop} {s : State} {calls : List SignerCall}

theorem State.table_setTable (s : State) (c : Coll) (t : Table c.Val) :
    (s.setTable c t).table c = t := by cases c <;> rfl

theorem State.setTable_setTable (s : State) (c : Coll) (t t' : Table c.Val) :
    (s.setTable c t).setTable c t' = s.setTable c t' := by cases c <;> rfl

theorem State.setTable_table (s : State) (c : Coll) : s.setTable c (s.table c) = s := by
  cases c <;> rfl

/-- `t'` is `t` without some entries, each for a reason. -/
def Swept {V : Type} (reason : V → Prop) (t t' : Table V) : Prop :=
  ∀ key, t'.get key = t.get key ∨ t'.get key = none ∧ ∃ value, t.get key = some value ∧ reason value

theorem Swept.refl {V : Type} {reason : V → Prop} (t : Table V) : Swept reason t t :=
  fun _ => .inl rfl

theorem Swept.mono {V : Type} {reason reason' : V → Prop} {t t' : Table V}
    (swept : Swept reason t t') (weaker : ∀ value, reason value → reason' value) :
    Swept reason' t t' := by
  intro key
  rcases swept key with same | ⟨gone, value, found, why⟩
  · exact .inl same
  · exact .inr ⟨gone, value, found, weaker value why⟩

theorem Swept.delete {V : Type} {reason : V → Prop} {t t' : Table V} (swept : Swept reason t t')
    {key : Str} {value : V} (found : t.get key = some value) (why : reason value) :
    Swept reason t (t'.delete key) := by
  intro key'
  rw [Table.get_delete]
  split
  next same => exact .inr ⟨rfl, value, same ▸ found, why⟩
  next => exact swept key'

theorem Swept.shrinks {V : Type} {reason : V → Prop} {t t' : Table V}
    (swept : Swept reason t t') : Shrinks t t' :=
  fun key => (swept key).symm.imp_left And.left

/-- Where nothing expired is left, sweeping is filtering. -/
theorem Swept.filter {V : Type} {expired : V → Bool} {t t' : Table V}
    (swept : Swept (fun value => expired value = true) t t')
    (fresh : ∀ key value, t'.get key = some value → expired value = false) (key : Str) :
    t'.get key = (t.get key).filter fun value => !expired value := by
  rcases swept key with same | ⟨gone, value, found, why⟩
  · cases found : t'.get key with
    | none => rw [← same, found]; rfl
    | some value =>
      have kept := fresh key value found
      rw [← same, found, Option.filter_some_pos (by simp [kept])]
  · rw [gone, found, Option.filter_some_neg (by simp [why])]

/-- A sweep keeps exactly the entries of its collection that are not expired. -/
theorem sweep_spec {c : Coll} {expired : c.Val → Bool} :
    Prog.wp (traced signing R) (sweep c expired)
      (fun r p => r = some () ∧ ∃ t : Table c.Val, p.1 = s.setTable c t ∧
        ∀ key, t.get key = ((s.table c).get key).filter fun value => !expired value)
      (s, calls) := by
  unfold sweep
  rw [wp_entries]
  refine Prog.wp_forEach (I := fun done p => ∃ t : Table c.Val, p.1 = s.setTable c t ∧
    Swept (fun value => expired value = true) (s.table c) t ∧
    ∀ entry ∈ done, expired entry.2 = true → t.get entry.1 = none) _ [] _ ?_ ?_ ?_
  · exact ⟨s.table c, (s.setTable_table c).symm, .refl _, nofun⟩
  · rintro done ⟨key, value⟩ ⟨s₁, calls₁⟩ member ⟨t, same, swept, cleared⟩
    have found : (s.table c).get key = some value := (Table.mem_entries _ _ _ _).mp member
    subst same
    split
    next stale =>
      rw [wp_delete]
      refine ⟨rfl, t.delete key, ?_, swept.delete found stale, ?_⟩
      · rw [State.setTable_setTable, State.table_setTable]
      · intro entry done stale
        rw [Table.get_delete]
        split
        · rfl
        next other =>
          rcases List.mem_append.mp done with earlier | last
          · exact cleared entry earlier stale
          · rw [List.mem_singleton.mp last] at other
            exact absurd rfl other
    next fresh =>
      refine ⟨rfl, t, rfl, swept, ?_⟩
      intro entry done stale
      rcases List.mem_append.mp done with earlier | last
      · exact cleared entry earlier stale
      · rw [List.mem_singleton.mp last] at stale
        exact absurd stale fresh
  · rintro ⟨s₁, calls₁⟩ ⟨t, same, swept, cleared⟩
    refine ⟨rfl, t, same, swept.filter fun key value kept => ?_⟩
    by_contra stale
    have stale : expired value = true := by simpa using stale
    have member : (key, value) ∈ (s.table c).entries keyBefore :=
      (Table.mem_entries _ _ _ _).mpr (swept.shrinks.get_eq kept)
    have gone := cleared (key, value) (by simpa using member) stale
    rw [gone] at kept
    cases kept

/-- A sweep of buckets deletes only buckets that were out of the window at some reading
during the sweep. -/
theorem sweepBuckets_spec [IsPreorder Nat R] {c : Coll} {lastAttempt : c.Val → Nat}
    {config : RateLimitConfig} :
    Prog.wp (traced signing R) (sweepBuckets c lastAttempt config)
      (fun r p => r = some () ∧ ∃ (t : Table c.Val) (clock : Nat),
        p.1 = { s.setTable c t with clock } ∧ R s.clock clock ∧
        Swept (fun value => ∃ time, R time clock ∧
          lastAttempt value < saturatingSub time config.windowSeconds) (s.table c) t)
      (s, calls) := by
  unfold sweepBuckets
  rw [wp_entries]
  refine Prog.wp_forEach (I := fun _ p => ∃ (t : Table c.Val) (clock : Nat),
    p.1 = { s.setTable c t with clock } ∧ R s.clock clock ∧
      Swept (fun value => ∃ time, R time clock ∧
        lastAttempt value < saturatingSub time config.windowSeconds) (s.table c) t) _ [] _ ?_ ?_ ?_
  · refine ⟨s.table c, s.clock, ?_, refl_of R _, .refl _⟩
    rw [State.setTable_table]
  · rintro done ⟨key, value⟩ ⟨s₁, calls₁⟩ member ⟨t, clock, same, later, swept⟩
    have found : (s.table c).get key = some value := (Table.mem_entries _ _ _ _).mp member
    subst same
    rw [wp_now]
    intro time next
    have sweptNow : Swept (fun value => ∃ time', R time' time ∧
        lastAttempt value < saturatingSub time' config.windowSeconds) (s.table c) t :=
      swept.mono fun value ⟨time', before, old⟩ => ⟨time', trans_of R before next, old⟩
    split
    next old =>
      rw [wp_delete]
      refine ⟨rfl, t.delete key, time, ?_, trans_of R later next,
        sweptNow.delete found ⟨time, refl_of R _, old⟩⟩
      cases c <;> rfl
    next recent => exact ⟨rfl, t, time, rfl, trans_of R later next, sweptNow⟩
  · rintro ⟨s₁, calls₁⟩ ⟨t, clock, same, later, swept⟩
    exact ⟨rfl, t, clock, same, later, swept⟩

end Sweeps

/-! ## Cleanup -/

/-- A cleanup whose first two readings are given. -/
structure Cleaned (R : Nat → Nat → Prop) (s s' : State) (time15m timeMonth : Nat) : Prop where
  first : R s.clock time15m
  second : R time15m timeMonth
  later : R timeMonth s'.clock
  index : s'.sessionsByEmailHash = s.sessionsByEmailHash
  recoveries : ∀ key, s'.recoveries.get key =
    (s.recoveries.get key).filter fun r => !decide (r.createdAt < cutoff15m time15m)
  logins : ∀ key, s'.logins.get key =
    (s.logins.get key).filter fun l => !decide (l.createdAt < cutoff15m time15m)
  sessions : ∀ key, s'.sessions.get key = (s.sessions.get key).filter fun session =>
    !decide (session.lastActivity < saturatingSub timeMonth monthSecs)
  emailBuckets : Swept (fun bucket => ∃ time, R time s'.clock ∧
    bucket.lastAttempt < saturatingSub time emailRateLimits.windowSeconds)
    s.rateLimitByEmailHash s'.rateLimitByEmailHash
  clientBuckets : Swept (fun bucket => ∃ time, R time s'.clock ∧
    bucket.lastAttempt < saturatingSub time clientRateLimits.windowSeconds)
    s.rateLimitByClient s'.rateLimitByClient

section Cleanup

variable {signing : SigningFn} {R : Nat → Nat → Prop} [IsPreorder Nat R] {s : State}
variable {calls : List SignerCall}

theorem cleanup_spec :
    Prog.wp (traced signing R) cleanup
      (fun r p => r = some () ∧ ∃ time15m timeMonth, Cleaned R s p.1 time15m timeMonth ∧
        ⟨.now, timeMonth⟩ :: ⟨.now, time15m⟩ :: calls <:+ p.2) (s, calls) := by
  unfold cleanup
  rw [wp_now]
  intro time15m first
  rw [wp_now]
  intro timeMonth second
  refine Prog.wp_mono ?_ _ _ (Prog.wp_and (P := fun r p => r = some () ∧
    Cleaned R s p.1 time15m timeMonth) ?_ (Prog.wp_suffix (fun _ _ => trivial) _ _))
  · rintro r p ⟨⟨returned, cleaned⟩, longer⟩
    exact ⟨returned, time15m, timeMonth, cleaned, longer⟩
  dsimp only
  refine Prog.wp_unit sweep_spec ?_
  rintro ⟨s₁, calls₁⟩ ⟨recoveries, rfl, sweptRecoveries⟩
  refine Prog.wp_unit sweep_spec ?_
  rintro ⟨s₂, calls₂⟩ ⟨logins, rfl, sweptLogins⟩
  refine Prog.wp_unit sweep_spec ?_
  rintro ⟨s₃, calls₃⟩ ⟨challenges, rfl, sweptChallenges⟩
  refine Prog.wp_unit sweepBuckets_spec ?_
  rintro ⟨s₄, calls₄⟩ ⟨emailBuckets, emailClock, rfl, laterEmail, sweptEmail⟩
  refine Prog.wp_unit sweepBuckets_spec ?_
  rintro ⟨s₅, calls₅⟩ ⟨clientBuckets, clientClock, rfl, laterClient, sweptClient⟩
  refine Prog.wp_unit sweep_spec ?_
  rintro ⟨s₆, calls₆⟩ ⟨sessions, rfl, sweptSessions⟩
  rw [wp_now]
  intro commitTime laterCommit
  rw [reapCommits, Prog.op_eq, wp_reapCommits]
  refine ⟨rfl, first, second, ?_, rfl, sweptRecoveries, sweptLogins, sweptSessions, ?_, ?_⟩
  · exact trans_of R laterEmail (trans_of R laterClient laterCommit)
  · exact sweptEmail.mono fun bucket ⟨time, before, old⟩ =>
      ⟨time, trans_of R before (trans_of R laterClient laterCommit), old⟩
  · exact sweptClient.mono fun bucket ⟨time, before, old⟩ =>
      ⟨time, trans_of R before laterCommit, old⟩

end Cleanup

end Pomade.Signer
