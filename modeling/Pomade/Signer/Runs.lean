import Pomade.Signer.Cleanup

/-! # Runs of the Rust signer

Every job is a step of the registry, so what every step keeps holds in every state a
run reaches.
-/

namespace Pomade.Signer

open Pomade.Lib Pomade.Frost

/-! ## Jobs -/

section Jobs

variable {Pt : Type} [AddCommGroup Pt] [Module Scalar Pt] [Curve Pt] [Sha2] [Argon2]
variable {options : SignerOptions} {R : Nat → Nat → Prop} [IsPreorder Nat R] {s : State}
variable {calls : List SignerCall}

omit [Sha2] [Argon2] in
theorem Cleaned.step {s' : State} {time15m timeMonth : Nat}
    (cleaned : Cleaned R s s' time15m timeMonth) :
    Step (rustRules Pt options) R (.cleanup : Job Auth) s.registry s'.registry := by
  refine .cleanup ?_ ?_ ⟨saturatingSub timeMonth monthSecs, cleaned.index, ?_⟩ ?_
  · exact Shrinks.of_filter cleaned.logins
  · exact Shrinks.of_filter cleaned.recoveries
  · intro key
    refine (cleaned.sessions key).trans ?_
    congr 1
    funext session
    simp only [← decide_not, not_lt]
  · exact trans_of R (trans_of R cleaned.first cleaned.second) cleaned.later

theorem dispatch_refines (auth : NostrAuth) (body : Body Auth) (valid : body.schemaValid = true) :
    Prog.wp (traced (createPsigPkgWithNonce Pt) R) (dispatch Pt options auth body)
      (Refines (rustRules Pt options) R (.request (some auth) (.body body)) s) (s, calls) := by
  cases body with
  | challenge data => exact Prog.wp_mono (fun _ _ quiet => quiet.step) _ _ handleChallenge_quiet
  | ecdh data => exact handleEcdh_refines
  | loginSelect data => exact handleLoginSelect_refines
  | loginStart data => exact handleLoginStart_refines
  | recoverySelect data => exact handleRecoverySelect_refines
  | recoverySetup data => exact handleRecoverySetup_refines
  | recoveryStart data => exact handleRecoveryStart_refines
  | register data => exact handleRegister_refines valid
  | sessionDeactivate data => exact handleSessionDeactivate_refines
  | sessionDelete data => exact handleSessionDelete_refines
  | sessionList => exact Prog.wp_mono (fun _ _ quiet => quiet.step) _ _ handleSessionList_quiet
  | signCommit data => exact Prog.wp_mono (fun _ _ quiet => quiet.step) _ _ handleSignCommit_quiet
  | signComplete data => exact handleSignComplete_refines

theorem handle_refines (job : Job Auth) :
    Prog.wp (traced (createPsigPkgWithNonce Pt) R) (handle Pt options job)
      (Refines (rustRules Pt options) R job s) (s, calls) := by
  unfold handle
  split
  · exact (Quiet.refl s).step
  · exact (Quiet.refl s).step
  · exact (Quiet.refl s).step
  · split
    next valid => exact dispatch_refines _ _ valid
    · exact (Quiet.refl s).step
  · refine Prog.wp_unit cleanup_spec ?_
    rintro ⟨s', calls'⟩ ⟨time15m, timeMonth, cleaned, _⟩
    exact cleaned.step

end Jobs

/-! ## Runs -/

/-- A clock that may do anything. -/
def anyClock (_ _ : Nat) : Prop := True

instance : IsPreorder Nat anyClock where
  refl _ := trivial
  trans _ _ _ _ _ := trivial

instance : DecidableRel anyClock := fun _ _ => .isTrue trivial

abbrev RustEvent : Type := Event (Job Auth) Op Ans Response State

/-- The store is empty. -/
def Opened (s : State) : Prop := ∃ clock, s = State.opened clock

section Runs

variable (Pt : Type) [AddCommGroup Pt] [Module Scalar Pt] [Curve Pt] [Sha2] [Argon2]
variable (options : SignerOptions) (R : Nat → Nat → Prop)

/-- The runs of the signer, newest event first, whose events satisfy `ok`. -/
abbrev RustRuns (init : State → Prop) (ok : RustEvent → Prop) : List RustEvent → State → Prop :=
  Runs (rustWorld Pt R) (handle Pt options) init ok

variable {Pt options R} [IsPreorder Nat R]

theorem registry_step {e : RustEvent}
    (happens : e.Happens (rustWorld Pt R) (handle Pt options)) :
    Step (rustRules Pt options) R e.job e.before.registry e.after.registry :=
  happens.of_wp (handle_refines e.job)

omit [IsPreorder Nat R] in
/-- What holds of a request with a body, where it is handled and where it is refused as invalid. -/
theorem of_body {e : RustEvent} (happens : e.Happens (rustWorld Pt R) (handle Pt options))
    {auth : NostrAuth} {body : Body Auth} (job : e.job = .request (some auth) (.body body))
    {Q : Option Response → State × List SignerCall → Prop}
    (handled : body.schemaValid = true →
      Prog.wp (traced (createPsigPkgWithNonce Pt) R) (dispatch Pt options auth body) Q (e.before, []))
    (refused : body.schemaValid ≠ true →
      Q (some (refuse "Failed to validate request data.")) (e.before, [])) :
    Q e.result (e.after, e.calls) := by
  refine happens.of_wp ?_
  rw [job]
  unfold handle
  dsimp only
  split
  · next valid => exact handled valid
  · next invalid => exact refused invalid

def clockReading : SignerCall → Option Nat
  | ⟨.now, time⟩ => some time
  | _ => none

/-- The times an event has read from the clock, oldest first. -/
def clockReadings (e : RustEvent) : List Nat := e.calls.reverse.filterMap clockReading

/-- What the event of a cleanup has done, told by its first two readings. -/
theorem cleanup_happens {e : RustEvent}
    (happens : e.Happens (rustWorld Pt R) (handle Pt options)) (job : e.job = .cleanup) :
    ∃ time15m timeMonth later, Cleaned R e.before e.after time15m timeMonth ∧
      clockReadings e = time15m :: timeMonth :: later := by
  have outcome : ∃ time15m timeMonth, Cleaned R e.before e.after time15m timeMonth ∧
      [⟨.now, timeMonth⟩, ⟨.now, time15m⟩] <:+ e.calls := by
    refine happens.of_wp (Q := fun _ p => ∃ time15m timeMonth,
      Cleaned R e.before p.1 time15m timeMonth ∧ [⟨.now, timeMonth⟩, ⟨.now, time15m⟩] <:+ p.2) ?_
    rw [job]
    exact Prog.wp_unit cleanup_spec fun _ cleaned => cleaned
  obtain ⟨time15m, timeMonth, cleaned, later, calls⟩ := outcome
  refine ⟨time15m, timeMonth, later.reverse.filterMap clockReading, cleaned, ?_⟩
  rw [clockReadings, ← calls, List.reverse_append]
  rfl

/-- The invariant rule for what every step of the registry keeps. -/
theorem RustRuns.registry {I : Registry → Prop} {ok : RustEvent → Prop}
    (start : ∀ clock, I (State.opened clock).registry)
    (step : ∀ e : RustEvent, ok e → Step (rustRules Pt options) R e.job e.before.registry e.after.registry →
      I e.before.registry → I e.after.registry)
    {events : List RustEvent} {s : State} (run : RustRuns Pt options R Opened ok events s) :
    I s.registry := by
  refine Runs.invariant (I := fun s => I s.registry) ?_ ?_ run
  · rintro s ⟨clock, rfl⟩
    exact start clock
  · intro e happens meets held
    exact step e meets (registry_step happens) held

theorem rust_sound {ok : RustEvent → Prop} {events : List RustEvent} {s : State}
    (run : RustRuns Pt options R Opened ok events s) : s.registry.Sound := by
  refine RustRuns.registry (I := Registry.Sound) ?_ ?_ run
  · exact fun clock _ _ stored => nomatch stored
  · exact fun e _ step sound => step.sound sound

end Runs

end Pomade.Signer
