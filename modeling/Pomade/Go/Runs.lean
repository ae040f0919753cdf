import Pomade.Go.Refinement
import Pomade.Signer.Sample

/-! # Runs of the Go signer

The invariant rule for the registry, and the small deployment of the Rust samples under
the Go signer.
-/

namespace Pomade.Go

open Pomade.Lib Pomade.Frost Pomade.Signer

abbrev GoEvent : Type := Event (Job AuthPayload) Op Ans Response State

section Runs

variable [FrostTaproot] [Sha2] [Argon2] (options : SignerOptions) (R : Nat → Nat → Prop)

/-- The runs of the signer, newest event first, whose events satisfy `ok`. -/
abbrev GoRuns (init : State → Prop) (ok : GoEvent → Prop) : List GoEvent → State → Prop :=
  Runs (goWorld R) (handle options) init ok

/-- The handler of the event finds this state: the cleanup that comes first has left it. -/
def Finds (e : GoEvent) (found : State) : Prop :=
  ∃ auth target calls, e.job = .request (some auth) target ∧
    Prog.Exec (goWorld R).traced cleanup (e.before, []) (some ()) (found, calls) ∧
    Prog.Exec (goWorld R).traced (route options auth target) (found, calls) e.result
      (e.after, e.calls)

variable {options R} [IsPreorder Nat R]

theorem registry_steps {e : GoEvent} (happens : e.Happens (goWorld R) (handle options)) :
    ∃ r, Step (goRules options) R (.cleanup : Job AuthPayload) e.before.registry r ∧
      Step (goRules options) R e.job r e.after.registry :=
  happens.of_wp (handle_refines e.job)

/-- An event is a cleanup, and then a step from what its handler finds, if it has one. -/
theorem finds_of_happens {e : GoEvent} (happens : e.Happens (goWorld R) (handle options)) :
    (∃ found, Finds options R e found ∧
      Step (goRules options) R (.cleanup : Job AuthPayload) e.before.registry found.registry ∧
      Step (goRules options) R e.job found.registry e.after.registry) ∨
    Step (goRules options) R (.cleanup : Job AuthPayload) e.before.registry e.after.registry := by
  have cleaned : ∀ {r : Option Unit} {p : State × List SignerCall},
      Prog.Exec (goWorld R).traced cleanup (e.before, []) r p →
        Step (goRules options) R (.cleanup : Job AuthPayload) e.before.registry p.1.registry :=
    fun exec => (exec.of_wp cleanup_spec).step
  obtain ⟨job, before, calls, result, after⟩ := e
  cases job with
  | cleanup =>
    obtain ⟨_, p, first, rest⟩ | stopped := Prog.Exec.of_bind happens
    · cases rest with
      | pure => exact .inr (cleaned first)
    · exact .inr (cleaned stopped)
  | request auth target =>
    cases auth with
    | none =>
      cases happens with
      | pure => exact .inr (Quiet.refl _).step
    | some auth =>
      obtain ⟨_, p, first, rest⟩ | stopped := Prog.Exec.of_bind happens
      · exact .inl ⟨p.1, ⟨auth, target, p.2, rfl, first, rest⟩, cleaned first,
          rest.of_wp (route_refines auth target)⟩
      · exact .inr (cleaned stopped)

/-- What cleanups and steps of the registry keep holds in every state of a run. -/
theorem GoRuns.registry {I : Registry → Prop} {ok : GoEvent → Prop}
    (start : ∀ clock, I (State.opened clock).registry)
    (step : ∀ (e : GoEvent) r, ok e →
      Step (goRules options) R (.cleanup : Job AuthPayload) e.before.registry r →
      Step (goRules options) R e.job r e.after.registry →
      I e.before.registry → I e.after.registry)
    {events : List GoEvent} {s : State} (run : GoRuns options R Opened ok events s) :
    I s.registry := by
  refine Runs.invariant (I := fun s => I s.registry) ?_ ?_ run
  · rintro s ⟨clock, rfl⟩
    exact start clock
  · intro e happens meets held
    obtain ⟨r, cleaned, stepped⟩ := registry_steps happens
    exact step e r meets cleaned stepped held

end Runs

/-! ## The small deployment -/

namespace Sample

open Pomade.Signer.Sample

/-- A library over the sample curve.  Nothing is signed in the sample runs. -/
@[reducible] def frost : FrostTaproot where
  Ctx := Unit
  getPubkey secret := (Frost.getPubkey Scalar secret).toOption.getD (Bytes.ofNat 33 0)
  generateNonce _ aux := aux
  tweakSeckey := Frost.tweakSeckey
  tweakPubkey pubkey tweak := Frost.tweakPubkey Scalar pubkey.data tweak
  getGroupSigningCtx _ _ _ _ := .ok ()
  signMsg _ _ _ := .error (.err .invalidPoint)
  createEcdhShare members share pubkey := Frost.createEcdhShare Scalar members share pubkey.data

def job (auth : NostrAuth) (body : Body AuthPayload) : Job AuthPayload :=
  .request (some auth) (.body body)

def register (auth : NostrAuth) (group : Group) : Job AuthPayload :=
  job auth (.register { share, group, recovery := true })

def setup (auth : NostrAuth) : Job AuthPayload :=
  job auth (.recoverySetup { email, passwordHash })

def loginStart (auth : NostrAuth) : Job AuthPayload :=
  job auth (.loginStart { auth := { emailHash, passwordHash, otp := [] } })

def loginSelect (auth client : NostrAuth) : Job AuthPayload :=
  job auth (.loginSelect { client := client.pubkey })

section

attribute [local instance] frost sha2 argon2

/-- The events (newest first) and the last state of carrying out jobs at given times. -/
def play (jobs : List (Job AuthPayload × Nat)) : List GoEvent × State :=
  replay (exec createPsigPkgWithNonce) (handle options)
    (jobs.map fun (job, time) => (job, steady time)) [] (State.opened 0)

theorem play_runs {R : Nat → Nat → Prop} {ok : GoEvent → Prop} (jobs : List (Job AuthPayload × Nat))
    (admitted : Replays (exec createPsigPkgWithNonce) (permit R) (handle options)
      ok (jobs.map fun (job, time) => (job, steady time)) (State.opened 0)) :
    GoRuns options R Opened ok (play jobs).1 (play jobs).2 :=
  Runs.replay _ (.start _ ⟨0, rfl⟩) admitted

/-- The jobs played are the jobs given. -/
theorem job_of_play {jobs : List (Job AuthPayload × Nat)} {e : GoEvent}
    (member : e ∈ (play jobs).1) : e.job ∈ jobs.map Prod.fst := by
  rcases mem_replay _ member with impossible | given
  · cases impossible
  · rwa [List.map_map] at given

end

end Sample

end Pomade.Go
