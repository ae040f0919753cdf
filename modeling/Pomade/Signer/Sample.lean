import Pomade.Frost.ScalarCurve
import Pomade.Signer.Runs

/-! # A small deployment

One group of one member with secret key 1, so that its commit names the generator.
The runs that show what can happen start from here.
-/

namespace Pomade.Signer.Sample

open Pomade.Lib Pomade.Frost

/-- Hashes that are read by none of the checks the sample runs depend on. -/
@[reducible] def sha2 : Sha2 where
  sha256 _ := Bytes.ofNat 32 0
  expandMessage _ _ := Bytes.ofNat 48 1

/-- A hash that spells out the password. -/
@[reducible] def argon2 : Argon2 where
  Params := Unit
  params memory time lanes := if argon2Params memory time lanes then some () else none
  hashPasswordInto _ password salt :=
    if argon2Inputs password salt then some (Bytes.ofNat 32 (bytesToNat password)) else none
  idKey password _ _ _ _ := Bytes.ofNat 32 (bytesToNat password)
  params_isSome memory time lanes := by cases taken : argon2Params memory time lanes <;> rfl
  hashPasswordInto_isSome _ password salt := by cases taken : argon2Inputs password salt <;> rfl

def options : SignerOptions where
  url := "https://signer.example".toList
  registerPow := 0
  argonM := 1024
  mailer := false
  testMode := true

/-- The user key whose x-coordinate is that of the generator. -/
def userKey : NostrAuth where
  key := Bytes.ofNat 32 generatorAbscissa
  eventId := Bytes.ofNat 32 0

def clientKey (n : Nat) : NostrAuth where
  key := Bytes.ofNat 32 n
  eventId := Bytes.ofNat 32 0

def generatorPoint : Str := "02".toList ++ generatorX

def commit (idx : UInt32) : Commit where
  idx := idx
  pubkey := generatorPoint
  hiddenPn := generatorPoint
  binderPn := generatorPoint

def group (idxs : List UInt32) : Group where
  commits := idxs.map commit
  groupPk := generatorPoint
  threshold := 1

def share : Share where
  idx := 1
  seckey := hexEncode (Bytes.ofNat 32 1).data

def email : Str := "a@b".toList

def passwordHash : Str := List.replicate 64 '0'

def otherHash : Str := List.replicate 64 '1'

def job (auth : NostrAuth) (body : Body Auth) : Job Auth := .request (some auth) (.body body)

def register (auth : NostrAuth) (idxs : List UInt32) : Job Auth :=
  job auth (.register { share, group := group idxs, recovery := true })

def setup (auth : NostrAuth) (passwordHash : Str) : Job Auth :=
  job auth (.recoverySetup { email, passwordHash })

def deactivate (client : NostrAuth) : Job Auth :=
  job userKey (.sessionDeactivate { client := client.pubkey })

def emailHash : Str := hexEncode (Bytes.ofNat 32 (bytesToNat (textBytes email))).data

def loginStart (auth : NostrAuth) : Job Auth :=
  job auth (.loginStart { auth := .password emailHash passwordHash })

def loginSelect (auth client : NostrAuth) : Job Auth :=
  job auth (.loginSelect { client := client.pubkey })

def challenge (otpPrefix : Str) : Job Auth :=
  job (clientKey 1) (.challenge { otpPrefix, emailHash })

def wrongPassword (auth : NostrAuth) : Job Auth :=
  job auth (.loginStart { auth := .password emailHash otherHash })

def signCommit (auth : NostrAuth) : Job Auth := job auth (.signCommit { members := [1] })

/-- Every reading of the clock during a job gives the same time. -/
def steady (time : Nat) : Nat → Env := fun _ => { (default : Env) with now := time }

section

attribute [local instance] sha2 argon2

/-- The events (newest first) and the last state of carrying out jobs at given times. -/
def play (jobs : List (Job Auth × Nat)) : List RustEvent × State :=
  replay (exec (createPsigPkgWithNonce Scalar)) (handle Scalar options)
    (jobs.map fun (job, time) => (job, steady time)) [] (State.opened 0)

theorem play_runs {R : Nat → Nat → Prop} (jobs : List (Job Auth × Nat))
    (admitted : Replays (exec (createPsigPkgWithNonce Scalar)) (permit R) (handle Scalar options)
      (fun _ => True) (jobs.map fun (job, time) => (job, steady time)) (State.opened 0)) :
    RustRuns Scalar options R Opened (fun _ => True) (play jobs).1 (play jobs).2 :=
  Runs.replay _ (.start _ ⟨0, rfl⟩) admitted

/-- The jobs played are the jobs given. -/
theorem job_of_play {jobs : List (Job Auth × Nat)} {e : RustEvent} (member : e ∈ (play jobs).1) :
    e.job ∈ jobs.map Prod.fst := by
  rcases mem_replay _ member with impossible | given
  · cases impossible
  · rwa [List.map_map] at given

/-- Carrying out one more job. -/
def next (job : Job Auth) (time : Nat) (s : State) : RustEvent :=
  Event.ofRun (exec (createPsigPkgWithNonce Scalar)) (handle Scalar options) job (steady time) s

end

end Pomade.Signer.Sample
