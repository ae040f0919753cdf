import Pomade.Frost.Sharing
import Pomade.Signer.Index
import Pomade.Signer.Limiter

/-! # Keys that are compared as texts

A hexadecimal key may come in either letter case, and two guards compare its text: the one
against the generator in `handle_ecdh`, and the one that decides who owns a session.  Both
are settled by the spelling in lower case.
-/

namespace Pomade.Signer

open Pomade.Lib Pomade.Frost Coll

/-! ## The generator -/

section Generator

variable {Pt : Type} [AddCommGroup Pt] [Module Scalar Pt] [Curve Pt]

theorem generatorX_bytes : hexDecode generatorX = some (Bytes.ofNat 32 generatorAbscissa).data := by
  decide +kernel

/-- A text names the x-coordinate of the generator exactly when it spells it in some case. -/
theorem decode32_generator {text : Str} {x : Bytes 32} (decoded : decode32 text = some x) :
    x = Bytes.ofNat 32 generatorAbscissa ↔ lowerCase text = generatorX := by
  obtain ⟨bytes, read, sized⟩ := Option.bind_eq_some_iff.mp decoded
  have same : bytes = x.data := Bytes.ofList_eq_some.mp sized
  have written : hexEncode x.data = lowerCase text := by
    rw [← same]
    exact hexEncode_lowerCase read
  have spelled : lowerCase generatorX = generatorX := by decide +kernel
  have generator : hexEncode (Bytes.ofNat 32 generatorAbscissa).data = generatorX := by
    rw [hexEncode_lowerCase generatorX_bytes, spelled]
  rw [← written, ← generator]
  constructor
  · rintro rfl
    rfl
  · exact fun equal => Bytes.ext (hexEncode_injective equal)

/-- The point that the signer multiplies, for a key of 32 bytes. -/
theorem liftX_point {x : Bytes 32} {P : Pt} (lifted : liftX x.data = .ok P) :
    P ≠ 0 ∧ Curve.affineX P = x := by
  have encoded : deserializePoint (Bytes.cons 0x02 x) = (.ok P : Result Pt) := by
    rw [← lifted, liftX, Bytes.ofList_data]
  have point : Curve.decompress x false = some P := by
    simp only [deserializePoint, Bytes.data_cons, List.head?_cons, Bytes.tail_cons] at encoded
    cases found : (Curve.decompress x false : Option Pt) with
    | none => simp [found] at encoded
    | some Q =>
      simp only [found, Except.ok.injEq] at encoded
      rw [encoded]
  obtain ⟨nonzero, abscissa, _⟩ := (Curve.decompress_eq_some x false P).mp point
  exact ⟨nonzero, abscissa⟩

/-- What an ECDH package is made of. -/
theorem createEcdhPkg_ok {request : EcdhRequest} {share : Share} {result : EcdhResult}
    (made : createEcdhPkg Pt request share = .ok result) :
    ∃ x P, decode32 request.ecdhPk = some x ∧ liftX x.data = (.ok P : Result Pt) := by
  unfold createEcdhPkg at made
  dsimp only at made
  split at made
  · cases made
  obtain ⟨seckey, _, made⟩ := bind_ok made
  obtain ⟨x, decoded, made⟩ := bind_ok made
  obtain ⟨ecdhShare, shared, _⟩ := bind_ok made
  unfold createEcdhShare at shared
  obtain ⟨P, lifted, _⟩ := bind_ok shared
  refine ⟨x, P, ?_, lifted⟩
  cases found : decode32 request.ecdhPk with
  | none => simp [found, orInvalidPoint] at decoded
  | some x' =>
    simp only [found, orInvalidPoint, Except.ok.injEq] at decoded
    rw [decoded]

variable {signing : SigningFn} {R : Nat → Nat → Prop} [IsPreorder Nat R] {s : State}
variable {calls : List SignerCall} {auth : NostrAuth} {data : EcdhRequest}

/-- A request that is accepted has lifted its key to a point. -/
theorem handleEcdh_accepts :
    Prog.wp (traced signing R) (handleEcdh Pt auth data)
      (fun r _ => ∀ response, r = some response → response.ok = true →
        ∃ x P, decode32 data.ecdhPk = some x ∧ liftX x.data = (.ok P : Result Pt)) (s, calls) := by
  have refused : ∀ (message : String) response, some (refuse message) = some response →
      response.ok = true →
      ∃ x P, decode32 data.ecdhPk = some x ∧ liftX x.data = (.ok P : Result Pt) := by
    rintro message _ ⟨⟩ impossible
    cases impossible
  unfold handleEcdh
  dsimp only
  rw [wp_get]
  cases (s.table sessions).get auth.pubkey with
  | none => exact refused _
  | some session =>
    dsimp only
    split
    · exact refused _
    refine Prog.wp_then checkAndRecordRateLimit_spec ?_
    rintro admitted ⟨s₁, calls₁⟩ _
    split
    · exact refused _
    split
    · exact refused _
    refine wp_ofResult ?_ ?_ nofun
    · intro result made
      dsimp only
      rw [wp_now]
      intro t _
      rw [wp_set]
      exact fun _ _ _ => createEcdhPkg_ok made
    · intro e _
      exact refused _

variable [Sha2] [Argon2] {options : SignerOptions}

/-- The point of an accepted request is neither the generator nor its negative exactly when
the text of the key does not spell the generator's x-coordinate in any letter case. -/
theorem ecdh_generator_iff
    (named : Curve.affineX (Curve.generator : Pt) = Bytes.ofNat 32 generatorAbscissa) {e : RustEvent}
    (happens : e.Happens (rustWorld Pt R) (handle Pt options))
    (job : e.job = .request (some auth) (.body (.ecdh data))) {response : Response}
    (result : e.result = some response) (accepted : response.ok = true) :
    ∃ x P, decode32 data.ecdhPk = some x ∧ liftX x.data = (.ok P : Result Pt) ∧
      ((P ≠ Curve.generator ∧ P ≠ -Curve.generator) ↔ lowerCase data.ecdhPk ≠ generatorX) := by
  have lifts : ∃ x P, decode32 data.ecdhPk = some x ∧ liftX x.data = (.ok P : Result Pt) := by
    refine happens.of_wp (Q := fun r _ => ∀ response, r = some response → response.ok = true →
      ∃ x P, decode32 data.ecdhPk = some x ∧ liftX x.data = (.ok P : Result Pt)) ?_ response result
      accepted
    rw [job]
    unfold handle
    dsimp only
    split
    · exact handleEcdh_accepts
    · rintro _ ⟨⟩ impossible
      cases impossible
  obtain ⟨x, P, decoded, lifted⟩ := lifts
  obtain ⟨_, abscissa⟩ := liftX_point lifted
  refine ⟨x, P, decoded, lifted, ?_⟩
  simp only [ne_eq]
  rw [← not_or, ← Curve.affineX_eq_iff, named, abscissa, decode32_generator decoded]

/-! ### A request that spells the generator in upper case -/

omit [Sha2] [Argon2] in
/-- A member that lists itself alone multiplies the point by its share. -/
theorem createEcdhPkg_alone {share : Share} {seckey x : Bytes 32} {P : Pt}
    (guard : (data.ecdhPk == generatorX) = false) (alone : data.members = [share.idx])
    (secret : decode32 share.seckey = some seckey) (key : decode32 data.ecdhPk = some x)
    (lifted : liftX x.data = (.ok P : Result Pt)) (finite : scalarFromBytes seckey • P ≠ 0) :
    ∃ result, createEcdhPkg Pt data share = .ok result := by
  have coefficient : calcLagrangeCoeff [] (indexToScalar share.idx) 0 = .ok 1 := by
    simp [calcLagrangeCoeff, isUniqueSet, scalarInvert]
  have others : ([share.idx].filter fun idx => decide (idx ≠ share.idx)) = [] := by simp
  have point : ¬Curve.isIdentity (scalarMulti P (1 * scalarFromBytes seckey)) = true := by
    rw [Curve.isIdentity_iff, scalarMulti, one_mul]
    exact finite
  unfold createEcdhPkg createEcdhShare
  simp only [guard, Bool.false_eq_true, if_false, secret, key, orInvalidPoint, ok_bind, alone,
    others, lifted, List.map_nil, coefficient, serializePoint, point]
  exact ⟨_, rfl⟩

omit [Sha2] [Argon2] in
/-- Without a bucket the limiter lets a client through. -/
theorem checkAndRecordRateLimit_fresh {client : Str}
    (fresh : s.rateLimitByClient.get client = none) :
    Prog.wp (traced signing R) (checkAndRecordRateLimit client)
      (fun r _ => ∃ admitted, r = some admitted ∧ admitted = true) (s, calls) := by
  unfold checkAndRecordRateLimit
  rw [wp_get]
  refine Prog.wp_then isRateLimited_read ?_
  rintro limited ⟨s₁, calls₁⟩ ⟨_, _, _, tested⟩
  simp only [State.table, fresh, Option.any_none] at tested
  subst tested
  simp only [Bool.false_eq_true, if_false]
  rw [wp_recordAttempt]
  intro time _
  rw [wp_set]
  exact ⟨true, rfl, rfl⟩

omit [Sha2] [Argon2] in
/-- A request is accepted when nothing stands in its way. -/
theorem handleEcdh_succeeds {session : SignerSession} {result : EcdhResult}
    (stored : s.sessions.get auth.pubkey = some session) (active : session.deactivatedAt = none)
    (fresh : s.rateLimitByClient.get auth.pubkey = none) (guard : (data.ecdhPk == generatorX) = false)
    (made : createEcdhPkg Pt data session.share = .ok result) :
    Prog.wp (traced signing R) (handleEcdh Pt auth data)
      (fun r _ => r = some (accept "Successfully derived shared secret" (.ecdh result)))
      (s, calls) := by
  unfold handleEcdh
  dsimp only
  rw [wp_get]
  simp only [State.table, stored, active, Option.isSome_none, Bool.false_eq_true, if_false]
  refine Prog.wp_then (checkAndRecordRateLimit_fresh fresh) ?_
  rintro admitted ⟨s₁, calls₁⟩ rfl
  simp only [Bool.not_true, Bool.false_eq_true, if_false, guard]
  rw [made, ofResult, Prog.pure_bind]
  dsimp only
  rw [wp_now]
  intro t _
  rw [wp_set]
  rfl

end Generator

section Sample

attribute [local instance] Sample.sha2 Sample.argon2

def upperCaseKey : Str := generatorX.map Char.toUpper

def ecdhRun : List (Job Auth × Nat) := [(Sample.register (Sample.clientKey 7) [1], 1000)]

/-- The ECDH request of the sample client. -/
def ecdhEvent : RustEvent :=
  Sample.next (Sample.job (Sample.clientKey 7)
    (.ecdh { idx := 1, members := [1], ecdhPk := upperCaseKey })) 1001 (Sample.play ecdhRun).2

theorem admits_anyClock {α : Type} (signing : SigningFn) (p : SignerProg α) (env : Nat → Env)
    (s : State) : Prog.Admits (exec signing) (permit anyClock) p env s := by
  induction p generalizing env s with
  | pure value => trivial
  | abort => trivial
  | call o next ih =>
    refine ⟨?_, ih _ _ _⟩
    cases o <;> trivial

theorem generator_named :
    Curve.affineX (Curve.generator : Scalar) = Bytes.ofNat 32 generatorAbscissa := by decide +kernel

theorem liftX_generator :
    liftX (Bytes.ofNat 32 generatorAbscissa).data = (.ok Curve.generator : Result Scalar) := by
  have point : Curve.decompress (Bytes.ofNat 32 generatorAbscissa) false =
      some (Curve.generator : Scalar) :=
    (Curve.decompress_eq_some _ _ _).mpr ⟨one_ne_zero, generator_named, by decide +kernel⟩
  rw [liftX, Bytes.ofList_data]
  simp [deserializePoint, point]

theorem ecdhPkg_upperCase :
    ∃ result, createEcdhPkg Scalar { idx := 1, members := [1], ecdhPk := upperCaseKey }
      Sample.share = .ok result := by
  have seckey : decode32 Sample.share.seckey = some (Bytes.ofNat 32 1) := by decide +kernel
  have key : decode32 upperCaseKey = some (Bytes.ofNat 32 generatorAbscissa) := by decide +kernel
  have one : scalarFromBytes (Bytes.ofNat 32 1) = 1 := by decide +kernel
  refine createEcdhPkg_alone (by decide +kernel) rfl seckey key liftX_generator ?_
  rw [one, one_smul]
  exact Curve.generator_ne_zero

theorem ecdhEvent_happens : ecdhEvent.Happens (rustWorld Scalar anyClock)
    (handle Scalar Sample.options) :=
  Event.happens_ofRun (admits_anyClock _ _ _ _)

theorem ecdhEvent_accepted :
    ∃ result, ecdhEvent.result =
      some (accept "Successfully derived shared secret" (.ecdh result)) := by
  obtain ⟨result, made⟩ := ecdhPkg_upperCase
  have stored : ((Sample.play ecdhRun).2.sessions.get (Sample.clientKey 7).pubkey).map
      (fun session => (session.share, session.deactivatedAt)) = some (Sample.share, none) := by
    decide +kernel
  obtain ⟨session, found, same⟩ := Option.map_eq_some_iff.mp stored
  obtain ⟨share, active⟩ := Prod.mk.inj same
  have fresh : (Sample.play ecdhRun).2.rateLimitByClient.get (Sample.clientKey 7).pubkey = none := by
    decide +kernel
  refine ⟨result, ?_⟩
  apply ecdhEvent_happens.of_wp (Q := fun r _ =>
    r = some (accept "Successfully derived shared secret" (.ecdh result)))
  change Prog.wp _ (handle Scalar Sample.options (Sample.job (Sample.clientKey 7)
    (.ecdh { idx := 1, members := [1], ecdhPk := upperCaseKey }))) _ ((Sample.play ecdhRun).2, [])
  unfold handle Sample.job
  dsimp only
  rw [if_pos (by decide +kernel)]
  exact handleEcdh_succeeds found active fresh (by decide +kernel) (by rw [share]; exact made)

theorem ecdh_generator_iff_upperCase :
    ∃ x P, decode32 upperCaseKey = some x ∧ liftX x.data = (.ok P : Result Scalar) ∧
      ((P ≠ Curve.generator ∧ P ≠ -Curve.generator) ↔ lowerCase upperCaseKey ≠ generatorX) := by
  obtain ⟨result, accepted⟩ := ecdhEvent_accepted
  exact ecdh_generator_iff generator_named ecdhEvent_happens rfl accepted rfl

/-- The generator in upper-case letters passes the guard. -/
theorem ecdh_answers_generator :
    ¬ ∀ events s, RustRuns Scalar Sample.options anyClock Opened (fun _ => True) events s →
      ∀ e : RustEvent, e.Happens (rustWorld Scalar anyClock) (handle Scalar Sample.options) →
        e.before = s → ∀ auth data, e.job = .request (some auth) (.body (.ecdh data)) →
        (∃ response, e.result = some response ∧ response.ok = true) →
        ∀ x P, decode32 data.ecdhPk = some x → liftX x.data = (.ok P : Result Scalar) →
          P ≠ Curve.generator ∧ P ≠ -Curve.generator := by
  intro never
  have run := Sample.play_runs (R := anyClock) ecdhRun (by decide +kernel)
  obtain ⟨result, accepted⟩ := ecdhEvent_accepted
  have key : decode32 upperCaseKey = some (Bytes.ofNat 32 generatorAbscissa) := by decide +kernel
  exact (never _ _ run ecdhEvent ecdhEvent_happens rfl _ _ rfl ⟨_, accepted, rfl⟩ _ _ key
    liftX_generator).1 rfl

end Sample

end Pomade.Signer
