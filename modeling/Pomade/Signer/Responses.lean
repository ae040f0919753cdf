import Pomade.Signer.Panics

/-! # Which requests get a response

Every route is executed once more, with an eye to where it stops.  A request that stops is told by
its body, the state it finds, and what it reads and draws.
-/

namespace Pomade.Signer

open Pomade.Lib Pomade.Frost Coll

/-! ## What stops a request -/

/-- A test holds at the first reading of the clock. -/
def AtFirst (test : Nat → Bool) (calls : List SignerCall) : Prop :=
  ∃ time ∈ firstReading calls, test time = true

def drawing : SignerCall → Option (Bytes 32)
  | ⟨.randomBytes32, bytes⟩ => some bytes
  | _ => none

/-- The random bytes that a request has drawn, oldest first. -/
def drawings (calls : List SignerCall) : List (Bytes 32) := calls.reverse.filterMap drawing

/-- The request has a session that is active, and is let through by the limiter. -/
structure Served (s : State) (client : Str) (calls : List SignerCall) (session : SignerSession) :
    Prop where
  stored : s.sessions.get client = some session
  active : session.deactivatedAt = none
  free : ¬ AtFirst (s.limits client) calls

/-- A registration of a share with the key zero. -/
structure RegisterStops (options : SignerOptions) (auth : NostrAuth) (data : RegisterRequest)
    (s : State) : Prop where
  unused : s.registry.Unused auth.pubkey
  worked : options.registerPow ≤ getPow auth.eventId
  positive : data.group.threshold.toNat ≠ 0
  enough : data.group.threshold.toNat ≤ data.group.commits.length
  zero : ZeroKey data.share.seckey

/-- A debug line cuts the email hash of a challenge that has no recipient. -/
structure ChallengeStops (debug : Bool) (data : ChallengeRequest) (s : State)
    (calls : List SignerCall) : Prop where
  written : debug = true
  short : sliceable data.emailHash 8 = false
  unknown : s.recipient data.emailHash = none
  free : ¬ AtFirst (s.emailLimits data.emailHash) calls

/-- A debug line cuts the email hash of a login or recovery that is limited. -/
structure StartStops (debug : Bool) (auth : NostrAuth) (data : StartRequest Auth) (s : State)
    (calls : List SignerCall) : Prop where
  written : debug = true
  short : sliceable data.auth.emailHash 8 = false
  unused : s.registry.Unused auth.pubkey
  limited : AtFirst (s.emailLimits data.auth.emailHash) calls

/-- A recovery setup passes the checks of its handler, and its email cannot be hashed. -/
structure SetupStops (options : SignerOptions) (data : RecoverySetupRequest)
    (session : SignerSession) (calls : List SignerCall) : Prop where
  recovery : session.recovery = true
  recent : AtFirst (fun time => decide (cutoff15m time ≤ session.createdAt)) calls
  unset : session.email = none
  hash : regexIsHex64 data.passwordHash = true
  refused : ¬ Hashable data.email options.url options.argonM

section Conditions

variable (Pt : Type) [AddCommGroup Pt] [Module Scalar Pt] [Curve Pt] [Sha2]

/-- One of the drawn seeds gives the nonce zero. -/
def CommitStops (data : SignCommitRequest) (session : SignerSession) (calls : List SignerCall) :
    Prop :=
  session.share.idx ∈ data.members ∧ ∃ seckey, decode32 session.share.seckey = some seckey ∧
    ∃ binderSeed hiddenSeed, [binderSeed, hiddenSeed] <+: drawings calls ∧
      (scalarFromBytes (generateNonce seckey binderSeed) = 0 ∨
        scalarFromBytes (generateNonce seckey hiddenSeed) = 0)

/-- What `handle_sign_complete` signs. -/
def completeInput (data : SignCompleteRequest) (session : SignerSession) (entry : CommitEntry) :
    SigningInput :=
  { group := session.group, request := data.request, share := session.share,
    secret := entry.secret, pnonces := data.pnonces }

/-- The public nonces make a point of the signing context the identity. -/
structure CompleteStops (data : SignCompleteRequest) (s : State) (client : Str)
    (session : SignerSession) (entry : CommitEntry) : Prop where
  pending : (s.takeCommit swapRemove client data.commitId).1 = some entry
  members : data.request.members = entry.members
  nonces : pnoncesValid session.group data.request.members data.pnonces = true
  cancels : Panics (ownMatches Pt entry.secret data.pnonces) ∨
    ownMatches Pt entry.secret data.pnonces = .ok true ∧
      verifySessionPkg session.group data.request = true ∧
      CancelsSigning Pt (completeInput data session entry)

/-- A member of the ECDH request has the index zero. -/
def EcdhStops (data : EcdhRequest) (session : SignerSession) : Prop :=
  data.ecdhPk ≠ generatorX ∧ ∃ ecdhPk, decode32 data.ecdhPk = some ecdhPk ∧
    CancelsEcdh Pt data.members session.share.idx ecdhPk.data

variable (options : SignerOptions) (debug : Bool)

def BodyStops (auth : NostrAuth) (s : State) (calls : List SignerCall) : Body Auth → Prop
  | .challenge data => ChallengeStops debug data s calls
  | .ecdh data => ∃ session, Served s auth.pubkey calls session ∧ EcdhStops Pt data session
  | .loginStart data => StartStops debug auth data s calls
  | .recoverySetup data => ∃ session, s.sessions.get auth.pubkey = some session ∧
      SetupStops options data session calls
  | .recoveryStart data => StartStops debug auth data s calls
  | .register data => RegisterStops options auth data s
  | .signCommit data => ∃ session, Served s auth.pubkey calls session ∧ CommitStops data session calls
  | .signComplete data => ∃ session, Served s auth.pubkey calls session ∧
      ∃ entry, CompleteStops Pt data s auth.pubkey session entry
  | _ => False

/-- What stops a job: a valid body, the state the request finds, and what it reads and draws. -/
def JobStops (s : State) (calls : List SignerCall) : Job Auth → Prop
  | .request (some auth) (.body body) =>
    body.schemaValid = true ∧ BodyStops Pt options debug auth s calls body
  | _ => False

end Conditions

/-! ## Helpers -/

section Helpers

variable {signing : SigningFn} {R : Nat → Nat → Prop} [IsPreorder Nat R] {s : State}
variable {calls : List SignerCall} {α : Type} {Q : Option α → State × List SignerCall → Prop}

omit [IsPreorder Nat R] in
/-- A computed result, with the panic as a case of its own. -/
theorem wp_computed {β : Type} {result : Result β} {f : Except Error β → SignerProg α}
    (stopped : Panics result → Q none (s, calls))
    (failed : ∀ e, result = .error (.err e) →
      Prog.wp (traced signing R) (f (.error e)) Q (s, calls))
    (returned : ∀ value, result = .ok value →
      Prog.wp (traced signing R) (f (.ok value)) Q (s, calls)) :
    Prog.wp (traced signing R) (ofResult result >>= f) Q (s, calls) := by
  match result with
  | .ok value => exact returned value rfl
  | .error (.err e) => exact failed e rfl
  | .error (.panic reason) => exact stopped ⟨reason, rfl⟩

omit [IsPreorder Nat R] in
/-- A program without a panic, where nothing it may still do is a reason to stop. -/
theorem returning_stops {program : SignerProg α} (returns : program.Returns)
    {Stops : List SignerCall → Prop} (calm : ∀ later, calls <:+ later → ¬ Stops later) :
    Prog.wp (traced signing R) program (fun r p => r = none ↔ Stops p.2) (s, calls) := by
  have done := Prog.wp_and (W := traced signing R) (returns.wp (fun _ _ => trivial) (s, calls))
    (Prog.wp_suffix (fun _ _ => trivial) program (s, calls))
  refine Prog.wp_mono ?_ _ _ done
  rintro r p ⟨returned, suffix⟩
  exact iff_of_false returned (calm p.2 suffix)

theorem firstReading_of_silent {time : Nat} {later : List SignerCall}
    (silent : calls.filterMap clockReading = []) (suffix : ⟨.now, time⟩ :: calls <:+ later) :
    firstReading later = some time := by
  obtain ⟨newer, rfl⟩ := suffix
  have earlier : calls.reverse.filterMap clockReading = [] := by
    rw [List.filterMap_reverse, silent]
    rfl
  rw [firstReading, List.reverse_append, List.reverse_cons, List.filterMap_append,
    List.filterMap_append, earlier]
  rfl

/-- Nothing is read from the clock before the check, so its answer is the one of the first
reading. -/
theorem isRateLimited_first {bucket : Option RateLimitBucket} {config : RateLimitConfig}
    (silent : calls.filterMap clockReading = []) :
    Prog.wp (traced signing R) (isRateLimited bucket config)
      (fun r p => ∃ limited, r = some limited ∧
        (∃ time, p = ({ s with clock := time }, bucket.elim calls fun _ => ⟨.now, time⟩ :: calls)) ∧
        ∀ later, p.2 <:+ later → (limited = true ↔
          AtFirst (fun time => bucket.any fun b => b.isLimited config time) later)) (s, calls) := by
  refine Prog.wp_mono ?_ _ _ isRateLimited_read
  rintro r p ⟨limited, returned, time, _, same, tested⟩
  refine ⟨limited, returned, ⟨time, same⟩, fun later suffix => ?_⟩
  rw [same] at suffix
  cases bucket with
  | none => simp [AtFirst, tested]
  | some b =>
    have first := firstReading_of_silent silent suffix
    simp [AtFirst, first, tested]

omit [IsPreorder Nat R] in
theorem checkKeyReuse_decides {client : Str} (silent : calls.filterMap clockReading = []) :
    Prog.wp (traced signing R) (checkKeyReuse client)
      (fun r p => ∃ reused, r = some reused ∧ p.1 = s ∧ p.2.filterMap clockReading = [] ∧
        (reused = false ↔ s.registry.Unused client)) (s, calls) := by
  unfold checkKeyReuse
  rw [wp_get]
  -- Three reads and no clock: whatever reads the clock next reads the first time of the request.
  have quiet : (⟨.get sessions client, s.sessions.get client⟩ ::
      calls : List SignerCall).filterMap clockReading = [] :=
    (List.filterMap_cons_none rfl).trans silent
  split
  next session =>
    refine ⟨true, rfl, rfl, quiet, ?_⟩
    refine iff_of_false nofun fun unused => ?_
    rw [State.table, show s.sessions.get client = none from unused.session] at session
    cases session
  next session =>
    rw [wp_get]
    replace quiet : (⟨.get recoveries client, s.recoveries.get client⟩ ::
        ⟨.get sessions client, s.sessions.get client⟩ ::
        calls : List SignerCall).filterMap clockReading = [] :=
      (List.filterMap_cons_none rfl).trans quiet
    split
    next recovery =>
      refine ⟨true, rfl, rfl, quiet, ?_⟩
      refine iff_of_false nofun fun unused => ?_
      rw [State.table, show s.recoveries.get client = none from unused.recovery] at recovery
      cases recovery
    next recovery =>
      rw [wp_get]
      replace quiet := (List.filterMap_cons_none
        (a := (⟨.get logins client, s.logins.get client⟩ : SignerCall)) rfl).trans quiet
      split
      next login =>
        refine ⟨true, rfl, rfl, quiet, ?_⟩
        refine iff_of_false nofun fun unused => ?_
        rw [State.table, show s.logins.get client = none from unused.login] at login
        cases login
      next login =>
        refine ⟨false, rfl, rfl, quiet, iff_of_true rfl ?_⟩
        exact ⟨Option.not_isSome_iff_eq_none.mp session, Option.not_isSome_iff_eq_none.mp recovery,
          Option.not_isSome_iff_eq_none.mp login⟩

/-- The limiter in front of the rest of a request, which does not see the buckets. -/
theorem limited_stops {client : Str} {rest : SignerProg Response} {message : String}
    (Stops : List SignerCall → Prop) (silent : calls.filterMap clockReading = [])
    (undrawn : calls.filterMap drawing = [])
    (body : ∀ s₁ calls₁, s₁.commitsByClient = s.commitsByClient → calls₁.filterMap drawing = [] →
      Prog.wp (traced signing R) rest (fun r p => r = none ↔ Stops p.2) (s₁, calls₁)) :
    Prog.wp (traced signing R) (checkAndRecordRateLimit client >>= fun admitted =>
        if !admitted then pure (refuse message) else rest)
      (fun r p => r = none ↔ ¬ AtFirst (s.limits client) p.2 ∧ Stops p.2) (s, calls) := by
  -- The limiter is decided by the first time that is read, whatever else the request reads later.
  have checked : Prog.wp (traced signing R) (checkAndRecordRateLimit client)
      (fun r p => ∃ admitted, r = some admitted ∧ p.1.commitsByClient = s.commitsByClient ∧
        p.2.filterMap drawing = [] ∧
        ∀ later, p.2 <:+ later → (admitted = false ↔ AtFirst (s.limits client) later)) (s, calls) := by
    unfold checkAndRecordRateLimit
    rw [wp_get]
    have silent₁ : (⟨.get rateLimitByClient client, s.rateLimitByClient.get client⟩ ::
        calls : List SignerCall).filterMap clockReading = [] :=
      (List.filterMap_cons_none rfl).trans silent
    refine Prog.wp_then (isRateLimited_first silent₁) ?_
    rintro limited p ⟨⟨time, rfl⟩, tested⟩
    have quiet : ((s.rateLimitByClient.get client).elim
        (⟨.get rateLimitByClient client, s.rateLimitByClient.get client⟩ :: calls)
        fun _ => ⟨.now, time⟩ :: ⟨.get rateLimitByClient client,
          s.rateLimitByClient.get client⟩ :: calls : List SignerCall).filterMap drawing = [] := by
      cases s.rateLimitByClient.get client with
      | none => exact (List.filterMap_cons_none rfl).trans undrawn
      | some bucket =>
        exact (List.filterMap_cons_none rfl).trans ((List.filterMap_cons_none rfl).trans undrawn)
    cases limited with
    | true =>
      refine ⟨false, rfl, rfl, quiet, fun later suffix => ?_⟩
      exact iff_of_true rfl ((tested later suffix).mp rfl)
    | false =>
      simp only [Bool.false_eq_true, if_false]
      rw [wp_recordAttempt]
      intro attempted _
      rw [wp_set]
      refine ⟨true, rfl, rfl, ?_, fun later suffix => ?_⟩
      · exact (List.filterMap_cons_none rfl).trans ((List.filterMap_cons_none rfl).trans quiet)
      · refine iff_of_false nofun fun limited => ?_
        have earlier := (List.suffix_append [_, _] _).trans suffix
        exact absurd ((tested later earlier).mpr limited) nofun
  refine Prog.wp_then checked ?_
  rintro admitted ⟨s₁, calls₁⟩ ⟨commits, quiet, first⟩
  cases admitted with
  | false =>
    have limited := (first calls₁ (List.suffix_refl _)).mp rfl
    exact iff_of_false nofun fun stops => stops.1 limited
  | true =>
    simp only [Bool.not_true, Bool.false_eq_true, if_false]
    -- The history only grows, so the first reading is still that of the limiter at the end.
    have done := Prog.wp_and (body s₁ calls₁ commits quiet)
      (Prog.wp_suffix (fun _ _ => trivial) rest (s₁, calls₁))
    refine Prog.wp_mono ?_ _ _ done
    rintro r p ⟨stops, suffix⟩
    rw [stops, and_iff_right]
    exact fun limited => absurd ((first p.2 suffix).mpr limited) nofun

end Helpers

/-! ## The routes that can stop -/

section Routes

variable {Pt : Type} [AddCommGroup Pt] [Module Scalar Pt] [Curve Pt]
variable {options : SignerOptions} {debug : Bool} {signing : SigningFn} {R : Nat → Nat → Prop}
variable [IsPreorder Nat R] {s : State}

theorem returns_addSession (client : Str) (session : SignerSession) :
    (addSession client session).Returns := by
  unfold addSession
  intro _
  split
  · trivial
  · exact fun _ _ => trivial

omit [IsPreorder Nat R] in
theorem handleRegister_stops {auth : NostrAuth} {data : RegisterRequest} :
    Prog.wp (traced signing R) (handleRegister Pt options auth data)
      (fun r _ => r = none ↔ RegisterStops options auth data s) (s, []) := by
  unfold handleRegister
  dsimp only
  refine Prog.wp_then (checkKeyReuse_decides rfl) ?_
  rintro reused ⟨s₁, calls₁⟩ ⟨rfl, _, unused⟩
  split
  next used =>
    refine iff_of_false nofun fun stops => ?_
    rw [unused.mpr stops.unused] at used
    cases used
  next fresh =>
  split
  next idle => exact iff_of_false nofun fun stops => absurd idle (not_lt.mpr stops.worked)
  next worked =>
  split
  next outside =>
    refine iff_of_false nofun fun stops => ?_
    obtain zero | above := outside
    · exact stops.positive zero
    · exact absurd stops.enough (not_le.mpr above)
  next inside =>
    -- The membership check takes the public key of the share: it has none if its key is zero.
    refine wp_computed ?_ ?_ ?_
    · intro panics
      refine iff_of_true rfl ?_
      exact ⟨unused.mp (by simpa using fresh), not_lt.mp worked, by omega, by omega,
        (panics_isGroupMember Pt).mp panics⟩
    · intro e failed
      refine iff_of_false nofun fun stops => ?_
      exact not_panics_err e (failed ▸ (panics_isGroupMember Pt).mpr stops.zero)
    · intro member returned
      -- The check has answered, so the key of the share is not zero and nothing below can stop.
      have calm : ¬ RegisterStops options auth data s₁ := fun stops =>
        not_panics_ok member (returned ▸ (panics_isGroupMember Pt).mpr stops.zero)
      cases member with
      | false => exact iff_of_false nofun calm
      | true =>
        dsimp only
        split
        · exact iff_of_false nofun calm
        split
        · exact iff_of_false nofun calm
        rw [wp_get]
        split
        · exact iff_of_false nofun calm
        rw [wp_now]
        intro createdAt _
        rw [wp_now]
        intro lastActivity _
        exact returning_stops ((returns_addSession _ _).bind fun _ => Prog.returns_pure _) fun _ _ => calm

omit [IsPreorder Nat R] in
/-- A recovery setup stops at the hash of its email only. -/
theorem handleRecoverySetup_stops [Argon2] {auth : NostrAuth} {data : RecoverySetupRequest} :
    Prog.wp (traced signing R) (handleRecoverySetup options auth data)
      (fun r p => r = none ↔ ∃ session, s.sessions.get auth.pubkey = some session ∧
        SetupStops options data session p.2) (s, []) := by
  unfold handleRecoverySetup
  dsimp only
  rw [wp_get]
  simp only [State.table]
  cases stored : s.sessions.get auth.pubkey with
  | none => exact iff_of_false nofun nofun
  | some session =>
    simp only [Option.some.injEq, exists_eq_left']
    split
    next disabled => exact iff_of_false nofun fun stops => by simp [stops.recovery] at disabled
    next enabled =>
    rw [wp_now]
    intro time _
    -- The age is told by the first reading; the second only dates the session.
    have first : ∀ {later : List SignerCall},
        [⟨.now, time⟩, ⟨.get sessions auth.pubkey, some session⟩] <:+ later →
          firstReading later = some time := firstReading_of_silent rfl
    split
    next old =>
      refine iff_of_false nofun fun stops => ?_
      obtain ⟨time', read, recent⟩ := stops.recent
      rw [first (List.suffix_refl _)] at read
      cases read
      exact absurd old (not_lt.mpr (of_decide_eq_true recent))
    next recent =>
    split
    next given => exact iff_of_false nofun fun stops => by simp [stops.unset] at given
    next unset =>
    split
    next malformed => exact iff_of_false nofun fun stops => by simp [stops.hash] at malformed
    next hash =>
    split
    next emailHash hashed =>
      have calm : ∀ calls, ¬ SetupStops options data session calls := fun _ stops =>
        stops.refused (hashEmail_isSome.mp (Option.isSome_of_eq_some hashed))
      rw [wp_now]
      intro lastActivity _
      exact returning_stops ((returns_addSession _ _).bind fun _ => Prog.returns_pure _)
        fun later _ => calm later
    -- Every check has passed and the salt is too short for the hash.
    next refused =>
      refine iff_of_true rfl ?_
      exact {
        recovery := by simpa using enabled
        recent := ⟨time, first (List.suffix_refl _), decide_eq_true (not_lt.mp recent)⟩
        unset := by simpa using unset
        hash := by simpa using hash
        refused := fun hashable => by
          obtain ⟨emailHash, hashed⟩ := Option.isSome_iff_exists.mp (hashEmail_isSome.mpr hashable)
          exact refused emailHash hashed }

/-- With a mailer or in test mode a challenge stops at its debug line only. -/
theorem handleChallenge_stops {data : ChallengeRequest}
    (configured : options.testMode = true ∨ options.mailer = true) :
    Prog.wp (traced signing R) (handleChallengeLogged options debug data)
      (fun r p => r = none ↔ ChallengeStops debug data s p.2) (s, []) := by
  unfold handleChallengeLogged
  rw [wp_get]
  simp only [State.table]
  refine Prog.wp_then (isRateLimited_first rfl) ?_
  rintro limited p ⟨⟨time, rfl⟩, tested⟩
  cases limited with
  | true =>
    refine iff_of_false nofun fun stops => ?_
    exact stops.free ((tested _ (List.suffix_refl _)).mp rfl)
  | false =>
    simp only [Bool.false_eq_true, if_false]
    have free : ∀ later, checkCalls s data.emailHash time <:+ later →
        ¬ AtFirst (s.emailLimits data.emailHash) later :=
      fun later suffix limited => absurd ((tested later suffix).mpr limited) nofun
    refine Prog.wp_then (challengeRecipient_found (checkCalls_reads s data.emailHash time)) ?_
    rintro recipient ⟨_, calls₂⟩ ⟨found, rfl, suffix, _⟩
    have found : recipient = s.recipient data.emailHash := found
    cases recipient with
    | none =>
      dsimp only
      unfold logPrefix
      split
      -- No account is known, and the line that says so cuts the hash in the middle of a character.
      next cut =>
        simp only [Bool.and_eq_true, Bool.not_eq_true'] at cut
        exact iff_of_true rfl ⟨cut.1, cut.2, found.symm, free calls₂ suffix⟩
      next whole =>
        refine iff_of_false nofun fun stops => whole ?_
        rw [stops.written, stops.short]
        rfl
    | some email =>
      have known : ∀ calls, ¬ ChallengeStops debug data s calls := by
        intro calls stops
        rw [stops.unknown] at found
        cases found
      dsimp only
      rw [wp_recordAttempt]
      intro attempted _
      rw [wp_set, wp_randomInt]
      intro word
      rw [wp_now]
      intro createdAt _
      rw [wp_set]
      split
      · exact iff_of_false nofun (known _)
      next notTest =>
        rw [if_pos (configured.resolve_left notTest), wp_sendMail]
        exact iff_of_false nofun (known _)

theorem returns_indexedSessions (index : SessionIndex) : (indexedSessions index).Returns :=
  Prog.returns_filterMap (fun _ => Prog.returns_op) index.clients

theorem returns_evaluateAuth (auth : Auth) (index : Option SessionIndex) :
    (evaluateAuth auth index).Returns := by
  unfold evaluateAuth
  cases index with
  | none => trivial
  | some index =>
    cases auth with
    | password emailHash passwordHash =>
      exact (returns_indexedSessions index).bind fun _ => trivial
    | otp emailHash otp =>
      intro challenge
      cases challenge with
      | none => trivial
      | some challenge =>
        intro _
        dsimp only
        split
        · exact returns_indexedSessions index
        · trivial

/-- A login or a recovery stops at its debug line only. -/
theorem startWith_stops {record : Str → Nat → List Str → SignerProg Unit} {success : String}
    {auth : NostrAuth} {data : StartRequest Auth}
    (recorded : ∀ client createdAt clients, (record client createdAt clients).Returns) :
    Prog.wp (traced signing R) (startWithLogged debug record success auth data)
      (fun r p => r = none ↔ StartStops debug auth data s p.2) (s, []) := by
  unfold startWithLogged
  dsimp only
  refine Prog.wp_then (checkKeyReuse_decides rfl) ?_
  rintro reused ⟨s₁, calls₁⟩ ⟨rfl, silent, unused⟩
  split
  next used =>
    refine iff_of_false nofun fun stops => ?_
    rw [unused.mpr stops.unused] at used
    cases used
  next fresh =>
    have unused : s₁.registry.Unused auth.pubkey := unused.mp (by simpa using fresh)
    unfold getAuthenticatedSessionsLogged
    dsimp only
    simp only [Prog.bind_assoc]
    rw [wp_get]
    refine Prog.wp_then (isRateLimited_first ((List.filterMap_cons_none rfl).trans silent)) ?_
    rintro limited p ⟨⟨time, rfl⟩, tested⟩
    cases limited with
    | true =>
      simp only [if_true, Prog.bind_assoc]
      unfold logPrefix
      split
      -- The limiter refuses, and the line that says so cuts the hash in the middle of a character.
      next cut =>
        simp only [Bool.and_eq_true, Bool.not_eq_true'] at cut
        exact iff_of_true rfl ⟨cut.1, cut.2, unused, (tested _ (List.suffix_refl _)).mp rfl⟩
      next whole =>
        refine iff_of_false nofun fun stops => whole ?_
        rw [stops.written, stops.short]
        rfl
    | false =>
      simp only [Bool.false_eq_true, if_false]
      rw [Prog.bind_assoc]
      -- An admitted request writes no such line: it returns, whatever is found.
      refine returning_stops ?_ fun later suffix stops => ?_
      · rw [Prog.returns_op_bind]
        intro index
        rw [Prog.bind_assoc]
        refine (returns_evaluateAuth data.auth index).bind fun found => ?_
        refine Prog.Returns.bind ?_ fun found => ?_
        · split
          · exact fun _ _ => trivial
          · trivial
        · split
          · trivial
          · exact fun createdAt => (recorded _ createdAt _).bind fun _ => Prog.returns_pure _
      · exact absurd ((tested later suffix).mpr stops.limited) nofun

section Served

variable {client : Str} {session : SignerSession} {calls : List SignerCall}
variable {Stops : SignerSession → Prop}

theorem unserved_none (missing : s.sessions.get client = none) :
    ¬ ∃ session, Served s client calls session ∧ Stops session := by
  rintro ⟨session, served, _⟩
  exact absurd (missing.symm.trans served.stored) nofun

theorem unserved_inactive (stored : s.sessions.get client = some session)
    (inactive : session.deactivatedAt.isSome = true) :
    ¬ ∃ session, Served s client calls session ∧ Stops session := by
  rintro ⟨session', served, _⟩
  have same : session' = session := Option.some.inj (served.stored.symm.trans stored)
  rw [← same, served.active] at inactive
  cases inactive

/-- The stored session of a client that its request may use. -/
theorem served_only (stored : s.sessions.get client = some session)
    (active : session.deactivatedAt = none) :
    (∃ session, Served s client calls session ∧ Stops session) ↔
      ¬ AtFirst (s.limits client) calls ∧ Stops session := by
  constructor
  · rintro ⟨session', served, stops⟩
    have same : session' = session := Option.some.inj (served.stored.symm.trans stored)
    subst same
    exact ⟨served.free, stops⟩
  · rintro ⟨free, stops⟩
    exact ⟨session, ⟨stored, active, free⟩, stops⟩

end Served

theorem handleEcdh_stops {auth : NostrAuth} {data : EcdhRequest}
    (finite : ∀ session, s.sessions.get auth.pubkey = some session → session.share.Finite) :
    Prog.wp (traced signing R) (handleEcdh Pt auth data)
      (fun r p => r = none ↔ ∃ session, Served s auth.pubkey p.2 session ∧ EcdhStops Pt data session)
      (s, []) := by
  unfold handleEcdh
  dsimp only
  rw [wp_get]
  cases stored : (s.table sessions).get auth.pubkey with
  | none => exact iff_of_false nofun (unserved_none stored)
  | some session =>
    dsimp only
    split
    next inactive => exact iff_of_false nofun (unserved_inactive stored inactive)
    next active =>
      have active : session.deactivatedAt = none := Option.not_isSome_iff_eq_none.mp active
      simp only [served_only stored active]
      have stops : EcdhStops Pt data session ↔ Panics (createEcdhPkg Pt data session.share) :=
        (panics_createEcdhPkg Pt (finite session stored)).symm
      refine limited_stops (fun _ => EcdhStops Pt data session) rfl rfl fun s₁ calls₁ _ _ => ?_
      split
      next generator =>
        refine iff_of_false nofun fun panics => panics.1 ?_
        simpa using generator
      next =>
        refine wp_computed ?_ ?_ ?_
        · exact fun panics => iff_of_true rfl (stops.mpr panics)
        · intro e failed
          rw [stops, failed]
          exact iff_of_false nofun (not_panics_err e)
        · intro result returned
          rw [stops, returned]
          dsimp only
          rw [wp_now]
          intro lastActivity _
          rw [wp_set]
          exact iff_of_false nofun (not_panics_ok result)

variable [Sha2]

/-- A commitment stops at the nonce zero only. -/
theorem handleSignCommit_stops {auth : NostrAuth} {data : SignCommitRequest}
    (finite : ∀ session, s.sessions.get auth.pubkey = some session → session.share.Finite) :
    Prog.wp (traced signing R) (handleSignCommit Pt auth data)
      (fun r p => r = none ↔ ∃ session, Served s auth.pubkey p.2 session ∧
        CommitStops data session p.2) (s, []) := by
  unfold handleSignCommit
  dsimp only
  rw [wp_get]
  cases stored : (s.table sessions).get auth.pubkey with
  | none => exact iff_of_false nofun (unserved_none stored)
  | some session =>
    dsimp only
    split
    next inactive => exact iff_of_false nofun (unserved_inactive stored inactive)
    next active =>
      have active : session.deactivatedAt = none := Option.not_isSome_iff_eq_none.mp active
      simp only [served_only stored active]
      refine limited_stops (CommitStops data session) rfl rfl fun s₁ calls₁ _ undrawn => ?_
      split
      next outsider => exact iff_of_false nofun fun stops => outsider stops.1
      next member =>
      obtain ⟨seckey, decoded, nonzero⟩ := finite session stored
      simp only [decoded]
      rw [wp_randomBytes32]
      intro binderSeed
      rw [wp_randomBytes32]
      intro hiddenSeed
      have stops : ∀ newer : List SignerCall, CommitStops data session (newer ++
          ⟨.randomBytes32, hiddenSeed⟩ :: ⟨.randomBytes32, binderSeed⟩ :: calls₁) ↔
          Panics (createCommitPkg Pt { idx := session.share.idx, seckey } hiddenSeed
            binderSeed) := by
        intro newer
        have earlier : calls₁.reverse.filterMap drawing = [] := by
          rw [List.filterMap_reverse, undrawn]
          rfl
        -- The seeds are the first two of all that is drawn.
        have order : drawings (newer ++ ⟨.randomBytes32, hiddenSeed⟩ ::
            ⟨.randomBytes32, binderSeed⟩ :: calls₁) =
            [binderSeed, hiddenSeed] ++ newer.reverse.filterMap drawing := by
          rw [drawings]
          simp [earlier, drawing]
        rw [CommitStops, order, panics_createCommitPkg, decoded]
        constructor
        · rintro ⟨_, _, same, binder, hidden, first, zero⟩
          cases same
          have seeds : binder = binderSeed ∧ hidden = hiddenSeed := by simpa using first
          rwa [seeds.1, seeds.2] at zero
        · exact fun zero => ⟨not_not.mp member, seckey, rfl, binderSeed, hiddenSeed,
            List.prefix_append _ _, zero⟩
      refine wp_computed ?_ ?_ ?_
      · exact fun panics => iff_of_true rfl ((stops []).mpr panics)
      · exact fun e failed => absurd failed (createCommitPkg_ne_err Pt _ _ _ e)
      · intro pkg returned
        have calm : ∀ newer : List SignerCall, ¬ CommitStops data session (newer ++
            ⟨.randomBytes32, hiddenSeed⟩ :: ⟨.randomBytes32, binderSeed⟩ :: calls₁) := by
          intro newer
          rw [stops, returned]
          exact not_panics_ok pkg
        dsimp only
        unfold randomCommitId
        rw [Prog.bind_assoc, wp_randomBytes32]
        intro buf
        rw [Prog.pure_bind, wp_now]
        intro createdAt _
        rw [wp_pushCommit]
        refine wp_computed ?_ ?_ ?_
        · exact fun panics => absurd ((panics_getPubkey Pt).mp panics) nonzero
        · exact fun e failed => absurd failed (getPubkey_ne_err Pt seckey e)
        · exact fun pubkey _ => iff_of_false nofun (calm [_, _, _])

omit [Sha2] in
theorem hash_of_schemaValid {data : SignCompleteRequest}
    (valid : (Body.signComplete data : Body Auth).schemaValid = true) : data.request.hash ≠ [] := by
  intro empty
  simp [Body.schemaValid, empty] at valid

theorem handleSignComplete_stops {auth : NostrAuth} {data : SignCompleteRequest}
    (valid : (Body.signComplete data : Body Auth).schemaValid = true)
    (finite : ∀ session, s.sessions.get auth.pubkey = some session → session.share.Finite) :
    Prog.wp (traced (createPsigPkgWithNonce Pt) R) (handleSignComplete Pt auth data)
      (fun r p => r = none ↔ ∃ session, Served s auth.pubkey p.2 session ∧
        ∃ entry, CompleteStops Pt data s auth.pubkey session entry) (s, []) := by
  unfold handleSignComplete
  dsimp only
  rw [wp_get]
  cases stored : (s.table sessions).get auth.pubkey with
  | none => exact iff_of_false (Option.some_ne_none _) (unserved_none stored)
  | some session =>
    dsimp only
    split
    next inactive => exact iff_of_false (Option.some_ne_none _) (unserved_inactive stored inactive)
    next active =>
      have active : session.deactivatedAt = none := Option.not_isSome_iff_eq_none.mp active
      simp only [served_only stored active]
      let Stops := ∃ entry, CompleteStops Pt data s auth.pubkey session entry
      refine limited_stops (fun _ => Stops) rfl rfl fun s₁ calls₁ commits _ => ?_
      have same : (s₁.takeCommit swapRemove auth.pubkey data.commitId).1 =
          (s.takeCommit swapRemove auth.pubkey data.commitId).1 := by
        simp only [State.takeCommit, State.pending, commits]
        split <;> rfl
      rw [takeCommit, wp_takePending]
      cases taken : (s₁.takeCommit swapRemove auth.pubkey data.commitId).1 with
      | none =>
        refine iff_of_false (Option.some_ne_none _) ?_
        rintro ⟨entry, stops⟩
        exact Option.some_ne_none _ ((taken.symm.trans same).trans stops.pending).symm
      | some entry =>
        have pending := same.symm.trans taken
        -- The entry that is taken is the one that the condition is about.
        have stops : Stops ↔ CompleteStops Pt data s auth.pubkey session entry := by
          refine ⟨?_, fun stops => ⟨entry, stops⟩⟩
          rintro ⟨entry', stops⟩
          rwa [Option.some.inj (pending.symm.trans stops.pending)]
        rw [stops]
        dsimp only
        split
        next others => exact iff_of_false (Option.some_ne_none _) fun stops => others stops.members
        next members =>
        split
        next invalid =>
          refine iff_of_false (Option.some_ne_none _) fun stops => ?_
          rw [stops.nonces] at invalid
          cases invalid
        next nonces =>
        have nonces : pnoncesValid session.group data.request.members data.pnonces = true := by
          simpa using nonces
        have unequal : ∀ own, ownMatches Pt entry.secret data.pnonces = own → own ≠ .ok true →
            ¬ Panics own → ¬ CompleteStops Pt data s auth.pubkey session entry := by
          rintro own rfl different calm stops
          obtain panics | ⟨equal, _⟩ := stops.cancels
          · exact calm panics
          · exact different equal
        refine wp_computed ?_ ?_ ?_
        · exact fun panics => iff_of_true rfl ⟨pending, not_not.mp members, nonces, .inl panics⟩
        · exact fun e failed =>
            iff_of_false (Option.some_ne_none _) (unequal _ failed (by simp) (not_panics_err e))
        · intro own matched
          cases own with
          | false =>
            exact iff_of_false (Option.some_ne_none _) (unequal _ matched (by simp) (not_panics_ok _))
          | true =>
            dsimp only
            have cancels : CompleteStops Pt data s auth.pubkey session entry →
                verifySessionPkg session.group data.request = true ∧
                  CancelsSigning Pt (completeInput data session entry) := by
              intro stops
              obtain panics | ⟨_, verified, cancels⟩ := stops.cancels
              · exact absurd (matched ▸ panics) (not_panics_ok true)
              · exact ⟨verified, cancels⟩
            split
            next unverified =>
              refine iff_of_false (Option.some_ne_none _) fun stops => ?_
              rw [(cancels stops).1] at unverified
              cases unverified
            next verified =>
            have verified : verifySessionPkg session.group data.request = true := by
              simpa using verified
            have signing : Panics (createPsigPkgWithNonce Pt (completeInput data session entry)) ↔
                CancelsSigning Pt (completeInput data session entry) :=
              panics_createPsigPkgWithNonce Pt (hash_of_schemaValid valid)
                (finite session stored).not_zeroKey
            rw [wp_sign]
            refine wp_computed ?_ ?_ ?_
            · intro panics
              exact iff_of_true rfl ⟨pending, not_not.mp members, nonces,
                .inr ⟨matched, verified, signing.mp panics⟩⟩
            · intro e failed
              refine iff_of_false (Option.some_ne_none _) fun stops => ?_
              exact not_panics_err e (failed ▸ signing.mpr (cancels stops).2)
            · intro result returned
              dsimp only
              rw [wp_now]
              intro lastActivity _
              rw [wp_set]
              refine iff_of_false (Option.some_ne_none _) fun stops => ?_
              exact not_panics_ok result (returned ▸ signing.mpr (cancels stops).2)

end Routes

/-! ## The routes that always respond -/

section Calm

theorem returns_removeFromIndex (client emailHash : Str) :
    (removeFromIndex client emailHash).Returns := by
  unfold removeFromIndex
  rw [Prog.returns_op_bind]
  intro index
  cases index with
  | none => trivial
  | some index =>
    dsimp only
    split
    · exact fun _ => trivial
    · exact Prog.returns_op

theorem returns_deleteSession (client : Str) : (deleteSession client).Returns := by
  unfold deleteSession
  rw [Prog.returns_op_bind]
  intro found
  cases found with
  | none => trivial
  | some session =>
    dsimp only
    cases session.emailHash with
    | none => exact fun _ => trivial
    | some emailHash => exact (returns_removeFromIndex client emailHash).bind fun _ => fun _ => trivial

theorem returns_deactivateSession (client : Str) : (deactivateSession client).Returns := by
  unfold deactivateSession
  rw [Prog.returns_op_bind]
  intro found
  cases found with
  | none => trivial
  | some session => exact fun _ _ => trivial

theorem returns_handleRecoverySelect (auth : NostrAuth) (data : SelectRequest) :
    (handleRecoverySelect auth data).Returns := by
  unfold handleRecoverySelect
  dsimp only
  rw [Prog.returns_op_bind]
  intro found
  cases found with
  | none => trivial
  | some recovery =>
    dsimp only
    rw [Prog.returns_op_bind]
    intro _
    split
    · trivial
    rw [Prog.returns_op_bind]
    intro found
    cases found <;> trivial

theorem returns_handleLoginSelect (auth : NostrAuth) (data : SelectRequest) :
    (handleLoginSelect auth data).Returns := by
  unfold handleLoginSelect
  dsimp only
  rw [Prog.returns_op_bind]
  intro found
  cases found with
  | none => trivial
  | some login =>
    dsimp only
    rw [Prog.returns_op_bind]
    intro _
    split
    · trivial
    rw [Prog.returns_op_bind]
    intro found
    cases found with
    | none => trivial
    | some session =>
      exact fun _ _ => (returns_addSession _ _).bind fun _ => Prog.returns_pure _

theorem returns_handleSessionDeactivate (auth : NostrAuth) (data : SelectRequest) :
    (handleSessionDeactivate auth data).Returns := by
  unfold handleSessionDeactivate
  rw [Prog.returns_op_bind]
  intro found
  cases found with
  | none => trivial
  | some session =>
    dsimp only
    split
    · exact (returns_deactivateSession data.client).bind fun _ => Prog.returns_pure _
    · trivial

theorem returns_handleSessionDelete (auth : NostrAuth) (data : SelectRequest) :
    (handleSessionDelete auth data).Returns := by
  unfold handleSessionDelete
  rw [Prog.returns_op_bind]
  intro found
  cases found with
  | none => trivial
  | some session =>
    dsimp only
    split
    · exact (returns_deleteSession data.client).bind fun _ => Prog.returns_pure _
    · trivial

theorem returns_sweep (c : Coll) (expired : c.Val → Bool) : (sweep c expired).Returns := by
  unfold sweep
  rw [Prog.returns_op_bind]
  refine fun all => Prog.returns_forEach (fun entry => ?_) all
  split
  · exact fun _ => trivial
  · trivial

theorem returns_sweepBuckets (c : Coll) (lastAttempt : c.Val → Nat) (config : RateLimitConfig) :
    (sweepBuckets c lastAttempt config).Returns := by
  unfold sweepBuckets
  rw [Prog.returns_op_bind]
  refine fun all => Prog.returns_forEach (fun entry => ?_) all
  rw [Prog.returns_op_bind]
  intro time
  split
  · exact fun _ => trivial
  · trivial

theorem returns_cleanup : cleanup.Returns := by
  unfold cleanup
  rw [Prog.returns_op_bind]
  intro time15m
  rw [Prog.returns_op_bind]
  intro timeMonth
  refine (returns_sweep _ _).bind fun _ => (returns_sweep _ _).bind fun _ => ?_
  refine (returns_sweep _ _).bind fun _ => (returns_sweepBuckets _ _ _).bind fun _ => ?_
  refine (returns_sweepBuckets _ _ _).bind fun _ => (returns_sweep _ _).bind fun _ => ?_
  exact fun _ _ => trivial

end Calm

/-! ## Jobs and runs -/

section Jobs

variable {Pt : Type} [AddCommGroup Pt] [Module Scalar Pt] [Curve Pt] [Sha2] [Argon2]
variable {options : SignerOptions} {debug : Bool} {R : Nat → Nat → Prop} [IsPreorder Nat R]
variable {s : State}

theorem dispatch_stops (configured : options.testMode = true ∨ options.mailer = true)
    (auth : NostrAuth) (body : Body Auth) (valid : body.schemaValid = true)
    (finite : ∀ session, s.sessions.get auth.pubkey = some session → session.share.Finite) :
    Prog.wp (traced (createPsigPkgWithNonce Pt) R) (dispatchLogged Pt options debug auth body)
      (fun r p => r = none ↔ BodyStops Pt options debug auth s p.2 body) (s, []) := by
  have calm : ∀ {program : SignerProg Response}, program.Returns →
      Prog.wp (traced (createPsigPkgWithNonce Pt) R) program (fun r _ => r = none ↔ False)
        (s, []) :=
    fun returns => returning_stops returns fun _ _ => id
  cases body with
  | challenge data => exact handleChallenge_stops configured
  | ecdh data => exact handleEcdh_stops finite
  | loginSelect data => exact calm (returns_handleLoginSelect auth data)
  | loginStart data =>
    unfold dispatchLogged handleLoginStartLogged
    refine startWith_stops fun client createdAt clients => ?_
    exact Prog.returns_op
  | recoverySelect data => exact calm (returns_handleRecoverySelect auth data)
  | recoverySetup data => exact handleRecoverySetup_stops
  | recoveryStart data =>
    unfold dispatchLogged handleRecoveryStartLogged
    refine startWith_stops fun client createdAt clients => ?_
    exact Prog.returns_op
  | register data => exact handleRegister_stops
  | sessionDeactivate data => exact calm (returns_handleSessionDeactivate auth data)
  | sessionDelete data => exact calm (returns_handleSessionDelete auth data)
  | sessionList => exact calm fun _ => trivial
  | signCommit data => exact handleSignCommit_stops finite
  | signComplete data => exact handleSignComplete_stops valid finite

theorem handle_stops (configured : options.testMode = true ∨ options.mailer = true)
    (finite : ∀ key session, s.sessions.get key = some session → session.share.Finite)
    (job : Job Auth) :
    Prog.wp (traced (createPsigPkgWithNonce Pt) R) (handleLogged Pt options debug job)
      (fun r p => r = none ↔ JobStops Pt options debug s p.2 job) (s, []) := by
  have refused : ∀ {message : String} (calls : List SignerCall),
      (some (refuse message) = none ↔ False) := fun _ => iff_of_false nofun id
  cases job with
  | cleanup =>
    unfold handleLogged handle
    exact returning_stops (returns_cleanup.bind fun _ => Prog.returns_pure _) fun _ _ => id
  | request auth route =>
    cases auth with
    | none => exact refused []
    | some auth =>
      cases route with
      | unknown => exact refused []
      | malformed => exact refused []
      | body body =>
        unfold handleLogged
        dsimp only
        split
        next valid =>
          simp only [JobStops, valid, true_and]
          exact dispatch_stops configured auth body valid (finite auth.pubkey)
        next invalid => exact iff_of_false nofun fun stops => invalid stops.1

/-- Registration has tried the share, and nothing changes it afterwards. -/
theorem RustRuns.finite {ok : RustEvent → Prop} {events : List RustEvent}
    (run : RustRuns Pt options R Opened ok events s) :
    ∀ key session, s.sessions.get key = some session → session.share.Finite := by
  refine RustRuns.registry (I := fun r => ∀ key session,
    r.sessions.get key = some session → session.share.Finite) ?_ ?_ run
  · intro clock key session stored
    cases stored
  · intro e _ step held
    refine step.forall_sessions (P := fun _ session => session.share.Finite) ?_ ?_ ?_ ?_ ?_ held
    · intro auth data t₁ t₂ _ _ accepted
      obtain ⟨_, _, _, seckey, pubkey, decoded, _, derived⟩ := isGroupMember_true accepted.member
      refine ⟨seckey, decoded, fun zero => ?_⟩
      exact not_panics_ok pubkey (derived ▸ (panics_getPubkey Pt).mpr zero)
    · exact fun _ _ _ _ _ finite => finite
    · exact fun _ _ _ finite => finite
    · exact fun _ _ _ finite => finite
    · exact fun _ _ _ _ _ _ _ _ _ _ finite => finite

/-- In every run of a signer with a mailer or in test mode, with or without debug output, the jobs
that get no response are exactly those that stop: the ones that make a point the identity, or
have an email hash cut that is too short. -/
theorem responds_iff {events : List RustEvent}
    (configured : options.testMode = true ∨ options.mailer = true)
    (run : LoggedRuns Pt options debug anyClock (fun _ => True) events s) :
    ∀ e ∈ events, (∃ response, e.result = some response) ↔
      ¬ JobStops Pt options debug e.before e.calls e.job := by
  intro e member
  obtain ⟨⟨earlier, before⟩, happens, _⟩ := run.of_mem member
  obtain ⟨_, quiet⟩ := LoggedRuns.quiet before
  have stops := happens.of_wp (handle_stops configured quiet.finite e.job)
  rw [← stops, ← Option.ne_none_iff_exists']

end Jobs

section Stopped

attribute [local instance] Sample.sha2 Sample.argon2

/-- The event of one job with the log lines, in a store that was just opened. -/
def Sample.first (debug : Bool) (job : Job Auth) : RustEvent :=
  Event.ofRun (exec (createPsigPkgWithNonce Scalar)) (handleLogged Scalar Sample.options debug) job
    (Sample.steady 1000) (State.opened 0)

theorem Sample.first_runs (debug : Bool) (job : Job Auth)
    (admitted : Prog.Admits (exec (createPsigPkgWithNonce Scalar)) (permit anyClock)
      (handleLogged Scalar Sample.options debug job) (Sample.steady 1000) (State.opened 0)) :
    LoggedRuns Scalar Sample.options debug anyClock (fun _ => True) [Sample.first debug job]
      (Sample.first debug job).after :=
  .step _ (.start _ ⟨0, rfl⟩) (Event.happens_ofRun admitted) trivial

/-- A challenge for an email hash of five bytes. -/
def Sample.shortChallenge : Job Auth :=
  Sample.job (Sample.clientKey 1) (.challenge { otpPrefix := [], emailHash := "short".toList })

theorem responds_iff_short :
    JobStops Scalar Sample.options true (Sample.first true Sample.shortChallenge).before
      (Sample.first true Sample.shortChallenge).calls Sample.shortChallenge := by
  have run := Sample.first_runs true Sample.shortChallenge (by decide +kernel)
  have stopped : (Sample.first true Sample.shortChallenge).result = none := by decide +kernel
  by_contra calm
  obtain ⟨response, returned⟩ :=
    (responds_iff (.inl rfl) run _ List.mem_cons_self).mpr calm
  rw [stopped] at returned
  cases returned

/-- A registration whose share has the key zero. -/
def Sample.zeroShare : Job Auth :=
  Sample.job (Sample.clientKey 7) (.register
    { share := { idx := 1, seckey := List.replicate 64 '0' }, group := Sample.group [1]
      recovery := true })

theorem zero_share_panics : ¬ ∀ (events : List RustEvent) (s : State),
    LoggedRuns Scalar Sample.options false anyClock (fun _ => True) events s →
    ∀ e ∈ events, e.job.schemaValid = true → ∃ response, e.result = some response := by
  intro responds
  have run := Sample.first_runs false Sample.zeroShare (by decide +kernel)
  obtain ⟨response, returned⟩ := responds _ _ run _ List.mem_cons_self (by decide +kernel)
  have stopped : (Sample.first false Sample.zeroShare).result = none := by decide +kernel
  rw [stopped] at returned
  cases returned

end Stopped

end Pomade.Signer
