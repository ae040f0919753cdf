import Pomade.Frost.Aggregate
import Pomade.Lib.Positions

/-! # Who has spoiled a signature

The second half of `frost/signing.rs`.  Every package is verified by itself before all are
combined, so that whoever has sent a wrong one is found.  What the check of a package does not see
is the sign of a partial signature, and whose key the package names.
-/

namespace Pomade.Frost

open Pomade.Lib Polynomial
open Pomade.Go (Reduced NoZeroAbscissa Bip340 rBytes sBytes bip340Challenge)

/-- A completed signature for one message. -/
structure Signature where
  message : List UInt8
  pubkey : Bytes 33
  sig : Bytes 64

section Code

variable (Pt : Type) [AddCommGroup Pt] [Module Scalar Pt] [Curve Pt] [Sha2]

/-- The loop of `verify_partial_sig_package`, from the message with the number `i`. -/
def verifyMessages (session : SignSession) (pnonce : PublicNonce) (pkg : PartialSigPackage) :
    Nat → List Message → Result (Option String)
  | _, [] => .ok none
  | i, message :: rest =>
    match pkg.psigs[i]? with
    | none => .ok (some ("missing partial sig for message " ++ toString i))
    | some entry => do
      let ctx ← sessionCtx Pt session message
      let valid ← verifyPartialSig Pt ctx pnonce pkg.pubkey entry.psig
      if valid then verifyMessages session pnonce pkg (i + 1) rest
      else return some ("partial sig invalid for message " ++ toString i)

/-- Verify a partial signature package from one member: nothing if it is valid, or the reason. -/
def verifyPartialSigPackage (session : SignSession) (group : GroupPackage)
    (pkg : PartialSigPackage) : Result (Option String) :=
  if pkg.sid ≠ session.sid then .ok (some "session id mismatch")
  else if pkg.pubkey ∉ group.members.map (·.pubkey) then .ok (some "pubkey not found in group")
  else
    match (buildPublicNonces session.nonces).find? fun n => n.idx == pkg.idx with
    | none => .ok (some ("no nonce for member " ++ toString pkg.idx))
    | some pnonce => verifyMessages Pt session pnonce pkg 0 session.messages

/-- The partial signature of a package for the message with the number `i`. -/
def shareSignature (i : Nat) (pkg : PartialSigPackage) : Result ShareSignature :=
  match pkg.psigs[i]? with
  | none => .error (.err (.assertion ("missing psig at index " ++ toString i ++
      " in pkg from member " ++ toString pkg.idx)))
  | some psig => .ok { idx := pkg.idx, pubkey := pkg.pubkey, psig := psig.psig }

variable [Schnorr Pt]

/-- One round of the loop of `combine_signatures`. -/
def combineMessage (session : SignSession) (pkgs : List PartialSigPackage)
    (numbered : Message × Nat) : Result Signature := do
  let (message, i) := numbered
  let ctx ← sessionCtx Pt session message
  let shareSigs ← pkgs.mapM (shareSignature i)
  let sig ← combinePartialSigs Pt ctx shareSigs
  let valid ← verifyFinalSig Pt ctx.groupPk message.1 sig
  if !valid then
    throw (.err (.assertion ("combined signature failed BIP340 verification for message " ++
      toString i)))
  return { message := message.1, pubkey := ctx.groupPk, sig }

/-- Combine partial signature packages into final BIP340 signatures. -/
def combineSignatures (session : SignSession) (group : GroupPackage)
    (pkgs : List PartialSigPackage) : Result (List Signature) :=
  if pkgs.length < group.threshold then
    .error (.err (.assertion ("need at least " ++ toString group.threshold ++
      " partial sigs, got " ++ toString pkgs.length)))
  else session.messages.zipIdx.mapM (combineMessage Pt session pkgs)

end Code

/-! ## Groups and packages in points -/

section Points

variable {Pt : Type} [AddCommGroup Pt] [Module Scalar Pt] [Curve Pt]

/-- The public key of an index, for the polynomial that is shared. -/
def memberPoint (Pt : Type) [AddCommGroup Pt] [Module Scalar Pt] [Curve Pt] (f : Scalar[X])
    (idx : UInt32) : Pt :=
  f.eval (indexToScalar idx) • Curve.generator

/-- The keys of the group are those of the shares of a polynomial, and as many shares as the
threshold determine it. -/
structure SharesKey (Pt : Type) [AddCommGroup Pt] [Module Scalar Pt] [Curve Pt] (f : Scalar[X])
    (group : GroupPackage) : Prop where
  key : liftX group.groupPk.data = .ok (f.eval 0 • (Curve.generator : Pt))
  degree : f.degree < group.threshold
  members : ∀ m ∈ group.members, liftX m.pubkey.data = .ok (memberPoint Pt f m.idx)

variable [Sha2]

/-- A package that is accepted has a partial signature for the only message, which is the right one
for the key that it names, or the negative. -/
theorem verified_package {session : SignSession} {group : GroupPackage} {pkg : PartialSigPackage}
    {message : Message} (only : session.messages = [message])
    (verified : verifyPartialSigPackage Pt session group pkg = .ok none) :
    pkg.pubkey ∈ group.members.map (·.pubkey) ∧
      ∃ pn psig ctx, (buildPublicNonces session.nonces).find? (fun n => n.idx == pkg.idx) = some pn ∧
        pkg.psigs[0]? = some psig ∧ sessionCtx Pt session message = .ok ctx ∧
          verifyPartialSig Pt ctx pn pkg.pubkey psig.psig = .ok true := by
  rw [verifyPartialSigPackage] at verified
  by_cases other : pkg.sid ≠ session.sid
  · rw [if_pos other] at verified
    cases verified
  rw [if_neg other] at verified
  by_cases stranger : pkg.pubkey ∉ group.members.map (·.pubkey)
  · rw [if_pos stranger] at verified
    cases verified
  rw [if_neg stranger] at verified
  refine ⟨not_not.mp stranger, ?_⟩
  cases found : (buildPublicNonces session.nonces).find? fun n => n.idx == pkg.idx with
  | none =>
    rw [found] at verified
    cases verified
  | some pn =>
    rw [found, only] at verified
    dsimp only at verified
    rw [verifyMessages] at verified
    cases entry : pkg.psigs[0]? with
    | none =>
      rw [entry] at verified
      cases verified
    | some psig =>
      rw [entry] at verified
      obtain ⟨ctx, built, verified⟩ := bind_ok verified
      obtain ⟨valid, checked, verified⟩ := bind_ok verified
      cases valid with
      | false => cases verified
      | true => exact ⟨pn, psig, ctx, rfl, rfl, built, checked⟩

/-! ## What is combined -/

/-- The partial signature of a package for the only message. -/
def firstPsig (pkg : PartialSigPackage) : Bytes 32 := (pkg.psigs[0]?.map (·.psig)).getD (Bytes.ofNat 32 0)

def firstSignature (pkg : PartialSigPackage) : ShareSignature where
  idx := pkg.idx
  pubkey := pkg.pubkey
  psig := firstPsig pkg

omit [Sha2] in
theorem shareSignature_first {pkg : PartialSigPackage} {psig : PartialSig}
    (entry : pkg.psigs[0]? = some psig) : shareSignature 0 pkg = .ok (firstSignature pkg) := by
  rw [shareSignature, entry, firstSignature, firstPsig, entry]
  rfl

variable {session : SignSession} {group : GroupPackage} {pkgs : List PartialSigPackage}
variable {message : Message} {ctx : GroupSigningCtx Pt} {K R : Pt}

/-- The packages combine to a signature of BIP340 for the tweaked group key. -/
def Combines (Pt : Type) [AddCommGroup Pt] [Module Scalar Pt] [Curve Pt] [Schnorr Pt]
    (session : SignSession) (group : GroupPackage) (pkgs : List PartialSigPackage) : Prop :=
  ∃ message ctx signature, session.messages = [message] ∧ sessionCtx Pt session message = .ok ctx ∧
    combineSignatures Pt session group pkgs = .ok [signature] ∧ signature.message = message.1 ∧
      signature.pubkey = ctx.groupPk ∧ Bip340 Pt signature.pubkey.tail signature.message
        (rBytes signature.sig) (sBytes signature.sig)

theorem combineMessage_eq [Schnorr Pt] (built : sessionCtx Pt session message = .ok ctx)
    (points : ContextPoints ctx K R) {i : Nat} {shareSigs : List ShareSignature}
    (shares : pkgs.mapM (shareSignature i) = .ok shareSigs) :
    combineMessage Pt session pkgs (message, i) =
      (verifyFinalSig Pt ctx.groupPk message.1 (aggregate ctx R shareSigs) >>= fun valid =>
        if valid then .ok ⟨message.1, ctx.groupPk, aggregate ctx R shareSigs⟩
        else .error (.err (.assertion
          ("combined signature failed BIP340 verification for message " ++ toString i)))) := by
  rw [combineMessage]
  dsimp only
  rw [built, ok_bind, shares, ok_bind, combinePartialSigs_eq points, ok_bind]
  congr 1
  funext valid
  cases valid <;> rfl

/-- Packages that have a partial signature combine if and only if the sum of the partial signatures
has the point that BIP340 asks for and is not zero. -/
theorem combines_iff [Schnorr Pt] [LawfulSchnorr Pt] (reduced : Reduced Pt)
    (apart : NoZeroAbscissa Pt)
    (only : session.messages = [message]) (built : sessionCtx Pt session message = .ok ctx)
    (points : ContextPoints ctx K R) (same : ctx.message = message.1)
    (enough : group.threshold ≤ pkgs.length)
    (each : ∀ pkg ∈ pkgs, ∃ psig, pkg.psigs[0]? = some psig) :
    Combines Pt session group pkgs ↔ signaturePoint ctx R ≠ 0 ∧
      (pkgs.map fun pkg => scalarBaseMulti Pt (scalarFromBytes (firstPsig pkg))).sum =
        parityOf R • R + (ctx.challenge * ctx.groupPt.parity * ctx.groupPt.state) • K := by
  have shares : pkgs.mapM (shareSignature 0) = .ok (pkgs.map firstSignature) := by
    apply mapM_ok
    intro pkg member
    obtain ⟨psig, entry⟩ := each pkg member
    exact shareSignature_first entry
  have rounds : combineSignatures Pt session group pkgs =
      (combineMessage Pt session pkgs (message, 0) >>= fun signature => .ok [signature]) := by
    rw [combineSignatures, if_neg (Nat.not_lt.mpr enough), only]
    rfl
  have final := verifyFinalSig_aggregate_iff reduced apart points (pkgs.map firstSignature)
  rw [List.map_map] at final
  refine Iff.trans ?_ final
  rw [same]
  constructor
  · rintro ⟨_, _, signature, _, _, done, _⟩
    rw [rounds, combineMessage_eq built points shares] at done
    obtain ⟨_, done, _⟩ := bind_ok done
    obtain ⟨valid, checked, done⟩ := bind_ok done
    cases valid with
    | true => exact checked
    | false => cases done
  · intro accepted
    refine ⟨message, ctx, ⟨message.1, ctx.groupPk, aggregate ctx R (pkgs.map firstSignature)⟩, only,
      built, ?_, rfl, rfl, ?_⟩
    · rw [rounds, combineMessage_eq built points shares, accepted]
      rfl
    · rw [← same] at accepted ⊢
      exact bip340_aggregate reduced apart points accepted

/-! ## What the check of a package does not see -/

/-- The public key that a package names. -/
def namedPoint (Pt : Type) [AddCommGroup Pt] [Module Scalar Pt] [Curve Pt]
    (pkg : PartialSigPackage) : Pt :=
  (liftX pkg.pubkey.data : Result Pt).toOption.getD 0

/-- The point that the check asks for, for a public key. -/
def askedPoint (session : SignSession) (ctx : GroupSigningCtx Pt) (R X : Pt) (idx : UInt32) : Pt :=
  (((buildPublicNonces session.nonces).find? fun n => n.idx == idx).map (rightPoint ctx R X)).getD 0

/-- What is lost if the partial signature is the negative of the one that is asked for: its point
has the same x-coordinate, and y of the other parity. -/
def negatedPart (session : SignSession) (ctx : GroupSigningCtx Pt) (R : Pt)
    (pkg : PartialSigPackage) : Pt :=
  let asked := askedPoint session ctx R (namedPoint Pt pkg) pkg.idx
  if Curve.yIsOdd (scalarBaseMulti Pt (scalarFromBytes (firstPsig pkg))) = Curve.yIsOdd asked then 0
  else asked + asked

/-- What is won if the package names the key of another member than the one of its index. -/
def foreignPart (f : Scalar[X]) (ctx : GroupSigningCtx Pt) (pkg : PartialSigPackage) : Pt :=
  (ctx.challenge * coefficientOf ctx pkg.idx * (ctx.groupPt.parity * ctx.groupPt.state)) •
    (namedPoint Pt pkg - memberPoint Pt f pkg.idx)

/-- What the packages with the negative partial signature lose and what those with the key of
another member win is the same, and the point of the signature is not the identity. -/
def Balances (Pt : Type) [AddCommGroup Pt] [Module Scalar Pt] [Curve Pt] (f : Scalar[X])
    (session : SignSession) (pkgs : List PartialSigPackage) : Prop :=
  ∃ message ctx, ∃ R : Pt, session.messages = [message] ∧ sessionCtx Pt session message = .ok ctx ∧
    liftX ctx.groupPn.data = .ok R ∧ signaturePoint ctx R ≠ 0 ∧
      (pkgs.map (foreignPart f ctx)).sum = (pkgs.map (negatedPart session ctx R)).sum

/-- What an accepted package carries is what it was asked for, but for the part that is lost. -/
theorem carried_of_verified (only : session.messages = [message])
    (built : sessionCtx Pt session message = .ok ctx) (points : ContextPoints ctx K R)
    (owners : ctx.pnonces = buildPublicNonces session.nonces) (distinct : ctx.indexes.Nodup)
    {pkg : PartialSigPackage}
    (verified : verifyPartialSigPackage Pt session group pkg = .ok none) {X : Pt}
    (lifted : liftX pkg.pubkey.data = .ok X) :
    scalarBaseMulti Pt (scalarFromBytes (firstPsig pkg)) + negatedPart session ctx R pkg =
      askedPoint session ctx R X pkg.idx := by
  obtain ⟨_, pn, psig, ctx', found, entry, built', checked⟩ := verified_package only verified
  rw [built] at built'
  cases built'
  have listed : pn ∈ ctx.pnonces := owners ▸ List.mem_of_find?_eq_some found
  have asked : askedPoint session ctx R X pkg.idx = rightPoint ctx R X pn := by
    rw [askedPoint, found]
    rfl
  have carried : firstPsig pkg = psig.psig := by
    rw [firstPsig, entry]
    rfl
  have named : namedPoint Pt pkg = X := by
    rw [namedPoint, lifted]
    rfl
  rw [negatedPart, named, asked, carried]
  exact add_lost ((verifyPartialSig_iff points listed distinct lifted psig.psig).mp checked)

/-- The points that honest members are asked for sum up to what the aggregate should be. -/
theorem sum_askedPoint (points : ContextPoints ctx K R)
    (owners : ctx.pnonces = buildPublicNonces session.nonces) (distinct : ctx.indexes.Nodup)
    {f : Scalar[X]} (small : f.degree < ctx.pnonces.length)
    (secret : K = f.eval 0 • Curve.generator) {indices : List UInt32}
    (everyone : indices.Perm ctx.indexes) :
    (indices.map fun idx => askedPoint session ctx R (memberPoint Pt f idx) idx).sum =
      parityOf R • R + (ctx.challenge * ctx.groupPt.parity * ctx.groupPt.state) • K := by
  rw [← sum_rightPoint points distinct small secret, (everyone.map _).sum_eq, points.indexes,
    List.map_map]
  congr 1
  apply List.map_congr_left
  intro pn listed
  rw [points.indexes] at distinct
  have found := find?_of_nodup distinct listed
  rw [owners] at found
  rw [Function.comp_apply, askedPoint, found]
  rfl

/-! ## When accepted packages combine -/

variable {members : List UInt32} {messages : List Message} {nonces : List MemberNonce}
variable {f : Scalar[X]}

theorem createSignSession_groupPk
    (made : createSignSession group members messages nonces = .ok session) :
    session.groupPk = group.groupPk := by
  rw [createSignSession] at made
  by_cases one : messages.length ≠ 1
  · rw [if_pos one] at made
    cases made
  rw [if_neg one] at made
  by_cases count : nonces.length ≠ members.length
  · rw [if_pos count] at made
    cases made
  rw [if_neg count] at made
  cases made
  rfl

omit [Sha2] in
theorem SharesKey.threshold_pos (shared : SharesKey Pt f group) : 0 < group.threshold := by
  apply Nat.pos_of_ne_zero
  intro zero
  have degree := shared.degree
  rw [zero] at degree
  have vanishes : f = 0 := by
    rw [← degree_eq_bot]
    exact Nat.WithBot.lt_zero_iff.mp degree
  apply ne_zero_of_liftX shared.key
  rw [vanishes, eval_zero, zero_smul]

/-- What a session in which every package is accepted is made of. -/
theorem verified_session (shared : SharesKey Pt f group)
    (made : createSignSession group members messages nonces = .ok session)
    (distinct : members.Nodup) (enough : group.threshold ≤ members.length)
    (one : (pkgs.map (·.idx)).Perm session.members)
    (verified : ∀ pkg ∈ pkgs, verifyPartialSigPackage Pt session group pkg = .ok none) :
    ∃ message ctx R, session.messages = [message] ∧ sessionCtx Pt session message = .ok ctx ∧
      ContextPoints ctx (f.eval 0 • Curve.generator) R ∧ ctx.message = message.1 ∧
      ctx.pnonces = buildPublicNonces session.nonces ∧ ctx.indexes.Nodup ∧
      (pkgs.map (·.idx)).Perm ctx.indexes ∧ group.threshold ≤ pkgs.length := by
  obtain ⟨kept, count⟩ := createSignSession_nonces made
  have everyone := one.trans (createSignSession_members made).symm
  have size : pkgs.length = members.length := by
    have lengths := everyone.length_eq
    rwa [List.length_map] at lengths
  obtain ⟨message, only⟩ := List.length_eq_one_iff.mp (createSignSession_ok made).2.2.2
  have some_ : pkgs ≠ [] := by
    intro empty
    rw [empty, List.length_nil] at size
    have positive := shared.threshold_pos
    omega
  obtain ⟨pkg, rest, split⟩ := List.exists_cons_of_ne_nil some_
  obtain ⟨_, _, _, ctx, _, _, built, _⟩ :=
    verified_package only (verified pkg (by rw [split]; exact List.mem_cons_self))
  obtain ⟨K, R, lifted, points, owners, same, _⟩ := contextPoints_of_built built
  rw [createSignSession_groupPk made, shared.key] at lifted
  obtain rfl := Except.ok.inj lifted
  have indexes : ctx.indexes = nonces.map (·.idx) := by
    rw [points.indexes, owners, buildPublicNonces, List.map_map, kept]
    rfl
  -- Every package has a nonce, and there are no more nonces than packages.
  have covered : members ⊆ nonces.map (·.idx) := by
    intro idx member
    obtain ⟨pkg, given, rfl⟩ := List.mem_map.mp (everyone.symm.subset member)
    obtain ⟨_, pn, _, _, found, _⟩ := verified_package only (verified pkg given)
    have owner : pn.idx = pkg.idx := by simpa using List.find?_some found
    have listed := List.mem_of_find?_eq_some found
    rw [← owner, ← indexes, points.indexes, owners]
    exact List.mem_map_of_mem listed
  have once := listsOnce_of_subset distinct covered (by rw [List.length_map, count])
  rw [← indexes] at once
  exact ⟨message, ctx, R, only, built, points, same, owners, once.2, everyone.trans once.1.symm,
    by rwa [size]⟩

/-- If every package is accepted the packages combine to a valid signature if and only if what the
check does not see balances. -/
theorem identifiable_abort_iff [Schnorr Pt] [LawfulSchnorr Pt] (reduced : Reduced Pt)
    (apart : NoZeroAbscissa Pt)
    (shared : SharesKey Pt f group)
    (made : createSignSession group members messages nonces = .ok session)
    (distinct : members.Nodup) (enough : group.threshold ≤ members.length)
    (one : (pkgs.map (·.idx)).Perm session.members)
    (verified : ∀ pkg ∈ pkgs, verifyPartialSigPackage Pt session group pkg = .ok none) :
    Combines Pt session group pkgs ↔ Balances Pt f session pkgs := by
  obtain ⟨message, ctx, R, only, built, points, same, owners, single, everyone, count⟩ :=
    verified_session shared made distinct enough one verified
  have nonce : (liftX ctx.groupPn.data : Result Pt) = .ok R := by
    rw [points.groupPn, liftX_encodePoint points.nonceFinite]
  have balances : Balances Pt f session pkgs ↔ signaturePoint ctx R ≠ 0 ∧
      (pkgs.map (foreignPart f ctx)).sum = (pkgs.map (negatedPart session ctx R)).sum := by
    constructor
    · rintro ⟨message', ctx', R', only', built', nonce', balanced⟩
      rw [only] at only'
      cases only'
      rw [built] at built'
      cases built'
      rw [nonce] at nonce'
      cases nonce'
      exact balanced
    · intro balanced
      exact ⟨message, ctx, R, only, built, nonce, balanced⟩
  have small : f.degree < ctx.pnonces.length := by
    apply lt_of_lt_of_le shared.degree
    have lengths := everyone.length_eq
    rw [points.indexes, List.length_map, List.length_map] at lengths
    rw [← lengths]
    exact_mod_cast count
  have honest := sum_askedPoint points owners single small rfl everyone
  rw [List.map_map] at honest
  rw [balances, combines_iff reduced apart only built points same count ?_, ← honest]
  · -- What a package carries is what is asked for its index, but for the two parts.
    have carried : ∀ pkg ∈ pkgs, scalarBaseMulti Pt (scalarFromBytes (firstPsig pkg)) +
        negatedPart session ctx R pkg =
          askedPoint session ctx R (memberPoint Pt f pkg.idx) pkg.idx + foreignPart f ctx pkg := by
      intro pkg given
      obtain ⟨key, pn, _, _, found, _⟩ := verified_package only (verified pkg given)
      obtain ⟨m, listed, same⟩ := List.mem_map.mp key
      have lifted := shared.members m listed
      rw [same] at lifted
      have owner : pn.idx = pkg.idx := by simpa using List.find?_some found
      have named : namedPoint Pt pkg = memberPoint Pt f m.idx := by
        rw [namedPoint, lifted]
        rfl
      rw [carried_of_verified only built points owners single (verified pkg given) lifted,
        foreignPart, named, askedPoint, askedPoint, found]
      simp only [Option.map_some, Option.getD_some, rightPoint, owner, smul_sub]
      abel
    have total := congrArg List.sum (List.map_congr_left carried)
    rw [List.sum_map_add, List.sum_map_add] at total
    apply and_congr_right
    intro _
    constructor
    · intro right
      rw [right] at total
      exact (add_left_cancel total).symm
    · intro balanced
      have parts : (pkgs.map fun pkg => foreignPart f ctx pkg).sum = _ := balanced
      rw [parts] at total
      exact add_right_cancel total
  · intro pkg given
    obtain ⟨_, _, psig, _, _, entry, _⟩ := verified_package only (verified pkg given)
    exact ⟨psig, entry⟩

end Points

/-! ## A package with the negative -/

namespace Solo

/-- A hash that is always one. -/
@[reducible] def sha2 : Sha2 where
  sha256 _ := Bytes.ofNat 32 1
  expandMessage _ _ := Bytes.ofNat 48 1

def group : GroupPackage where
  groupPk := encodePoint (1 : Scalar)
  threshold := 1
  members := [⟨1, encodePoint (1 : Scalar), none⟩]

def message : Message := ([7], [])

/-- The nonces of the secrets two and three. -/
def nonce : MemberNonce where
  idx := 1
  binderPn := encodePoint (modN 3)
  hiddenPn := encodePoint (modN 2)
  code := Bytes.ofNat 32 0

def session [Sha2] : SignSession where
  sid := computeSessionId group [1] [message]
  groupPk := group.groupPk
  members := [1]
  messages := [message]
  nonces := [nonce]

/-- The package of the only member, with some partial signature. -/
def package [Sha2] (psig : Scalar) : PartialSigPackage where
  idx := 1
  pubkey := encodePoint (1 : Scalar)
  sid := session.sid
  psigs := [⟨message.1, scalarToBytes psig⟩]

theorem shared : SharesKey Scalar (C 1) group where
  key := by
    rw [eval_C, one_smul]
    exact liftX_encodePoint one_ne_zero
  degree := by
    rw [degree_C one_ne_zero]
    exact Nat.cast_pos.mpr Nat.one_pos
  members := by
    intro m listed
    rw [List.mem_singleton.mp listed, memberPoint, eval_C, one_smul]
    exact liftX_encodePoint one_ne_zero

section

attribute [local instance] sha2

theorem made : createSignSession group [1] [message] [nonce] = .ok session := rfl

theorem accepted {psig : Scalar} (signs : psig = 6 ∨ psig = -6) :
    ∀ pkg ∈ [package psig], verifyPartialSigPackage Scalar session group pkg = .ok none := by
  intro pkg listed
  rw [List.mem_singleton.mp listed]
  rcases signs with rfl | rfl
  · decide +kernel
  · decide +kernel

end

end Solo

theorem identifiable_abort_solo :
    let _ := Solo.sha2
    let _ := sampleSchnorr Scalar
    Combines Scalar Solo.session Solo.group [Solo.package 6] ↔
      Balances Scalar (C 1) Solo.session [Solo.package 6] := by
  intro _ _
  have := lawful_sampleSchnorr Pomade.Go.reduced_scalar
  exact identifiable_abort_iff Pomade.Go.reduced_scalar Pomade.Go.noZeroAbscissa_scalar Solo.shared
    Solo.made (List.nodup_singleton _) le_rfl (List.Perm.refl _) (Solo.accepted (.inl rfl))

/-- The only package has the negative of the right partial signature.  It is accepted, and the
packages do not combine. -/
theorem negated_package_accepted :
    let _ := Solo.sha2
    let _ := sampleSchnorr Scalar
    createSignSession Solo.group [1] [Solo.message] [Solo.nonce] = .ok Solo.session ∧
      (∀ pkg ∈ [Solo.package (-6)],
        verifyPartialSigPackage Scalar Solo.session Solo.group pkg = .ok none) ∧
      ∀ signatures, combineSignatures Scalar Solo.session Solo.group [Solo.package (-6)] ≠
        .ok signatures := by
  intro _ _
  refine ⟨Solo.made, Solo.accepted (.inr rfl), ?_⟩
  intro signatures combined
  have fails : (combineSignatures Scalar Solo.session Solo.group
      [Solo.package (-6)]).toOption.isSome = false := by decide +kernel
  rw [combined] at fails
  cases fails

end Pomade.Frost
