import Pomade.Frost.Ecdh
import Pomade.Frost.SignSession
import Pomade.Lib.Traverse

/-! # ECDH packages

`frost/ecdh.rs`: every member of a quorum puts its shares toward several targets in one package,
and whoever has a package of each member combines them.  Members may list the targets in an order
of their own, or not list some of them.
-/

namespace Pomade.Frost

open Pomade.Lib Polynomial

/-- One member's ECDH keyshare for a single target public key. -/
structure EcdhEntry where
  ecdhPk : Bytes 33
  keyshare : Bytes 33
deriving DecidableEq

/-- An ECDH package from one member, covering one or more target keys. -/
structure EcdhPackage where
  idx : UInt32
  members : List UInt32
  entries : List EcdhEntry
deriving DecidableEq

section Code

variable (Pt : Type) [AddCommGroup Pt] [Module Scalar Pt] [Curve Pt]

/-- Create an ECDH package for a single target public key. -/
def createEcdhPkg (members : List UInt32) (ecdhPk : Bytes 33) (share : SharePackage) :
    Result EcdhPackage := do
  let ecdhShare ← createEcdhShare Pt members { idx := share.idx, seckey := share.seckey } ecdhPk.data
  return { idx := share.idx, members, entries := [{ ecdhPk, keyshare := ecdhShare.pubkey }] }

/-- Create an ECDH package for multiple target public keys in one call. -/
def createBatchedEcdhPkg (members : List UInt32) (ecdhPks : List (Bytes 33)) (share : SharePackage) :
    Result EcdhPackage := do
  let entries ← ecdhPks.mapM fun pk => do
    let ecdhShare ← createEcdhShare Pt members { idx := share.idx, seckey := share.seckey } pk.data
    return { ecdhPk := pk, keyshare := ecdhShare.pubkey }
  return { idx := share.idx, members, entries }

/-- The share of a package toward one target. -/
def keyshareFor (ecdhPk : Bytes 33) (pkg : EcdhPackage) : Result PublicShare :=
  match pkg.entries.find? fun e => e.ecdhPk == ecdhPk with
  | some entry => .ok { idx := pkg.idx, pubkey := entry.keyshare }
  | none => .error (.err (.assertion ("ecdh_pk not found in package from member " ++
      toString pkg.idx)))

/-- Combine ECDH packages from all quorum members to derive the shared secret for a single
target public key. -/
def combineEcdhPkgs (pkgs : List EcdhPackage) (ecdhPk : Bytes 33) : Result (Bytes 33) := do
  let keyshares ← pkgs.mapM (keyshareFor ecdhPk)
  deriveEcdhSecret Pt keyshares

/-- Combine ECDH packages for all target keys of the first package. -/
def combineBatchedEcdhPkgs (pkgs : List EcdhPackage) : Result (List (Bytes 33 × Bytes 33)) :=
  match pkgs with
  | [] => .ok []
  | first :: _ => first.entries.mapM fun entry => do
    let secret ← combineEcdhPkgs Pt pkgs entry.ecdhPk
    return (entry.ecdhPk, secret)

/-- Every member that holds a share makes a package of its own targets. -/
def batchExchange (held : List SecretShare) (view : SecretShare → List UInt32)
    (targets : SecretShare → List (Bytes 33)) : Result (List EcdhPackage) :=
  held.mapM fun share =>
    createBatchedEcdhPkg Pt (view share) (targets share) { idx := share.idx, seckey := share.seckey }

end Code

def EcdhPackage.Lists (pkg : EcdhPackage) (ecdhPk : Bytes 33) : Prop :=
  ecdhPk ∈ pkg.entries.map (·.ecdhPk)

instance (pkg : EcdhPackage) (ecdhPk : Bytes 33) : Decidable (pkg.Lists ecdhPk) :=
  inferInstanceAs (Decidable (_ ∈ _))

section Batch

variable {Pt : Type} [AddCommGroup Pt] [Module Scalar Pt] [Curve Pt]
variable {threshold : Nat} {f : Scalar[X]} {held : List SecretShare}
variable {view : SecretShare → List UInt32} {targets : SecretShare → List (Bytes 33)}
variable {point : Bytes 33 → Pt}

/-- The share of a member toward a target, written down. -/
noncomputable def keyshareOf (point : Bytes 33 → Pt) (f : Scalar[X]) (held : List SecretShare)
    (idx : UInt32) (pk : Bytes 33) : Bytes 33 :=
  encodePoint (contribution f held idx • point pk)

/-- The package of a member. -/
noncomputable def packageOf (point : Bytes 33 → Pt) (f : Scalar[X]) (held : List SecretShare)
    (view : SecretShare → List UInt32) (targets : SecretShare → List (Bytes 33))
    (share : SecretShare) : EcdhPackage where
  idx := share.idx
  members := view share
  entries := (targets share).map fun pk => { ecdhPk := pk, keyshare := keyshareOf point f held share.idx pk }

theorem lists_packageOf {share : SecretShare} {pk : Bytes 33} :
    (packageOf point f held view targets share).Lists pk ↔ pk ∈ targets share := by
  rw [EcdhPackage.Lists, packageOf, List.map_map]
  simp

theorem createBatchedEcdhPkg_eq (quorum : Quorum threshold f held view) {share : SecretShare}
    (member : share ∈ held) (lifted : ∀ pk ∈ targets share, liftX pk.data = .ok (point pk)) :
    createBatchedEcdhPkg Pt (view share) (targets share)
        { idx := share.idx, seckey := share.seckey } =
      .ok (packageOf point f held view targets share) := by
  have entries : (targets share).mapM (fun pk => do
        let ecdhShare ← createEcdhShare Pt (view share) { idx := share.idx, seckey := share.seckey } pk.data
        return ({ ecdhPk := pk, keyshare := ecdhShare.pubkey } : EcdhEntry)) =
      .ok ((targets share).map fun pk =>
        { ecdhPk := pk, keyshare := keyshareOf point f held share.idx pk }) := by
    refine mapM_ok fun pk listed => ?_
    have made := createEcdhShare_eq quorum (lifted pk listed) member
    rw [made]
    rfl
  rw [createBatchedEcdhPkg, entries]
  rfl

theorem batchExchange_eq (quorum : Quorum threshold f held view)
    (lifted : ∀ share ∈ held, ∀ pk ∈ targets share, liftX pk.data = .ok (point pk)) :
    batchExchange Pt held view targets = .ok (held.map (packageOf point f held view targets)) :=
  mapM_ok fun share member => createBatchedEcdhPkg_eq quorum member (lifted share member)

/-! ## Combining -/

/-- A package that lists a target has one share toward it, however often it lists it. -/
theorem keyshareFor_packageOf {share : SecretShare} {pk : Bytes 33} (listed : pk ∈ targets share) :
    keyshareFor pk (packageOf point f held view targets share) =
      .ok { idx := share.idx, pubkey := keyshareOf point f held share.idx pk } := by
  have found : ∃ entry, (packageOf point f held view targets share).entries.find?
      (fun e => e.ecdhPk == pk) = some entry := by
    rw [← Option.isSome_iff_exists, List.find?_isSome]
    refine ⟨{ ecdhPk := pk, keyshare := keyshareOf point f held share.idx pk }, ?_, by simp⟩
    exact List.mem_map_of_mem listed
  obtain ⟨entry, found⟩ := found
  have named := List.find?_some found
  obtain ⟨pk', _, same⟩ := List.mem_map.mp (List.mem_of_find?_eq_some found)
  subst same
  simp only [beq_iff_eq] at named
  rw [keyshareFor, found, named]
  rfl

theorem keyshareFor_missing {pkg : EcdhPackage} {pk : Bytes 33} (missing : ¬ pkg.Lists pk) :
    keyshareFor pk pkg = .error (.err (.assertion ("ecdh_pk not found in package from member " ++
      toString pkg.idx))) := by
  have absent : pkg.entries.find? (fun e => e.ecdhPk == pk) = none := by
    rw [List.find?_eq_none]
    intro entry member same
    refine missing ?_
    rw [EcdhPackage.Lists, ← beq_iff_eq.mp same]
    exact List.mem_map_of_mem member
  rw [keyshareFor, absent]

/-- A traversal stops at its first error. -/
theorem mapM_keyshareFor_missing {before after : List EcdhPackage} {pkg : EcdhPackage} {pk : Bytes 33}
    (earlier : ∀ p ∈ before, ∃ share, keyshareFor pk p = .ok share) (missing : ¬ pkg.Lists pk) :
    (before ++ pkg :: after).mapM (keyshareFor pk) =
      .error (.err (.assertion ("ecdh_pk not found in package from member " ++ toString pkg.idx))) := by
  induction before with
  | nil =>
    rw [List.nil_append, List.mapM_cons, keyshareFor_missing missing]
    rfl
  | cons p before ih =>
    rw [List.forall_mem_cons] at earlier
    obtain ⟨share, got⟩ := earlier.1
    rw [List.cons_append, List.mapM_cons, got, ih earlier.2]
    rfl

section Arranged

variable {arranged : List EcdhPackage}

/-- The packages of all members for one target give its secret multiple. -/
theorem combineEcdhPkgs_eq (small : f.degree < threshold) (secret : f.eval 0 ≠ 0)
    (quorum : Quorum threshold f held view)
    (perm : arranged.Perm (held.map (packageOf point f held view targets))) {pk : Bytes 33}
    (lifted : liftX pk.data = .ok (point pk)) (listed : ∀ share ∈ held, pk ∈ targets share) :
    combineEcdhPkgs Pt arranged pk = .ok (encodePoint (f.eval 0 • point pk)) := by
  have made : ecdhExchange Pt held view pk.data =
      .ok (held.map fun share => { idx := share.idx, pubkey := keyshareOf point f held share.idx pk }) :=
    mapM_ok fun share member => createEcdhShare_eq quorum lifted member
  obtain ⟨shares, made', derived⟩ := quorum.derive small secret lifted
  rw [made] at made'
  cases made'
  have gathered : arranged.mapM (keyshareFor pk) = .ok (arranged.map fun pkg =>
      { idx := pkg.idx, pubkey := keyshareOf point f held pkg.idx pk }) := by
    refine mapM_ok fun pkg member => ?_
    obtain ⟨share, holder, same⟩ := List.mem_map.mp (perm.mem_iff.mp member)
    rw [← same]
    exact keyshareFor_packageOf (listed share holder)
  rw [combineEcdhPkgs, gathered]
  refine derived _ ?_
  refine (perm.map _).trans ?_
  rw [List.map_map]
  exact List.Perm.refl _

/-- Where a package does not list the target, the first one that does not is reported. -/
theorem combineEcdhPkgs_missing
    (perm : arranged.Perm (held.map (packageOf point f held view targets))) {pk : Bytes 33}
    {pkg : EcdhPackage} (found : arranged.find? (fun p => decide (¬ p.Lists pk)) = some pkg) :
    combineEcdhPkgs Pt arranged pk =
      .error (.err (.assertion ("ecdh_pk not found in package from member " ++ toString pkg.idx))) := by
  obtain ⟨missing, before, after, split, earlier⟩ := List.find?_eq_some_iff_append.mp found
  rw [decide_eq_true_iff] at missing
  have answered : ∀ p ∈ before, ∃ share, keyshareFor pk p = .ok share := by
    intro p member
    have inside : p ∈ arranged := by
      rw [split]
      exact List.mem_append_left _ member
    obtain ⟨share, _, same⟩ := List.mem_map.mp (perm.mem_iff.mp inside)
    have lists : p.Lists pk := by simpa using earlier p member
    rw [← same, lists_packageOf] at lists
    exact ⟨_, by rw [← same]; exact keyshareFor_packageOf lists⟩
  rw [combineEcdhPkgs, split, mapM_keyshareFor_missing answered missing]
  rfl

end Arranged

theorem Quorum.nonempty (quorum : Quorum threshold f held view) (small : f.degree < threshold)
    (secret : f.eval 0 ≠ 0) : held ≠ [] := by
  intro empty
  have size := quorum.enough
  rw [empty, List.length_nil, Nat.le_zero] at size
  rw [size, Nat.cast_zero] at small
  have nonzero : f ≠ 0 := by
    intro zero
    rw [zero, eval_zero] at secret
    exact secret rfl
  exact absurd small (not_lt.mpr (zero_le_degree_iff.mpr nonzero))

/-- A quorum makes its packages; in whatever order they are combined, a target that all list gives
its secret multiple, and for any other target the first package that does not list it is reported.
The batch is combined exactly if all packages list the targets of the first one. -/
theorem batched_ecdh (small : f.degree < threshold) (secret : f.eval 0 ≠ 0)
    (quorum : Quorum threshold f held view)
    (lifted : ∀ share ∈ held, ∀ pk ∈ targets share, liftX pk.data = .ok (point pk)) :
    ∃ pkgs, batchExchange Pt held view targets = .ok pkgs ∧
      ∀ first rest, (first :: rest).Perm pkgs →
        (∀ pk, combineEcdhPkgs Pt (first :: rest) pk =
          match (first :: rest).find? fun p => decide (¬ p.Lists pk) with
          | none => .ok (encodePoint (f.eval 0 • point pk))
          | some pkg => .error (.err (.assertion
              ("ecdh_pk not found in package from member " ++ toString pkg.idx)))) ∧
        ∀ out, combineBatchedEcdhPkgs Pt (first :: rest) = .ok out ↔
          (∀ entry ∈ first.entries, ∀ pkg ∈ rest, pkg.Lists entry.ecdhPk) ∧
            out = first.entries.map fun entry =>
              (entry.ecdhPk, encodePoint (f.eval 0 • point entry.ecdhPk)) := by
  refine ⟨_, batchExchange_eq quorum lifted, fun first rest perm => ?_⟩
  have single : ∀ pk, combineEcdhPkgs Pt (first :: rest) pk =
      match (first :: rest).find? fun p => decide (¬ p.Lists pk) with
      | none => .ok (encodePoint (f.eval 0 • point pk))
      | some pkg => .error (.err (.assertion
          ("ecdh_pk not found in package from member " ++ toString pkg.idx))) := by
    intro pk
    cases found : (first :: rest).find? fun p => decide (¬ p.Lists pk) with
    | some pkg => exact combineEcdhPkgs_missing perm found
    | none =>
      have listed : ∀ share ∈ held, pk ∈ targets share := by
        intro share member
        have inside := perm.mem_iff.mpr
          (List.mem_map_of_mem (f := packageOf point f held view targets) member)
        have lists := List.find?_eq_none.mp found _ inside
        rw [decide_eq_true_iff, not_not, lists_packageOf] at lists
        exact lists
      obtain ⟨share, member⟩ := List.exists_mem_of_ne_nil held (quorum.nonempty small secret)
      exact combineEcdhPkgs_eq small secret quorum perm (lifted share member pk (listed share member))
        listed
  refine ⟨single, fun out => ?_⟩
  -- One target of the batch is combined if all packages list it.
  have each : ∀ (entry : EcdhEntry) (b : Bytes 33 × Bytes 33), (do
        let secret ← combineEcdhPkgs Pt (first :: rest) entry.ecdhPk
        return (entry.ecdhPk, secret) : Result (Bytes 33 × Bytes 33)) = .ok b ↔
      (∀ pkg ∈ first :: rest, pkg.Lists entry.ecdhPk) ∧
        b = (entry.ecdhPk, encodePoint (f.eval 0 • point entry.ecdhPk)) := by
    intro entry b
    rw [single]
    cases found : (first :: rest).find? fun p => decide (¬ p.Lists entry.ecdhPk) with
    | none =>
      have listed : ∀ pkg ∈ first :: rest, pkg.Lists entry.ecdhPk := by
        intro pkg member
        have lists := List.find?_eq_none.mp found pkg member
        rwa [decide_eq_true_iff, not_not] at lists
      constructor
      · intro done
        cases done
        exact ⟨listed, rfl⟩
      · intro both
        rw [both.2]
        rfl
    | some pkg =>
      have missing := List.find?_some found
      rw [decide_eq_true_iff] at missing
      constructor
      · intro done
        cases done
      · intro both
        exact absurd (both.1 pkg (List.mem_of_find?_eq_some found)) missing
  rw [combineBatchedEcdhPkgs, mapM_eq_ok_iff]
  simp only [each]
  rw [List.forall₂_and_left]
  refine and_congr ⟨fun listed entry member pkg other => ?_, fun listed entry member pkg other => ?_⟩ ?_
  · exact listed entry member pkg (List.mem_cons_of_mem _ other)
  · cases List.mem_cons.mp other with
    | inl own =>
      rw [own]
      exact List.mem_map_of_mem member
    | inr other => exact listed entry member pkg other
  · rw [← List.forall₂_eq_eq_eq, List.forall₂_map_right_iff]
    exact ⟨List.Forall₂.flip, List.Forall₂.flip⟩

/-- Members 1 and 2 of the sharing `1 + x` list two targets, each in an order of its own. -/
theorem batched_ecdh_pair :
    ∃ pkgs, batchExchange Scalar ([1, 2].map (shareAt [1, 1])) (fun _ => [2, 1])
        (fun share => if share.idx = 1 then [encodePoint (1 : Scalar), encodePoint (modN 2)]
          else [encodePoint (modN 2), encodePoint (1 : Scalar)]) = .ok pkgs ∧
      combineBatchedEcdhPkgs Scalar pkgs.reverse =
        .ok [(encodePoint (modN 2), encodePoint (modN 2)),
          (encodePoint (1 : Scalar), encodePoint (1 : Scalar))] := by
  have value : (listPolynomial ([1, 1] : List Scalar)).eval 0 = 1 := by
    rw [eval_listPolynomial, horner_zero]
    rfl
  have one : horner ([1, 1] : List Scalar) (indexToScalar 1) ≠ 0 := by decide +kernel
  have two : horner ([1, 1] : List Scalar) (indexToScalar 2) ≠ 0 := by decide +kernel
  have second : modN 2 ≠ 0 := by decide +kernel
  have differ : encodePoint (modN 2) ≠ encodePoint (1 : Scalar) := by decide +kernel
  have quorum : Quorum 2 (listPolynomial [1, 1]) ([1, 2].map (shareAt [1, 1])) fun _ => [2, 1] :=
    quorum_shareAt (by decide) (by decide) (by simp) (by simp [one, two]) (List.Perm.swap ..)
  -- The targets are the points 1 and 2.
  have lifted : ∀ share ∈ [1, 2].map (shareAt [1, 1]), ∀ pk ∈
      (if share.idx = 1 then [encodePoint (1 : Scalar), encodePoint (modN 2)]
        else [encodePoint (modN 2), encodePoint (1 : Scalar)]),
      liftX pk.data = .ok (if pk = encodePoint (1 : Scalar) then (1 : Scalar) else modN 2) := by
    intro share _ pk listed
    have either : pk = encodePoint (1 : Scalar) ∨ pk = encodePoint (modN 2) := by
      by_cases first : share.idx = 1
      · simpa [first] using listed
      · simpa [first, or_comm] using listed
    cases either with
    | inl same =>
      rw [if_pos same, same]
      exact liftX_encodePoint one_ne_zero
    | inr same =>
      rw [same, if_neg differ]
      exact liftX_encodePoint second
  obtain ⟨pkgs, made, combined⟩ := batched_ecdh (degree_listPolynomial [1, 1])
    (by rw [value]; exact one_ne_zero) quorum lifted
  refine ⟨pkgs, made, ?_⟩
  rw [batchExchange_eq quorum lifted] at made
  cases made
  refine ((combined _ _ (List.Perm.swap ..)).2 _).mpr ⟨?_, ?_⟩
  · simp [EcdhPackage.Lists, packageOf, shareAt]
  · simp [packageOf, shareAt, value, differ]

end Batch

end Pomade.Frost
