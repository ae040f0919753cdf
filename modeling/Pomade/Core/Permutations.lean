import Mathlib.Data.Fintype.List
import Mathlib.Data.List.FinRange
import Mathlib.Data.List.Sublists
import Mathlib.Data.Rat.Cast.Order
import Pomade.Core.Accounts

/-! # Racing the signers

`permutations` of `util.ts` and `Client.racePermutations`.  The enumeration is that of Mathlib's
`sublistsLen` up to order, so that what is said of positions follows from one permutation.
-/

namespace Pomade.Core

open Pomade.Lib

/-! ## The subsets of a size -/

def permutations {α : Type} : List α → Number → List (List α)
  | [], k => if k ≤ 0 then [[]] else []
  | head :: rest, k =>
    if k ≤ 0 then [[]]
    else if k > (head :: rest).length then []
    else if k = (head :: rest).length then [head :: rest]
    else (permutations rest (k - 1)).map (head :: ·) ++ permutations rest k

section Enumeration

variable {α β : Type}

theorem permutations_zero (xs : List α) : permutations xs 0 = [[]] := by
  cases xs with
  | nil => rfl
  | cons x xs => rw [permutations, if_pos (Rat.le_refl)]

theorem permutations_of_length_lt {xs : List α} {k : Nat} (short : xs.length < k) :
    permutations xs k = [] := by
  have positive : ¬ (k : Number) ≤ 0 := by
    rw [not_le]
    exact_mod_cast Nat.zero_lt_of_lt short
  cases xs with
  | nil => rw [permutations, if_neg positive]
  | cons x xs =>
    have long : (k : Number) > (x :: xs).length := by exact_mod_cast short
    rw [permutations, if_neg positive, if_pos long]

theorem permutations_cons (x : α) (xs : List α) (k : Nat) :
    permutations (x :: xs) (k + 1 : Nat) =
      if k = xs.length then [x :: xs]
      else (permutations xs k).map (x :: ·) ++ permutations xs (k + 1 : Nat) := by
  have positive : ¬ ((k + 1 : Nat) : Number) ≤ 0 := by
    rw [not_le]
    exact_mod_cast Nat.succ_pos k
  have pred : ((k + 1 : Nat) : Number) - 1 = (k : Number) := by
    push_cast
    ring
  have whole : ((k + 1 : Nat) : Number) = (x :: xs).length ↔ k = xs.length := by
    rw [List.length_cons]
    constructor
    · intro same
      exact Nat.succ_injective (by exact_mod_cast same)
    · rintro rfl
      rfl
  rw [permutations, if_neg positive]
  by_cases long : xs.length < k
  · -- Both sides are empty.
    have beyond : ((k + 1 : Nat) : Number) > (x :: xs).length := by
      rw [List.length_cons]
      exact_mod_cast Nat.succ_lt_succ long
    rw [if_pos beyond, if_neg (by omega), permutations_of_length_lt long,
      permutations_of_length_lt (by omega)]
    rfl
  · have within : ¬ ((k + 1 : Nat) : Number) > (x :: xs).length := by
      rw [List.length_cons, gt_iff_lt, not_lt]
      exact_mod_cast Nat.succ_le_succ (not_lt.mp long)
    rw [if_neg within]
    simp only [whole, pred]

/-- Up to order these are the subsequences of a length. -/
theorem permutations_perm (xs : List α) (k : Nat) :
    (permutations xs k).Perm (List.sublistsLen k xs) := by
  induction xs generalizing k with
  | nil =>
    cases k with
    | zero => rfl
    | succ k => rw [permutations_of_length_lt (Nat.succ_pos k), List.sublistsLen_succ_nil]
  | cons x xs ih =>
    cases k with
    | zero =>
      rw [Nat.cast_zero, permutations_zero, List.sublistsLen_zero]
    | succ k =>
      rw [permutations_cons]
      by_cases whole : k = xs.length
      · have all : List.sublistsLen (k + 1) (x :: xs) = [x :: xs] := by
          rw [whole]
          exact List.sublistsLen_length (x :: xs)
        rw [if_pos whole, all]
      · rw [if_neg whole, List.sublistsLen_succ_cons]
        refine List.perm_append_comm.trans ?_
        exact (ih (k + 1)).append ((ih k).map _)

theorem permutations_map (f : α → β) (xs : List α) (k : Nat) :
    permutations (xs.map f) k = (permutations xs k).map (List.map f) := by
  induction xs generalizing k with
  | nil =>
    cases k with
    | zero => rfl
    | succ k =>
      rw [List.map_nil, permutations_of_length_lt (Nat.succ_pos k),
        permutations_of_length_lt (Nat.succ_pos k)]
      rfl
  | cons x xs ih =>
    cases k with
    | zero => rw [Nat.cast_zero, permutations_zero, permutations_zero]; rfl
    | succ k =>
      rw [List.map_cons, permutations_cons, permutations_cons, List.length_map]
      by_cases whole : k = xs.length
      · rw [if_pos whole, if_pos whole]
        rfl
      · rw [if_neg whole, if_neg whole, ih, ih, List.map_append, List.map_map, List.map_map]
        rfl

/-- The results are given by sets of positions, each in order, every set of `k` positions once. -/
def Enumerates (xs : List α) (k : Nat) (results : List (List α)) : Prop :=
  ∃ positions : List (List (Fin xs.length)), results = positions.map (List.map xs.get) ∧
    positions.Nodup ∧ (∀ p, p ∈ positions ↔ p.length = k ∧ p.Pairwise (· < ·)) ∧
    positions.length = xs.length.choose k

theorem sublist_finRange {n : Nat} {p : List (Fin n)} :
    p.Sublist (List.finRange n) ↔ p.Pairwise (· < ·) := by
  have increasing : (List.finRange n).Pairwise (· < ·) := List.pairwise_lt_finRange n
  constructor
  · exact fun sub => increasing.sublist sub
  · intro ordered
    have nodup : p.Nodup := ordered.imp fun less => less.ne
    have sub : p.Subperm (List.finRange n) := nodup.subperm fun i _ => List.mem_finRange i
    exact List.sublist_of_subperm_of_pairwise sub ordered increasing

theorem permutations_enumerates (xs : List α) (k : Nat) : Enumerates xs k (permutations xs k) := by
  refine ⟨permutations (List.finRange xs.length) k, ?_, ?_, ?_, ?_⟩
  · rw [← permutations_map, List.map_get_finRange]
  · have nodup : (List.sublistsLen k (List.finRange xs.length)).Nodup :=
      List.nodup_sublistsLen k (List.nodup_finRange _)
    exact (permutations_perm _ k).nodup_iff.mpr nodup
  · intro p
    rw [(permutations_perm _ k).mem_iff, List.mem_sublistsLen, sublist_finRange, and_comm]
  · rw [(permutations_perm _ k).length_eq, List.length_sublistsLen, List.length_finRange]

end Enumeration

/-! ## The attempts -/

def availableCommits (group : GroupPackage) (peers : Peers) : List Commit :=
  group.commits.filter fun c => (truthy (peers.entry (c.idx - 1))).isSome

/-- The sets that `racePermutations` tries, the one at place `i` after `i` seconds. -/
def racePermutations (group : GroupPackage) (peers : Peers) : Except String (List (List Commit)) :=
  if (availableCommits group peers).length < group.threshold then .error "Not enough available peers"
  else .ok (permutations (availableCommits group peers) group.threshold)

inductive Attempt (T : Type) where
  | delayed
  | running
  | fulfilled (result : T)
  | rejected
deriving DecidableEq

/-- The attempts with the places of those whose set was tried, oldest first, and what the race
has returned. -/
structure Race (T : Type) where
  attempts : List (Attempt T)
  tried : List Nat
  outcome : Option (Option T)

section Race

variable {T : Type}

/-- The first attempt is not delayed.  `Promise.any` of no promise is rejected. -/
def Race.start (T : Type) : Nat → Race T
  | 0 => { attempts := [], tried := [], outcome := some none }
  | n + 1 => { attempts := .running :: List.replicate n .delayed, tried := [0], outcome := none }

/-- A delay is over, or what was tried has ended. -/
inductive RaceEvent (T : Type) where
  | elapse (i : Nat)
  | settle (i : Nat) (result : Option T)

/-- `controller.abort()`: the delays are rejected. -/
def Attempt.abort : Attempt T → Attempt T
  | .delayed => .rejected
  | attempt => attempt

def Race.step (race : Race T) : RaceEvent T → Option (Race T)
  | .elapse i =>
    match race.attempts[i]? with
    | some .delayed =>
      some { race with attempts := race.attempts.set i .running, tried := race.tried ++ [i] }
    | _ => none
  | .settle i (some result) =>
    match race.attempts[i]?, race.outcome with
    | some .running, none =>
      some { race with
        attempts := (race.attempts.set i (.fulfilled result)).map Attempt.abort
        outcome := some (some result) }
    | some .running, some _ =>
      some { race with attempts := race.attempts.set i (.fulfilled result) }
    | _, _ => none
  | .settle i none =>
    match race.attempts[i]?, race.outcome with
    | some .running, none =>
      let attempts := race.attempts.set i .rejected
      let failed := attempts.all fun attempt => match attempt with
        | .rejected => true
        | _ => false
      some { race with attempts, outcome := if failed then some none else none }
    | some .running, some _ => some { race with attempts := race.attempts.set i .rejected }
    | _, _ => none

def Race.run (race : Race T) : List (RaceEvent T) → Option (Race T)
  | [] => some race
  | event :: events => (race.step event).bind fun race => race.run events

/-- No set is tried twice.  Until the race has returned, a set that was not tried is tried as soon
as its delay is over; and none is left out if the race returns `undefined`, or once no delay is
left to be over and no attempt has been fulfilled. -/
structure Race.Fair (n : Nat) (race : Race T) : Prop where
  once : race.tried.Nodup
  bound : ∀ i ∈ race.tried, i < n
  pending : race.outcome = none → ∀ i < n, i ∉ race.tried →
    ∃ next, race.step (.elapse i) = some next ∧ next.tried = race.tried ++ [i]
  all : race.outcome = some none → ∀ i < n, i ∈ race.tried
  complete : (∀ i, race.step (.elapse i) = none) →
    (∀ result, race.outcome ≠ some (some result)) → ∀ i < n, i ∈ race.tried

/-- What is not delayed was tried, unless the race was over before. -/
structure Race.Going (n : Nat) (race : Race T) : Prop where
  length : race.attempts.length = n
  once : race.tried.Nodup
  bound : ∀ i ∈ race.tried, i < n
  fresh : ∀ i : Nat, race.attempts[i]? = some .delayed → i ∉ race.tried ∧ race.outcome = none
  reached : ∀ i < n, race.attempts[i]? ≠ some Attempt.delayed →
    i ∈ race.tried ∨ ∃ result, race.outcome = some (some result)
  failed : race.outcome = some none → ∀ i : Nat, race.attempts[i]? ≠ some Attempt.delayed

theorem Race.going_start (n : Nat) : (Race.start T n).Going n := by
  cases n with
  | zero => exact ⟨rfl, List.nodup_nil, nofun, nofun, nofun, nofun⟩
  | succ n =>
    refine ⟨?_, List.nodup_singleton 0, ?_, ?_, ?_, nofun⟩
    · rw [Race.start, List.length_cons, List.length_replicate]
    · intro i member
      rw [List.mem_singleton.mp member]
      exact Nat.succ_pos n
    · intro i delayed
      cases i with
      | zero => cases delayed
      | succ i => exact ⟨by simp [Race.start], rfl⟩
    · intro i bound running
      cases i with
      | zero => exact .inl (by simp [Race.start])
      | succ i =>
        refine absurd ?_ running
        have place : i < n := by omega
        simp [Race.start, place]

/-- An attempt that was running has ended. -/
theorem Race.Going.settle {n : Nat} {race : Race T} (going : race.Going n) {i : Nat} {last : Attempt T}
    (running : race.attempts[i]? = some .running) (ended : last ≠ .delayed) {outcome : Option (Option T)}
    (kept : outcome = race.outcome ∨ race.outcome = none ∧
      ∀ j : Nat, (race.attempts.set i last)[j]? ≠ some Attempt.delayed) :
    Race.Going n { race with attempts := race.attempts.set i last, outcome } := by
  have other : ∀ {j : Nat}, (race.attempts.set i last)[j]? = some Attempt.delayed →
      race.attempts[j]? = some Attempt.delayed := by
    intro j delayed
    rw [List.getElem?_set] at delayed
    split at delayed
    · split at delayed
      · exact absurd (Option.some.inj delayed) ended
      · cases delayed
    · exact delayed
  refine ⟨by rw [List.length_set]; exact going.length, going.once, going.bound, ?_, ?_, ?_⟩
  · intro j delayed
    obtain rfl | ⟨_, none_⟩ := kept
    · exact going.fresh j (other delayed)
    · exact absurd delayed (none_ j)
  · intro j bound undelayed
    have before : j ∈ race.tried ∨ ∃ result, race.outcome = some (some result) := by
      refine going.reached j bound fun delayed => undelayed ?_
      have differs : i ≠ j := by
        rintro rfl
        rw [running] at delayed
        cases delayed
      rw [List.getElem?_set_ne differs]
      exact delayed
    obtain tried | ⟨result, decided⟩ := before
    · exact .inl tried
    · obtain rfl | ⟨undecided, _⟩ := kept
      · exact .inr ⟨result, decided⟩
      · cases undecided.symm.trans decided
  · intro failed j delayed
    obtain rfl | ⟨_, none_⟩ := kept
    · exact going.failed failed j (other delayed)
    · exact none_ j delayed

theorem Race.Going.step {n : Nat} {race race' : Race T} (going : race.Going n) {event : RaceEvent T}
    (step : race.step event = some race') : race'.Going n := by
  cases event with
  | elapse i =>
    simp only [Race.step] at step
    split at step
    next delayed =>
      cases step
      obtain ⟨untried, undecided⟩ := going.fresh i delayed
      have place : i < race.attempts.length := (List.getElem?_eq_some_iff.mp delayed).1
      refine ⟨?_, ?_, ?_, ?_, ?_, ?_⟩
      · rw [List.length_set]
        exact going.length
      · exact going.once.append (List.nodup_singleton i) (by simpa using untried)
      · intro j member
        obtain earlier | now := List.mem_append.mp member
        · exact going.bound j earlier
        · rw [List.mem_singleton.mp now, ← going.length]
          exact place
      · intro j later
        by_cases same : i = j
        · subst same
          rw [List.getElem?_set_self place] at later
          cases later
        · rw [List.getElem?_set_ne same] at later
          refine ⟨?_, undecided⟩
          simpa [Ne.symm same] using (going.fresh j later).1
      · intro j bound undelayed
        by_cases same : i = j
        · exact .inl (by simp [same])
        · rw [List.getElem?_set_ne same] at undelayed
          obtain tried | decided := going.reached j bound undelayed
          · exact .inl (List.mem_append_left _ tried)
          · exact .inr decided
      · intro failed
        cases undecided.symm.trans failed
    · cases step
  | settle i result =>
    cases result with
    | some result =>
      simp only [Race.step] at step
      split at step
      next running undecided =>
        cases step
        -- No attempt is delayed any more.
        have settled : ∀ j : Nat, ((race.attempts.set i (.fulfilled result)).map Attempt.abort)[j]? ≠
            some Attempt.delayed := by
          intro j
          rw [List.getElem?_map]
          cases (race.attempts.set i (.fulfilled result))[j]? with
          | none => exact nofun
          | some attempt => cases attempt <;> exact nofun
        refine ⟨?_, going.once, going.bound, ?_, ?_, nofun⟩
        · rw [List.length_map, List.length_set]
          exact going.length
        · exact fun j delayed => absurd delayed (settled j)
        · exact fun j _ _ => .inr ⟨result, rfl⟩
      next running decided =>
        cases step
        exact going.settle running (show Attempt.fulfilled result ≠ .delayed from nofun) (.inl rfl)
      · cases step
    | none =>
      simp only [Race.step] at step
      split at step
      next running undecided =>
        cases step
        refine going.settle running (show (.rejected : Attempt T) ≠ .delayed from nofun) ?_
        split
        next failed =>
          refine .inr ⟨undecided, fun j delayed => ?_⟩
          have rejected := List.all_eq_true.mp failed _ (List.mem_of_getElem? delayed)
          cases rejected
        next => exact .inl undecided.symm
      next running decided =>
        cases step
        exact going.settle running (show (.rejected : Attempt T) ≠ .delayed from nofun) (.inl rfl)
      · cases step

theorem Race.Going.run {n : Nat} {race race' : Race T} (going : race.Going n)
    {events : List (RaceEvent T)} (ran : race.run events = some race') : race'.Going n := by
  induction events generalizing race with
  | nil =>
    cases ran
    exact going
  | cons event events ih =>
    rw [Race.run, Option.bind_eq_some_iff] at ran
    obtain ⟨next, step, rest⟩ := ran
    exact ih (going.step step) rest

/-- A set that was not tried is tried when its delay is over. -/
theorem Race.Going.elapse {n i : Nat} {race : Race T} (going : race.Going n)
    (open_ : ∀ result, race.outcome ≠ some (some result)) (bound : i < n) (untried : i ∉ race.tried) :
    ∃ next, race.step (.elapse i) = some next ∧ next.tried = race.tried ++ [i] := by
  by_cases delayed : race.attempts[i]? = some Attempt.delayed
  · refine ⟨{ race with
      attempts := race.attempts.set i .running, tried := race.tried ++ [i] }, ?_, rfl⟩
    rw [Race.step, delayed]
  · obtain tried | ⟨result, decided⟩ := going.reached i bound delayed
    · exact absurd tried untried
    · exact absurd decided (open_ result)

theorem Race.Going.fair {n : Nat} {race : Race T} (going : race.Going n) : race.Fair n := by
  refine ⟨going.once, going.bound, ?_, ?_, ?_⟩
  · intro undecided i bound untried
    refine going.elapse (fun result decided => ?_) bound untried
    cases undecided.symm.trans decided
  · intro failed i bound
    obtain tried | ⟨result, decided⟩ := going.reached i bound (going.failed failed i)
    · exact tried
    · cases failed.symm.trans decided
  · intro quiet open_ i bound
    by_contra untried
    obtain ⟨next, step, _⟩ := going.elapse open_ bound untried
    rw [quiet i] at step
    cases step

end Race

/-- `permutations` gives every set of `k` positions once.  A race over the available members tries
every set of threshold size, unless it has returned before, and none twice. -/
theorem permutations_exact {α T : Type} (xs : List α) (k : Nat) (group : GroupPackage) (peers : Peers) :
    Enumerates xs k (permutations xs k) ∧
      ∀ sets, group.threshold = k → racePermutations group peers = .ok sets →
        Enumerates (availableCommits group peers) k sets ∧
        ∀ (events : List (RaceEvent T)) (race : Race T),
          (Race.start T sets.length).run events = some race → race.Fair sets.length := by
  refine ⟨permutations_enumerates xs k, fun sets threshold started => ?_⟩
  rw [racePermutations, threshold] at started
  split at started
  · cases started
  · cases started
    refine ⟨permutations_enumerates _ k, fun events race ran => ?_⟩
    exact ((Race.going_start _).run ran).fair

/-- A group of three with threshold two. -/
def threeOfGroup : GroupPackage where
  commits := [1, 2, 3].map fun idx => { idx, pubkey := [], hiddenPn := [], binderPn := [] }
  groupPk := []
  threshold := 2

def threePeers : Peers where
  length := 3
  entry _ := some ['u']

theorem race_of_three : ∀ (events : List (RaceEvent Nat)) (race : Race Nat),
    (Race.start Nat 3).run events = some race → race.Fair 3 := by
  have fair := ((permutations_exact (T := Nat) [1, 2, 3] 2 threeOfGroup threePeers).2 _ rfl rfl).2
  have sets : (permutations (availableCommits threeOfGroup threePeers) threeOfGroup.threshold).length =
      3 := by decide +kernel
  rwa [sets] at fair

end Pomade.Core
