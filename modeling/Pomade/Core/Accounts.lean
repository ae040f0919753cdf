import Mathlib.Algebra.Order.Ring.Rat
import Mathlib.Data.List.Dedup
import Mathlib.Data.List.Perm.Subperm
import Mathlib.Data.List.ReduceOption
import Mathlib.Logic.Function.Basic
import Pomade.Core.Signer
import Pomade.Lib.Traverse

/-! # The options to log in

`Client._buildAccountOptions` of `client.ts`.  The items that the signers return are not checked
before they are grouped, counted and placed by index.
-/

namespace Pomade.Core

open Pomade.Lib

/-! ## Arrays -/

/-- An array of texts.  It has a property for any number that something was assigned to. -/
structure Peers where
  length : Nat
  entry : Number → Option Str

def IsIndex (i : Number) : Prop := i.den = 1 ∧ 0 ≤ i ∧ i < 2 ^ 32 - 1

instance (i : Number) : Decidable (IsIndex i) := inferInstanceAs (Decidable (_ ∧ _))

/-- `new Array(total).fill("")`, which throws for what is no length. -/
def newArray (total : Number) : Option Peers :=
  if total.den = 1 ∧ 0 ≤ total ∧ total < 2 ^ 32 then
    some {
      length := total.num.toNat
      entry := fun i => if i.den = 1 ∧ 0 ≤ i ∧ i < total then some [] else none }
  else none

/-- `peers[i] = url` -/
def Peers.assign (peers : Peers) (i : Number) (url : Str) : Peers where
  length := if IsIndex i then max peers.length (i.num.toNat + 1) else peers.length
  entry := Function.update peers.entry i (some url)

/-! ## Messages -/

/-- What is read of a session item. -/
structure SessionItem where
  pubkey : Str
  client : Str
  threshold : Number
  total : Number
  idx : Number
deriving DecidableEq

/-- The response of `login/start` or `recovery/start`. -/
structure StartResponse where
  ok : Bool
  items : Option (List SessionItem)
deriving DecidableEq

structure Message where
  url : Str
  res : Option StartResponse
deriving DecidableEq

structure AccountItem where
  pubkey : Str
  client : Str
  url : Str
  idx : Number
  total : Number
  threshold : Number
deriving DecidableEq

structure AccountOption where
  pubkey : Str
  client : Str
  peers : Peers

structure ClientOptionsResult where
  ok : Bool
  options : List AccountOption
  messages : List Message
  clientSecret : Str

def Message.accountItems (m : Message) : List AccountItem :=
  ((m.res.bind StartResponse.items).getD []).map fun item =>
    { pubkey := item.pubkey, client := item.client, url := m.url, idx := item.idx,
      total := item.total, threshold := item.threshold }

/-- `${item.pubkey}:${item.client}` -/
def accountKey (pubkey client : Str) : Str := pubkey ++ [':'] ++ client

def AccountItem.key (item : AccountItem) : Str := accountKey item.pubkey item.client

/-- An account is one client of one user.  Two accounts can have one key. -/
def AccountItem.IsOf (item : AccountItem) (pubkey client : Str) : Prop :=
  item.pubkey = pubkey ∧ item.client = client

instance (item : AccountItem) (pubkey client : Str) : Decidable (item.IsOf pubkey client) :=
  inferInstanceAs (Decidable (_ ∧ _))

/-- `groupBy` of `@welshman/lib`. -/
class Grouping where
  groupBy : (AccountItem → Str) → List AccountItem → List (Str × List AccountItem)

export Grouping (groupBy)

/-- The groups are those of the keys that occur, each with its items in order. -/
class LawfulGrouping [Grouping] : Prop where
  group (f : AccountItem → Str) (items : List AccountItem) (key : Str) (group : List AccountItem) :
    (key, group) ∈ groupBy f items ↔ group = items.filter (fun item => f item = key) ∧ group ≠ []

/-! ## Options -/

section Options

variable [Grouping]

/-- The option of a group: none, an option, or an error that `new Array` throws. -/
def accountOption (groupItems : List AccountItem) : Except Unit (Option AccountOption) :=
  match groupItems with
  | [] => .ok none
  | first :: _ =>
    if first.threshold = 0 ∨ groupItems.length < first.threshold then .ok none
    else
      match newArray first.total with
      | none => .error ()
      | some peers => .ok (some {
          pubkey := first.pubkey
          client := first.client
          peers := groupItems.foldl (fun peers item => peers.assign (item.idx - 1) item.url) peers })

def buildAccountOptions (clientSecret : Str) (messages : List Message) :
    Except Unit ClientOptionsResult := do
  let items := messages.flatMap Message.accountItems
  let options ← (groupBy AccountItem.key items).mapM fun group => accountOption group.2
  let options := options.reduceOption
  let ok := messages.any (fun m => (m.res.map StartResponse.ok).getD false) && options.length > 0
  return { ok, options, messages, clientSecret }

end Options

/-! ## When an option is usable -/

/-- The index `i` has a url in an option. -/
def Peers.Lists (peers : Peers) (i : Number) (url : Str) : Prop :=
  url ≠ [] ∧ peers.entry (i - 1) = some url

/-- A whole number from 1 to the total. -/
def InRange (total i : Number) : Prop := i.den = 1 ∧ 1 ≤ i ∧ i ≤ total

/-- An option lists at least as many indices as the threshold, each in the range of the group
and with a url that the index was reported by.  The threshold and the total are those of the
first item of the account. -/
def Usable (items : List AccountItem) (option : AccountOption) : Prop :=
  let reported := items.filter fun item => item.IsOf option.pubkey option.client
  ∃ first, reported.head? = some first ∧
    (∃ indices : List Number, indices.Nodup ∧ first.threshold ≤ indices.length ∧
      ∀ i ∈ indices, ∃ url, option.peers.Lists i url) ∧
    ∀ i url, option.peers.Lists i url →
      InRange first.total i ∧ ∃ item ∈ reported, item.idx = i ∧ item.url = url

/-- The last item with an index has a url. -/
def Names (groupItems : List AccountItem) (i : Number) (url : Str) : Prop :=
  url ≠ [] ∧ ∃ item, groupItems.reverse.find? (fun item => item.idx = i) = some item ∧ item.url = url

/-- The indices that are named are in range, and there are enough of them; each is named by a url
that reported it for the account of the first item. -/
structure Numbered (groupItems : List AccountItem) (first : AccountItem) : Prop where
  enough : ∃ indices : List Number, indices.Nodup ∧ first.threshold ≤ indices.length ∧
    ∀ i ∈ indices, ∃ url, Names groupItems i url
  inRange : ∀ i url, Names groupItems i url → InRange first.total i
  own : ∀ i url, Names groupItems i url →
    ∃ item ∈ groupItems, item.IsOf first.pubkey first.client ∧ item.idx = i ∧ item.url = url

/-- The group of a key with at least as many items as its threshold, which is not zero. -/
def Counted (items : List AccountItem) (key : Str) (first : AccountItem) : Prop :=
  let groupItems := items.filter fun item => item.key = key
  groupItems.head? = some first ∧ first.threshold ≠ 0 ∧ first.threshold ≤ groupItems.length

section Proofs

theorem entry_foldl_assign (groupItems : List AccountItem) (peers : Peers) (i : Number) :
    (groupItems.foldl (fun peers item => peers.assign (item.idx - 1) item.url) peers).entry (i - 1) =
      match groupItems.reverse.find? (fun item => item.idx = i) with
      | some item => some item.url
      | none => peers.entry (i - 1) := by
  induction groupItems using List.reverseRecOn with
  | nil => rfl
  | append_singleton groupItems item ih =>
    rw [List.foldl_concat, List.reverse_concat, List.find?_cons, Peers.assign]
    by_cases same : item.idx = i
    · simp [same]
    · have other : i - 1 ≠ item.idx - 1 := fun equal => same (sub_left_inj.mp equal).symm
      simp only [same, decide_false]
      rw [Function.update_of_ne other, ih]

/-- A new array has no url in it. -/
theorem newArray_blank {total : Number} {peers : Peers} (new : newArray total = some peers)
    (i : Number) : peers.entry i = none ∨ peers.entry i = some [] := by
  unfold newArray at new
  split at new
  · cases new
    dsimp only
    split
    · exact .inr rfl
    · exact .inl rfl
  · cases new

/-- What the array of an option lists is what the items name. -/
theorem lists_iff_names {groupItems : List AccountItem} {total : Number} {peers : Peers}
    (new : newArray total = some peers) (i : Number) (url : Str) :
    (groupItems.foldl (fun peers item => peers.assign (item.idx - 1) item.url) peers).Lists i url ↔
      Names groupItems i url := by
  rw [Peers.Lists, Names, entry_foldl_assign]
  refine and_congr_right fun nonempty => ?_
  cases groupItems.reverse.find? fun item => item.idx = i with
  | some item => simp
  | none =>
    obtain absent | blank := newArray_blank new (i - 1)
    · simp [absent]
    · simp [blank, nonempty.symm]

variable {items groupItems : List AccountItem} {key : Str} {first : AccountItem} {peers : Peers}

theorem AccountItem.IsOf.key_eq {item : AccountItem} {pubkey client : Str}
    (isOf : item.IsOf pubkey client) : item.key = accountKey pubkey client := by
  rw [AccountItem.key, isOf.1, isOf.2]

/-- What an item names it has reported. -/
theorem Names.item {i : Number} {url : Str} (names : Names groupItems i url) :
    ∃ item ∈ groupItems, item.idx = i ∧ item.url = url := by
  obtain ⟨_, item, found, same⟩ := names
  refine ⟨item, List.mem_reverse.mp (List.mem_of_find?_eq_some found), ?_, same⟩
  simpa using List.find?_some found

/-- Where all items of a group are of one account, only the indices matter. -/
theorem numbered_of_alone (alone : ∀ item ∈ groupItems, item.IsOf first.pubkey first.client)
    (enough : ∃ indices : List Number, indices.Nodup ∧ first.threshold ≤ indices.length ∧
      ∀ i ∈ indices, ∃ url, Names groupItems i url)
    (inRange : ∀ i url, Names groupItems i url → InRange first.total i) :
    Numbered groupItems first := by
  refine ⟨enough, inRange, fun i url names => ?_⟩
  obtain ⟨item, member, index, same⟩ := names.item
  exact ⟨item, member, alone item member, index, same⟩

/-- The items of the account that a group is named after are those of the group. -/
theorem reported_eq (group : groupItems = items.filter fun item => item.key = key)
    (head : groupItems.head? = some first) :
    (items.filter fun item => item.IsOf first.pubkey first.client) =
      groupItems.filter fun item => item.IsOf first.pubkey first.client := by
  have member := List.mem_of_mem_head? head
  rw [group, List.mem_filter, decide_eq_true_eq] at member
  rw [group, List.filter_filter]
  refine List.filter_congr fun item _ => ?_
  rw [← Bool.decide_and, decide_eq_decide]
  refine ⟨fun isOf => ⟨isOf, ?_⟩, And.left⟩
  rw [isOf.key_eq, ← member.2]
  rfl

/-- The option of a group is usable if and only if the group is numbered well. -/
theorem usable_iff_numbered (group : groupItems = items.filter fun item => item.key = key)
    (head : groupItems.head? = some first) (new : newArray first.total = some peers) :
    Usable items { pubkey := first.pubkey, client := first.client
                   peers := groupItems.foldl (fun peers item => peers.assign (item.idx - 1) item.url) peers } ↔
      Numbered groupItems first := by
  have leads : (groupItems.filter fun item => item.IsOf first.pubkey first.client).head? =
      some first := by
    obtain ⟨rest, cons⟩ := List.head?_eq_some_iff.mp head
    rw [cons, List.filter_cons_of_pos (by simp [AccountItem.IsOf])]
    rfl
  simp only [Usable, reported_eq group head, lists_iff_names new]
  constructor
  · rintro ⟨first', head', enough, named⟩
    cases leads.symm.trans head'
    refine ⟨enough, fun i url names => (named i url names).1, fun i url names => ?_⟩
    obtain ⟨_, item, member, index, same⟩ := named i url names
    rw [List.mem_filter, decide_eq_true_eq] at member
    exact ⟨item, member.1, member.2, index, same⟩
  · intro numbered
    refine ⟨first, leads, numbered.enough, fun i url names => ?_⟩
    refine ⟨numbered.inRange i url names, ?_⟩
    obtain ⟨item, member, isOf, index, same⟩ := numbered.own i url names
    exact ⟨item, List.mem_filter.mpr ⟨member, decide_eq_true isOf⟩, index, same⟩

theorem accountOption_cons (head : groupItems.head? = some first) :
    accountOption groupItems =
      if first.threshold = 0 ∨ groupItems.length < first.threshold then .ok none
      else match newArray first.total with
        | none => .error ()
        | some peers => .ok (some {
            pubkey := first.pubkey
            client := first.client
            peers := groupItems.foldl (fun peers item => peers.assign (item.idx - 1) item.url) peers }) := by
  cases groupItems with
  | nil => cases head
  | cons item rest =>
    cases head
    rfl

theorem counted_iff (group : groupItems = items.filter fun item => item.key = key) :
    Counted items key first ↔ groupItems.head? = some first ∧
      ¬ (first.threshold = 0 ∨ groupItems.length < first.threshold) := by
  rw [Counted, group, not_or, not_lt]

end Proofs

/-! ## Exactly when all options are usable -/

section Exactness

variable [Grouping] {clientSecret : Str} {messages : List Message}

/-- The options that are built are those of the groups. -/
theorem options_of_build {result : ClientOptionsResult}
    (built : buildAccountOptions clientSecret messages = .ok result) :
    (∀ group ∈ groupBy AccountItem.key (messages.flatMap Message.accountItems),
      ∃ found, accountOption group.2 = .ok found) ∧
    ∀ option, option ∈ result.options ↔
      ∃ group ∈ groupBy AccountItem.key (messages.flatMap Message.accountItems),
        accountOption group.2 = .ok (some option) := by
  unfold buildAccountOptions at built
  dsimp only at built
  cases options : (groupBy AccountItem.key (messages.flatMap Message.accountItems)).mapM
      fun group => accountOption group.2 with
  | error e =>
    rw [options] at built
    cases built
  | ok options' =>
    rw [options] at built
    cases built
    have members := mem_of_mapM_ok options
    refine ⟨of_mapM_ok options, fun option => ?_⟩
    rw [List.reduceOption_mem_iff]
    exact members (some option)

theorem build_of_each (clientSecret : Str) (messages : List Message)
    (each : ∀ group ∈ groupBy AccountItem.key (messages.flatMap Message.accountItems),
      ∃ found, accountOption group.2 = .ok found) :
    ∃ result, buildAccountOptions clientSecret messages = .ok result := by
  obtain ⟨options, done⟩ := exists_mapM_ok each
  unfold buildAccountOptions
  dsimp only
  rw [done]
  exact ⟨_, rfl⟩

variable [LawfulGrouping]

/-- A group throws only if it is counted and its total is no length. -/
theorem accountOption_total {items : List AccountItem} {key : Str} {groupItems : List AccountItem}
    (group : (key, groupItems) ∈ groupBy AccountItem.key items)
    (lengths : ∀ first, Counted items key first → (newArray first.total).isSome = true) :
    ∃ found, accountOption groupItems = .ok found := by
  obtain ⟨same, nonempty⟩ := (LawfulGrouping.group _ _ _ _).mp group
  obtain ⟨first, rest, cons⟩ := List.exists_cons_of_ne_nil nonempty
  have head : groupItems.head? = some first := by rw [cons]; rfl
  rw [accountOption_cons head]
  split
  · exact ⟨none, rfl⟩
  next counted =>
    obtain ⟨peers, new⟩ := Option.isSome_iff_exists.mp
      (lengths first ((counted_iff same).mpr ⟨head, counted⟩))
    rw [new]
    exact ⟨_, rfl⟩

/-- An option comes from a group that is counted. -/
theorem counted_of_option {items : List AccountItem} {key : Str} {groupItems : List AccountItem}
    {option : AccountOption} (group : (key, groupItems) ∈ groupBy AccountItem.key items)
    (built : accountOption groupItems = .ok (some option)) :
    ∃ first, Counted items key first ∧
      (Usable items option ↔ Numbered (items.filter fun item => item.key = key) first) := by
  obtain ⟨same, nonempty⟩ := (LawfulGrouping.group _ _ _ _).mp group
  obtain ⟨first, rest, cons⟩ := List.exists_cons_of_ne_nil nonempty
  have head : groupItems.head? = some first := by rw [cons]; rfl
  rw [accountOption_cons head] at built
  split at built
  · cases built
  next counted =>
    cases new : newArray first.total with
    | none =>
      rw [new] at built
      cases built
    | some peers =>
      rw [new] at built
      cases built
      refine ⟨first, (counted_iff same).mpr ⟨head, counted⟩, ?_⟩
      rw [← same]
      exact usable_iff_numbered same head new

/-- Every option that is built is usable if and only if in every group that is counted, enough
indices are named, all of them in range and by signers that reported them for the account of the
first item; where `new Array` throws there is no option. -/
theorem options_usable_iff (clientSecret : Str) (messages : List Message) :
    let items := messages.flatMap Message.accountItems
    (∀ result, buildAccountOptions clientSecret messages = .ok result →
      ∀ option ∈ result.options, Usable items option) ↔
    ((∀ key first, Counted items key first → (newArray first.total).isSome = true) →
      ∀ key first, Counted items key first →
        Numbered (items.filter fun item => item.key = key) first) := by
  intro items
  constructor
  · intro usable lengths key first counted
    have head := counted.1
    have group : (key, items.filter fun item => item.key = key) ∈ groupBy AccountItem.key items := by
      refine (LawfulGrouping.group _ _ _ _).mpr ⟨rfl, ?_⟩
      intro empty
      rw [empty] at head
      cases head
    obtain ⟨result, built⟩ := build_of_each clientSecret messages
      fun group member => accountOption_total member fun first => lengths group.1 first
    obtain ⟨peers, new⟩ := Option.isSome_iff_exists.mp (lengths key first counted)
    have option := accountOption_cons head
    rw [if_neg ((counted_iff rfl).mp counted).2, new] at option
    have listed := ((options_of_build built).2 _).mpr ⟨_, group, option⟩
    exact (usable_iff_numbered rfl head new).mp (usable result built _ listed)
  · intro numbered result built option member
    obtain ⟨each, options⟩ := options_of_build built
    obtain ⟨⟨key, groupItems⟩, group, done⟩ := (options option).mp member
    obtain ⟨first, counted, usable⟩ := counted_of_option group done
    refine usable.mpr (numbered ?_ key first counted)
    intro key first counted
    have head := counted.1
    have group : (key, items.filter fun item => item.key = key) ∈ groupBy AccountItem.key items := by
      refine (LawfulGrouping.group _ _ _ _).mpr ⟨rfl, ?_⟩
      intro empty
      rw [empty] at head
      cases head
    obtain ⟨found, done⟩ := each _ group
    rw [accountOption_cons head, if_neg ((counted_iff rfl).mp counted).2] at done
    cases new : newArray first.total with
    | none =>
      rw [new] at done
      cases done
    | some peers => rfl

end Exactness

/-! ## Two items with one index -/

namespace Accounts.Sample

@[reducible] def grouping : Grouping where
  groupBy f items := (items.map f).dedup.map fun key => (key, items.filter fun item => f item = key)

attribute [local instance] grouping

theorem lawfulGrouping : LawfulGrouping where
  group f items key group := by
    have occurs : key ∈ items.map f ↔ items.filter (fun item => f item = key) ≠ [] := by
      simp [List.filter_eq_nil_iff]
    show (key, group) ∈ (items.map f).dedup.map _ ↔ _
    rw [List.mem_map]
    constructor
    · rintro ⟨key', member, same⟩
      cases same
      exact ⟨rfl, occurs.mp (List.mem_dedup.mp member)⟩
    · rintro ⟨rfl, nonempty⟩
      exact ⟨key, List.mem_dedup.mpr (occurs.mpr nonempty), rfl⟩

attribute [local instance] lawfulGrouping

/-- A signer that reports an index of a group of two with threshold two. -/
def report (url : Str) (idx : Number) : Message where
  url := url
  res := some {
    ok := true
    items := some [{ pubkey := ['p'], client := ['c'], threshold := 2, total := 2, idx }] }

def item (url : Str) (idx : Number) : AccountItem where
  pubkey := ['p']
  client := ['c']
  url := url
  idx := idx
  total := 2
  threshold := 2

/-- Both signers report the index 1. -/
theorem repeated_index_unusable :
    ∃ result option, buildAccountOptions [] [report ['a'] 1, report ['b'] 1] = .ok result ∧
      option ∈ result.options ∧
      ¬ Usable ([report ['a'] 1, report ['b'] 1].flatMap Message.accountItems) option := by
  have same : [item ['a'] 1, item ['b'] 1] =
      ([report ['a'] 1, report ['b'] 1].flatMap Message.accountItems).filter
        fun item => item.key = "p:c".toList := by decide +kernel
  refine ⟨_, _, rfl, List.mem_singleton.mpr rfl, fun usable => ?_⟩
  obtain ⟨⟨indices, nodup, enough, named⟩, _, _⟩ := (usable_iff_numbered same rfl rfl).mp usable
  -- Only the index 1 is named.
  have one : ∀ i ∈ indices, i = 1 := by
    intro i member
    obtain ⟨url, _, found, first, _⟩ := named i member
    have listed := List.mem_reverse.mp (List.mem_of_find?_eq_some first)
    have index : found.idx = i := by simpa using List.find?_some first
    rw [← index]
    simp only [List.mem_cons, List.not_mem_nil, or_false] at listed
    obtain rfl | rfl := listed
    · rfl
    · rfl
  have short : indices.length ≤ 1 :=
    (nodup.subperm fun i member => List.mem_singleton.mpr (one i member)).length_le
  have two : (2 : Number) ≤ indices.length := enough
  have few : (indices.length : Number) ≤ 1 := by exact_mod_cast short
  exact absurd (two.trans few) (by norm_num)

/-- The only group has two indices. -/
theorem numbered_distinct {key : Str} {first : AccountItem}
    (counted : Counted [item ['a'] 1, item ['b'] 2] key first) :
    Numbered ([item ['a'] 1, item ['b'] 2].filter fun item => item.key = key) first := by
  have keys : ∀ item' ∈ [item ['a'] 1, item ['b'] 2], item'.key = "p:c".toList := by decide +kernel
  obtain ⟨head, _⟩ := counted
  by_cases named : "p:c".toList = key
  case neg =>
    have none : ([item ['a'] 1, item ['b'] 2].filter fun item => item.key = key) = [] :=
      List.filter_eq_nil_iff.mpr fun item' listed => by simpa [keys item' listed] using named
    rw [none] at head
    cases head
  have all : ([item ['a'] 1, item ['b'] 2].filter fun item => item.key = key) =
      [item ['a'] 1, item ['b'] 2] :=
    List.filter_eq_self.mpr fun item' listed => by simpa [keys item' listed] using named
  rw [all] at head ⊢
  cases head
  refine numbered_of_alone (by decide +kernel) ⟨[1, 2], by decide +kernel, by decide +kernel, ?_⟩ ?_
  · intro i listed
    obtain rfl | rfl : i = 1 ∨ i = 2 := by simpa using listed
    · exact ⟨['a'], List.cons_ne_nil _ _, item ['a'] 1, by decide +kernel, rfl⟩
    · exact ⟨['b'], List.cons_ne_nil _ _, item ['b'] 2, by decide +kernel, rfl⟩
  · intro i url names
    obtain ⟨item', listed, rfl, _⟩ := names.item
    have inRange : ∀ item' ∈ [item ['a'] 1, item ['b'] 2],
        InRange (item ['a'] 1).total item'.idx := by
      simp [InRange, item]
    exact inRange item' listed

/-- With two indices both signers can be used. -/
theorem distinct_indices_usable :
    ∃ result option, buildAccountOptions [] [report ['a'] 1, report ['b'] 2] = .ok result ∧
      option ∈ result.options ∧
      Usable ([report ['a'] 1, report ['b'] 2].flatMap Message.accountItems) option := by
  have items : [report ['a'] 1, report ['b'] 2].flatMap Message.accountItems =
      [item ['a'] 1, item ['b'] 2] := by decide +kernel
  have usable := (options_usable_iff [] [report ['a'] 1, report ['b'] 2]).mpr
    fun _ key first counted => by
      rw [items] at counted ⊢
      exact numbered_distinct counted
  exact ⟨_, _, rfl, List.mem_singleton.mpr rfl, usable _ rfl _ (List.mem_singleton.mpr rfl)⟩

end Accounts.Sample

end Pomade.Core
