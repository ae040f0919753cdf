import Pomade.Core.Signer
import Pomade.Lib.Positions

/-! # Registration of a client

`Client.register` of `client.ts`.  One loop for each share takes urls from a queue that all of
them share, and posts the share until a signer takes it or the queue is empty.  The answers come
in any order.  Those of the shares that were taken are put together by index.
-/

namespace Pomade.Core

open Pomade.Lib

/-! ## Posts -/

structure RegisterResponse where
  ok : Bool
  message : Str
deriving DecidableEq

/-- What `rpc.post` returns; there is no response if anything has failed. -/
structure RegisterMessage where
  url : Str
  res : Option RegisterResponse
deriving DecidableEq

def RegisterMessage.ok (m : RegisterMessage) : Bool := m.res.any RegisterResponse.ok

/-- A post to `/register`. -/
structure RegisterPost where
  url : Str
  share : StoredShare
  group : GroupPackage
  recovery : Bool
deriving DecidableEq

structure ClientOptions where
  peers : List Str
  group : GroupPackage
  secret : Str

structure RegisterResult where
  ok : Bool
  messages : List (Option RegisterMessage)
  clientOptions : ClientOptions

/-- What is used of `@frostr/bifrost` and of `@welshman/lib`. -/
class RegisterPackages where
  generateDealerPkg (threshold n : Number) (secrets : List Str) :
    Except String (GroupPackage × List StoredShare)
  shuffle : List Str → List Str
  sortBy : (Nat × Str → Nat) → List (Nat × Str) → List (Nat × Str)

export RegisterPackages (generateDealerPkg shuffle sortBy)

/-- The shares of a dealer have the indices 1, 2 and so on; the two others permute a list. -/
class LawfulRegisterPackages [RegisterPackages] : Prop where
  dealt {threshold n : Number} {secrets : List Str} {group : GroupPackage}
    {shares : List StoredShare} : generateDealerPkg threshold n secrets = .ok (group, shares) →
      ∀ (i : Nat) (share : StoredShare), shares[i]? = some share → share.idx = i + 1
  shuffled (urls : List Str) : (shuffle urls).Perm urls
  permuted (f : Nat × Str → Nat) (entries : List (Nat × Str)) : (sortBy f entries).Perm entries
  sorted (f : Nat × Str → Nat) (entries : List (Nat × Str)) :
    (sortBy f entries).Pairwise fun a b => f a ≤ f b

/-! ## The loops -/

/-- The loop of one share. -/
inductive ShareLoop where
  | fresh
  | posting (post : RegisterPost)
  | registered (message : RegisterMessage)
  | exhausted

def ShareLoop.isPosting : ShareLoop → Bool
  | .posting _ => true
  | _ => false

/-- The message a loop returns. -/
def ShareLoop.message : ShareLoop → Option RegisterMessage
  | .registered message => some message
  | _ => none

/-- `Map.set` -/
def setEntry (entries : List (Nat × Str)) (key : Nat) (value : Str) : List (Nat × Str) :=
  if entries.any fun entry => entry.1 = key then
    entries.map fun entry => if entry.1 = key then (key, value) else entry
  else entries ++ [(key, value)]

structure Registration where
  n : Number
  group : GroupPackage
  shares : List StoredShare
  recovery : Bool
  secret : Str
  remainingSignerUrls : List Str
  loops : Nat → ShareLoop
  peersByIndex : List (Nat × Str)
  /-- Everything that was posted. -/
  posts : List RegisterPost
  /-- The posts that were answered with `ok`. -/
  accepted : List RegisterPost

/-- The head of the loop of share `i`: it posts to the next url, or ends. -/
def Registration.next (s : Registration) (i : Nat) (share : StoredShare) : Registration :=
  match s.remainingSignerUrls with
  | [] => { s with loops := Function.update s.loops i .exhausted }
  | url :: rest =>
    let post := { url, share, group := s.group, recovery := s.recovery }
    { s with
      remainingSignerUrls := rest
      loops := Function.update s.loops i (.posting post)
      posts := post :: s.posts }

/-- Each loop runs up to its first post, one after the other. -/
def Registration.begin (s : Registration) : Registration :=
  s.shares.zipIdx.foldl (fun s share => s.next share.2 share.1) s

/-- The answer to the post of share `i` comes in. -/
def Registration.step (s : Registration) (answer : Nat × Option RegisterResponse) :
    Option Registration :=
  match s.loops answer.1 with
  | .posting post =>
    let message := { url := post.url, res := answer.2 }
    if message.ok then
      some { s with
        loops := Function.update s.loops answer.1 (.registered message)
        peersByIndex := setEntry s.peersByIndex answer.1 post.url
        accepted := post :: s.accepted }
    else some (s.next answer.1 post.share)
  | _ => none

def Registration.run (s : Registration) (answers : List (Nat × Option RegisterResponse)) :
    Option Registration :=
  answers.foldlM Registration.step s

section Register

variable [RegisterPackages]

def register (signerUrls : List Str) (threshold n : Number) (userSecret secret : Str)
    (recovery : Bool) : Except String Registration :=
  if (signerUrls.length : Number) < n then .error "Not enough signer URLs available"
  else if threshold ≤ 0 then .error "Threshold must be greater than 0"
  else do
    let (group, shares) ← generateDealerPkg threshold n [userSecret]
    return Registration.begin {
      n, group, shares, recovery, secret
      remainingSignerUrls := shuffle signerUrls
      loops := fun _ => .fresh
      peersByIndex := []
      posts := []
      accepted := [] }

/-- What `register` returns once every loop has ended. -/
def Registration.result (s : Registration) : Option RegisterResult :=
  if (List.range s.shares.length).any fun i => (s.loops i).isPosting then none
  else some {
    ok := (s.peersByIndex.length : Number) = s.n
    messages := (List.range s.shares.length).map fun i => (s.loops i).message
    clientOptions :=
      { peers := (sortBy Prod.fst s.peersByIndex).map Prod.snd
        group := s.group
        secret := s.secret } }

end Register

/-! ## What is wanted -/

/-- No entry, or an empty one. -/
def IsEmptyAt (peers : List Str) (i : Nat) : Prop := peers[i]? = none ∨ peers[i]? = some []

/-- Position `i` holds the url that has taken the share with index `i + 1`, and nothing if none
has. -/
def Aligned (peers : List Str) (accepted : List RegisterPost) : Prop :=
  ∀ i : Nat,
    (∀ post ∈ accepted, post.share.idx = i + 1 → peers[i]? = some post.url) ∧
      ((∀ post ∈ accepted, post.share.idx ≠ i + 1) → IsEmptyAt peers i)

/-- A signer takes the share at position `i`. -/
def Taken (answers : List (Nat × Option RegisterResponse)) (i : Nat) : Prop :=
  ∃ response, (i, some response) ∈ answers ∧ response.ok = true

/-- If a share is taken, so is every share before it. -/
def NoGap (answers : List (Nat × Option RegisterResponse)) : Prop :=
  ∀ i j, i < j → Taken answers j → Taken answers i

/-! ## The invariant -/

/-- Where a url is: posted to once, or still in the queue. -/
structure Registration.Sound (s : Registration) : Prop where
  urls : (s.posts.map RegisterPost.url ++ s.remainingSignerUrls).Nodup
  posting (i : Nat) {post : RegisterPost} (loop : s.loops i = .posting post) :
    post ∈ s.posts ∧ post.share.idx = i + 1 ∧ i ∉ s.peersByIndex.map Prod.fst
  keys : (s.peersByIndex.map Prod.fst).Nodup
  entries (i : Nat) (url : Str) : (i, url) ∈ s.peersByIndex ↔
    ∃ post ∈ s.accepted, post.share.idx = i + 1 ∧ post.url = url
  accepted {post : RegisterPost} (taken : post ∈ s.accepted) :
    post ∈ s.posts ∧ ∃ i : Nat, post.share.idx = i + 1

theorem setEntry_of_new {entries : List (Nat × Str)} {key : Nat}
    (new : key ∉ entries.map Prod.fst) (value : Str) :
    setEntry entries key value = entries ++ [(key, value)] := by
  have none : (entries.any fun entry => entry.1 = key) = false := by
    rw [List.any_eq_false]
    intro entry member
    have other : entry.1 ≠ key := fun same => new (same ▸ List.mem_map_of_mem member)
    simp [other]
  rw [setEntry, none]
  rfl

namespace Registration

/-- What the head of a loop does. -/
theorem next_cases (s : Registration) (i : Nat) (share : StoredShare) :
    (s.remainingSignerUrls = [] ∧
        s.next i share = { s with loops := Function.update s.loops i .exhausted }) ∨
      ∃ url rest, s.remainingSignerUrls = url :: rest ∧
        s.next i share =
          { s with
            remainingSignerUrls := rest
            loops := Function.update s.loops i
              (.posting { url, share, group := s.group, recovery := s.recovery })
            posts := { url, share, group := s.group, recovery := s.recovery } :: s.posts } := by
  rw [next]
  cases queue : s.remainingSignerUrls with
  | nil => exact .inl ⟨rfl, rfl⟩
  | cons url rest => exact .inr ⟨url, rest, rfl, rfl⟩

@[simp] theorem next_peersByIndex (s : Registration) (i : Nat) (share : StoredShare) :
    (s.next i share).peersByIndex = s.peersByIndex := by
  obtain ⟨_, next⟩ | ⟨_, _, _, next⟩ := s.next_cases i share <;> rw [next]

@[simp] theorem next_accepted (s : Registration) (i : Nat) (share : StoredShare) :
    (s.next i share).accepted = s.accepted := by
  obtain ⟨_, next⟩ | ⟨_, _, _, next⟩ := s.next_cases i share <;> rw [next]

theorem sound_next {s : Registration} (sound : s.Sound) {i : Nat} {share : StoredShare}
    (index : share.idx = i + 1) (open_ : i ∉ s.peersByIndex.map Prod.fst) :
    (s.next i share).Sound := by
  obtain ⟨_, next⟩ | ⟨url, rest, queue, next⟩ := s.next_cases i share
  · rw [next]
    refine ⟨sound.urls, ?_, sound.keys, sound.entries, sound.accepted⟩
    intro j post loop
    by_cases same : j = i
    · subst same
      simp at loop
    · dsimp only at loop
      rw [Function.update_of_ne same] at loop
      exact sound.posting j loop
  · rw [next]
    refine ⟨?_, ?_, sound.keys, sound.entries, ?_⟩
    · -- The url moves from the queue to the posts.
      have urls := sound.urls
      rw [queue] at urls
      exact (List.perm_middle.nodup_iff).1 urls
    · intro j post loop
      by_cases same : j = i
      · subst same
        simp only [Function.update_self, ShareLoop.posting.injEq] at loop
        subst loop
        exact ⟨List.mem_cons_self, index, open_⟩
      · dsimp only at loop
        rw [Function.update_of_ne same] at loop
        obtain ⟨posted, rest⟩ := sound.posting j loop
        exact ⟨List.mem_cons_of_mem _ posted, rest⟩
    · intro post taken
      obtain ⟨posted, rest⟩ := sound.accepted taken
      exact ⟨List.mem_cons_of_mem _ posted, rest⟩

/-- What an answer does: the share is taken, or the loop goes on. -/
theorem step_cases {s s' : Registration} {answer : Nat × Option RegisterResponse}
    (stepped : s.step answer = some s') :
    ∃ post, s.loops answer.1 = .posting post ∧
      ((answer.2.any RegisterResponse.ok = true ∧
          s' = { s with
            loops := Function.update s.loops answer.1
              (.registered { url := post.url, res := answer.2 })
            peersByIndex := setEntry s.peersByIndex answer.1 post.url
            accepted := post :: s.accepted }) ∨
        (answer.2.any RegisterResponse.ok = false ∧ s' = s.next answer.1 post.share)) := by
  rw [step] at stepped
  cases loop : s.loops answer.1 with
  | posting post =>
    rw [loop] at stepped
    refine ⟨post, rfl, ?_⟩
    cases ok : answer.2.any RegisterResponse.ok with
    | true =>
      simp only [RegisterMessage.ok, ok, if_true, Option.some.injEq] at stepped
      exact .inl ⟨rfl, stepped.symm⟩
    | false =>
      simp only [RegisterMessage.ok, ok, Bool.false_eq_true, if_false, Option.some.injEq] at stepped
      exact .inr ⟨rfl, stepped.symm⟩
  | fresh => rw [loop] at stepped; cases stepped
  | registered message => rw [loop] at stepped; cases stepped
  | exhausted => rw [loop] at stepped; cases stepped

theorem sound_accept {s : Registration} (sound : s.Sound) {i : Nat} {post : RegisterPost}
    (loop : s.loops i = .posting post) (message : RegisterMessage) :
    Sound { s with
      loops := Function.update s.loops i (.registered message)
      peersByIndex := setEntry s.peersByIndex i post.url
      accepted := post :: s.accepted } := by
  obtain ⟨posted, index, new⟩ := sound.posting i loop
  rw [setEntry_of_new new]
  refine ⟨sound.urls, ?_, ?_, ?_, ?_⟩
  · intro j post' loop'
    by_cases same : j = i
    · subst same
      simp at loop'
    · dsimp only at loop'
      rw [Function.update_of_ne same] at loop'
      obtain ⟨posted', index', new'⟩ := sound.posting j loop'
      exact ⟨posted', index', by simp [same, new']⟩
  · simp only [List.map_append, List.map_cons, List.map_nil]
    exact List.nodup_append.2 ⟨sound.keys, List.nodup_singleton _, fun a member b last same =>
      new (List.mem_singleton.1 last ▸ same ▸ member)⟩
  · intro j url
    have number : post.share.idx = j + 1 ↔ j = i := by
      rw [index, add_left_inj, Nat.cast_inj]
      exact eq_comm
    rw [List.mem_append, sound.entries]
    simp only [Prod.mk.injEq, List.mem_cons, List.not_mem_nil, or_false, exists_eq_or_imp, number]
    rw [or_comm, eq_comm (a := url)]
  · intro post' taken
    cases List.mem_cons.1 taken with
    | inl same =>
      subst same
      exact ⟨posted, i, index⟩
    | inr taken => exact sound.accepted taken

theorem sound_step {s s' : Registration} (sound : s.Sound)
    {answer : Nat × Option RegisterResponse} (stepped : s.step answer = some s') : s'.Sound := by
  obtain ⟨post, loop, ⟨_, rfl⟩ | ⟨_, rfl⟩⟩ := step_cases stepped
  · exact sound_accept sound loop _
  · obtain ⟨_, index, new⟩ := sound.posting answer.1 loop
    exact sound_next sound index new

theorem sound_run {s s' : Registration} (sound : s.Sound)
    {answers : List (Nat × Option RegisterResponse)} (ran : s.run answers = some s') :
    s'.Sound := by
  induction answers generalizing s with
  | nil =>
    cases ran
    exact sound
  | cons answer answers ih =>
    rw [run, List.foldlM_cons] at ran
    obtain ⟨s₁, stepped, ran⟩ := Option.bind_eq_some_iff.1 ran
    exact ih (sound_step sound stepped) ran

/-! ## The start -/

theorem sound_begin_loop {s : Registration} (sound : s.Sound) (none : s.peersByIndex = [])
    {shares : List (StoredShare × Nat)} (index : ∀ share ∈ shares, share.1.idx = share.2 + 1) :
    (shares.foldl (fun s share => s.next share.2 share.1) s).Sound ∧
      (shares.foldl (fun s share => s.next share.2 share.1) s).peersByIndex = [] := by
  induction shares generalizing s with
  | nil => exact ⟨sound, none⟩
  | cons share shares ih =>
    have first := index share List.mem_cons_self
    refine ih (sound_next sound first (by simp [none])) (by simp [none]) ?_
    exact fun other member => index other (List.mem_cons_of_mem _ member)

theorem sound_begin {s : Registration} (sound : s.Sound) (none : s.peersByIndex = [])
    (index : ∀ (i : Nat) (share : StoredShare), s.shares[i]? = some share → share.idx = i + 1) :
    s.begin.Sound ∧ s.begin.peersByIndex = [] := by
  refine sound_begin_loop sound none fun share member => ?_
  obtain ⟨share, i⟩ := share
  exact index i share (List.mem_zipIdx_iff_getElem?.1 member)

theorem register_ok [RegisterPackages] {signerUrls : List Str} {threshold n : Number}
    {userSecret secret : Str} {recovery : Bool} {s : Registration}
    (started : register signerUrls threshold n userSecret secret recovery = .ok s) :
    ∃ group shares, generateDealerPkg threshold n [userSecret] = .ok (group, shares) ∧
      s = Registration.begin {
        n, group, shares, recovery, secret
        remainingSignerUrls := shuffle signerUrls
        loops := fun _ => .fresh
        peersByIndex := []
        posts := []
        accepted := [] } := by
  rw [register] at started
  split_ifs at started
  cases dealt : generateDealerPkg threshold n [userSecret] with
  | error message =>
    rw [dealt] at started
    cases started
  | ok pkg =>
    rw [dealt] at started
    cases started
    exact ⟨pkg.1, pkg.2, rfl, rfl⟩

theorem sound_register [RegisterPackages] [LawfulRegisterPackages] {signerUrls : List Str}
    (distinct : signerUrls.Nodup) {threshold n : Number} {userSecret secret : Str}
    {recovery : Bool} {s : Registration}
    (started : register signerUrls threshold n userSecret secret recovery = .ok s) :
    s.Sound ∧ s.peersByIndex = [] := by
  obtain ⟨group, shares, dealt, rfl⟩ := register_ok started
  refine sound_begin ⟨?_, ?_, ?_, ?_, ?_⟩ rfl (LawfulRegisterPackages.dealt dealt)
  · exact (LawfulRegisterPackages.shuffled signerUrls).nodup_iff.2 distinct
  · exact fun i post loop => nomatch loop
  · exact List.nodup_nil
  · simp
  · exact fun taken => nomatch taken

/-! ## The shares that are taken -/

theorem taken_cons (answer : Nat × Option RegisterResponse)
    (answers : List (Nat × Option RegisterResponse)) (i : Nat) :
    Taken (answer :: answers) i ↔
      (i = answer.1 ∧ answer.2.any RegisterResponse.ok = true) ∨ Taken answers i := by
  obtain ⟨j, response⟩ := answer
  constructor
  · rintro ⟨found, member, ok⟩
    cases member with
    | head => exact .inl ⟨rfl, ok⟩
    | tail _ member => exact .inr ⟨found, member, ok⟩
  · rintro (⟨rfl, ok⟩ | ⟨found, member, ok⟩)
    · cases response with
      | none => cases ok
      | some response => exact ⟨response, List.mem_cons_self, ok⟩
    · exact ⟨found, List.mem_cons_of_mem _ member, ok⟩

theorem keys_step {s s' : Registration} (sound : s.Sound)
    {answer : Nat × Option RegisterResponse} (stepped : s.step answer = some s') (i : Nat) :
    i ∈ s'.peersByIndex.map Prod.fst ↔
      i ∈ s.peersByIndex.map Prod.fst ∨
        (i = answer.1 ∧ answer.2.any RegisterResponse.ok = true) := by
  obtain ⟨post, loop, ⟨ok, rfl⟩ | ⟨refused, rfl⟩⟩ := step_cases stepped
  · obtain ⟨_, _, new⟩ := sound.posting answer.1 loop
    rw [setEntry_of_new new]
    simp [ok]
  · simp [refused]

/-- The entries at the end are those of the shares that were taken. -/
theorem keys_run {s s' : Registration} (sound : s.Sound)
    {answers : List (Nat × Option RegisterResponse)} (ran : s.run answers = some s') (i : Nat) :
    i ∈ s'.peersByIndex.map Prod.fst ↔ i ∈ s.peersByIndex.map Prod.fst ∨ Taken answers i := by
  induction answers generalizing s with
  | nil =>
    cases ran
    simp [Taken]
  | cons answer answers ih =>
    rw [run, List.foldlM_cons] at ran
    obtain ⟨s₁, stepped, ran⟩ := Option.bind_eq_some_iff.1 ran
    rw [ih (sound_step sound stepped) ran, keys_step sound stepped, taken_cons, or_assoc]

theorem noGap_iff {s s' : Registration} (sound : s.Sound) (none : s.peersByIndex = [])
    {answers : List (Nat × Option RegisterResponse)} (ran : s.run answers = some s') :
    NoGap answers ↔ Gapless (s'.peersByIndex.map Prod.fst) := by
  have taken (i : Nat) : i ∈ s'.peersByIndex.map Prod.fst ↔ Taken answers i := by
    simpa [none] using keys_run sound ran i
  simp only [NoGap, Gapless, taken]

/-! ## The peers -/

section Peers

variable {s : Registration}

/-- Two posts to one url are one post. -/
theorem Sound.eq_of_url (sound : s.Sound) {post post' : RegisterPost} (posted : post ∈ s.posts)
    (posted' : post' ∈ s.posts) (same : post.url = post'.url) : post = post' :=
  List.inj_on_of_nodup_map (List.nodup_append.1 sound.urls).1 posted posted' same

/-- Two urls that have taken one share are one url. -/
theorem Sound.url_of_share (sound : s.Sound) {post post' : RegisterPost}
    (taken : post ∈ s.accepted) (taken' : post' ∈ s.accepted) (same : post.share = post'.share) :
    post.url = post'.url := by
  obtain ⟨_, i, index⟩ := sound.accepted taken
  have entry := (sound.entries i post.url).2 ⟨post, taken, index, rfl⟩
  have entry' := (sound.entries i post'.url).2 ⟨post', taken', same ▸ index, rfl⟩
  exact congrArg Prod.snd (List.inj_on_of_nodup_map sound.keys entry entry' rfl)

theorem Sound.values_nodup (sound : s.Sound) : (s.peersByIndex.map Prod.snd).Nodup := by
  refine sound.keys.of_map.map_on fun entry member entry' member' same => ?_
  obtain ⟨post, taken, index, url⟩ := (sound.entries entry.1 entry.2).1 member
  obtain ⟨post', taken', index', url'⟩ := (sound.entries entry'.1 entry'.2).1 member'
  have equal := sound.eq_of_url (sound.accepted taken).1 (sound.accepted taken').1
    (url.trans (same.trans url'.symm))
  subst equal
  have key : entry.1 = entry'.1 := by
    rw [index, add_left_inj, Nat.cast_inj] at index'
    exact index'
  exact Prod.ext key same

variable [RegisterPackages] [LawfulRegisterPackages]

theorem Sound.increasing (sound : s.Sound) : Increasing (sortBy Prod.fst s.peersByIndex) := by
  have sorted := LawfulRegisterPackages.sorted Prod.fst s.peersByIndex
  have permuted := LawfulRegisterPackages.permuted Prod.fst s.peersByIndex
  have nodup : (sortBy Prod.fst s.peersByIndex).Pairwise fun a b => a.1 ≠ b.1 :=
    List.pairwise_map.1 (((permuted.map Prod.fst).nodup_iff).2 sound.keys)
  exact sorted.imp₂ (fun _ _ less other => Nat.lt_of_le_of_ne less other) nodup

/-- The peers are aligned if and only if no share is left out before one that was taken. -/
theorem Sound.aligned_iff (sound : s.Sound) :
    Aligned ((sortBy Prod.fst s.peersByIndex).map Prod.snd) s.accepted ↔
      Gapless (s.peersByIndex.map Prod.fst) := by
  have permuted := LawfulRegisterPackages.permuted Prod.fst s.peersByIndex
  have member (entry : Nat × Str) :
      entry ∈ sortBy Prod.fst s.peersByIndex ↔ entry ∈ s.peersByIndex := permuted.mem_iff
  have keys (i : Nat) : i ∈ (sortBy Prod.fst s.peersByIndex).map Prod.fst ↔
      i ∈ s.peersByIndex.map Prod.fst := (permuted.map Prod.fst).mem_iff
  have gapless : Gapless ((sortBy Prod.fst s.peersByIndex).map Prod.fst) ↔
      Gapless (s.peersByIndex.map Prod.fst) := by
    simp only [Gapless, keys]
  have nodup : ((sortBy Prod.fst s.peersByIndex).map Prod.snd).Nodup :=
    ((permuted.map Prod.snd).nodup_iff).2 sound.values_nodup
  rw [← gapless, ← atKeys_iff sound.increasing nodup]
  constructor
  · intro aligned entry found
    obtain ⟨post, taken, index, url⟩ := (sound.entries entry.1 entry.2).1 ((member entry).1 found)
    rw [← url]
    exact (aligned entry.1).1 post taken index
  · intro atKeys i
    constructor
    · intro post taken index
      have entry := (sound.entries i post.url).2 ⟨post, taken, index, rfl⟩
      exact atKeys (i, post.url) ((member _).2 entry)
    · intro untaken
      have missing : i ∉ (sortBy Prod.fst s.peersByIndex).map Prod.fst := by
        rw [keys]
        intro key
        obtain ⟨⟨i, url⟩, entry, rfl⟩ := List.mem_map.1 key
        obtain ⟨post, taken, index, _⟩ := (sound.entries i url).1 entry
        exact untaken post taken index
      have shape := (atKeys_iff sound.increasing nodup).1 atKeys
      exact .inl (getElem?_of_gapless sound.increasing shape missing)

end Peers

end Registration

section Register

variable [RegisterPackages] [LawfulRegisterPackages]

theorem register_aligned_iff {signerUrls : List Str} (distinct : signerUrls.Nodup)
    {threshold n : Number} {userSecret secret : Str} {recovery : Bool} {s : Registration}
    (started : register signerUrls threshold n userSecret secret recovery = .ok s)
    {answers : List (Nat × Option RegisterResponse)} {s' : Registration}
    (ran : s.run answers = some s') :
    (s'.posts.map RegisterPost.url).Nodup ∧
      (∀ post ∈ s'.accepted, ∀ post' ∈ s'.accepted, post.share = post'.share →
        post.url = post'.url) ∧
      ∀ result, s'.result = some result →
        (Aligned result.clientOptions.peers s'.accepted ↔ NoGap answers) := by
  obtain ⟨begun, none⟩ := Registration.sound_register distinct started
  have sound := Registration.sound_run begun ran
  refine ⟨(List.nodup_append.1 sound.urls).1, ?_, ?_⟩
  · exact fun post taken post' taken' same => sound.url_of_share taken taken' same
  · intro result finished
    rw [Registration.result] at finished
    split at finished
    · cases finished
    · cases finished
      rw [Registration.noGap_iff begun none ran]
      exact sound.aligned_iff

end Register

/-! ## A registration -/

/-- Packages for an example: the urls stay in order, and the shares have empty keys. -/
abbrev dealerPackages : RegisterPackages where
  generateDealerPkg threshold n _ :=
    .ok ({ commits := [], groupPk := [], threshold },
      (List.range n.num.toNat).map fun (i : Nat) => { idx := i + 1, seckey := [] })
  shuffle urls := urls
  sortBy f entries := entries.insertionSort fun a b => f a ≤ f b

theorem dealerPackages_lawful : @LawfulRegisterPackages dealerPackages := by
  let _ := dealerPackages
  refine ⟨?_, ?_, ?_, ?_⟩
  · intro threshold n secrets group shares dealt i share found
    cases dealt
    rw [List.getElem?_map, Option.map_eq_some_iff] at found
    obtain ⟨j, place, rfl⟩ := found
    obtain ⟨_, rfl⟩ := List.getElem?_eq_some_iff.1 place
    simp
  · exact fun urls => List.Perm.refl urls
  · exact fun f entries => List.perm_insertionSort _ entries
  · exact fun f entries => List.pairwise_insertionSort _ entries

def taken : Option RegisterResponse := some { ok := true, message := [] }

theorem register_aligned_iff_two :
    let _ := dealerPackages
    ∃ s s', register ["a".toList, "b".toList] 1 2 [] [] true = .ok s ∧
      s.run [(1, taken), (0, taken)] = some s' ∧
      (s'.posts.map RegisterPost.url).Nodup ∧
      (∀ post ∈ s'.accepted, ∀ post' ∈ s'.accepted, post.share = post'.share →
        post.url = post'.url) ∧
      ∀ result, s'.result = some result →
        (Aligned result.clientOptions.peers s'.accepted ↔
          NoGap [(1, taken), (0, taken)]) := by
  intro packages
  have lawful := dealerPackages_lawful
  have distinct : ["a".toList, "b".toList].Nodup := by decide
  obtain ⟨s, s', started, ran⟩ : ∃ s s',
      register ["a".toList, "b".toList] 1 2 [] [] true = .ok s ∧
        s.run [(1, taken), (0, taken)] = some s' := ⟨_, _, rfl, rfl⟩
  exact ⟨s, s', started, ran, register_aligned_iff distinct started ran⟩

/-- The first share is refused at both urls that are left for it; the peers hold the url that has
taken the second share in the first place. -/
theorem register_misaligned :
    let _ := dealerPackages
    ∃ s s' result, register ["a".toList, "b".toList, "c".toList] 1 2 [] [] true = .ok s ∧
      s.run [(1, taken), (0, none), (0, none)] = some s' ∧ s'.result = some result ∧
      ¬ Aligned result.clientOptions.peers s'.accepted := by
  intro packages
  refine ⟨_, _, _, rfl, rfl, rfl, fun aligned => ?_⟩
  have second := (aligned 1).1 _ List.mem_cons_self rfl
  revert second
  decide

end Pomade.Core
