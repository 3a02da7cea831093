import Mathlib.Logic.Relation
import Firestr.Library.VersionVector

/-! Members that post messages and take in the messages of others. Each counts
its posts in a version vector, stamps them with it, and joins it with the stamp
of every message it takes in. The order of the stamps is then the causal order. -/

set_option autoImplicit false

namespace Firestr.Library.Causality

open Firestr.Library.VersionVector

variable {Id Message : Type}

/-- A posted message, with what its owner had posted or taken in before. -/
structure Post (Id Message : Type) where
  message : Message
  owner : Id
  stamp : Id → Nat
  seen : List Message

structure System (Id Message : Type) where
  clock : Id → Id → Nat
  posts : List (Post Id Message) := []
  taken : Id → List Message := fun _ => []

/-- The owner of `m` had seen `t` when it posted `m`. -/
def Direct (posts : List (Post Id Message)) (t m : Message) : Prop :=
  ∃ p ∈ posts, p.message = m ∧ t ∈ p.seen

/-- The causal order: `t` is `m`, or `m` was posted after `t` was seen, directly
or through other messages. -/
def Cause (posts : List (Post Id Message)) : Message → Message → Prop :=
  Relation.ReflTransGen (Direct posts)

section Cause

variable {posts : List (Post Id Message)} {new : Post Id Message} {t m : Message}

theorem Cause.more (cause : Cause posts t m) : Cause (posts ++ [new]) t m := by
  refine Relation.ReflTransGen.mono ?_ t m cause
  rintro x y ⟨p, member, direct⟩
  exact ⟨p, List.mem_append_left _ member, direct⟩

theorem cause_append_of_ne (closed : ∀ p ∈ posts, ∀ x ∈ p.seen, x ≠ new.message)
    (older : m ≠ new.message) : Cause (posts ++ [new]) t m ↔ Cause posts t m := by
  refine ⟨fun cause => ?_, .more⟩
  induction cause with
  | refl => exact .refl
  | tail _ direct ih =>
      obtain ⟨p, member, named, seen⟩ := direct
      rcases List.mem_append.mp member with inside | last
      · exact (ih (closed p inside _ seen)).tail ⟨p, inside, named, seen⟩
      · cases List.mem_singleton.mp last
        exact absurd named.symm older

/-- The causes of a new post are itself and the causes of what its owner had seen. -/
theorem cause_append_new (closed : ∀ p ∈ posts, ∀ x ∈ p.seen, x ≠ new.message)
    (fresh : ∀ p ∈ posts, p.message ≠ new.message) (earlier : ∀ x ∈ new.seen, x ≠ new.message) :
    Cause (posts ++ [new]) t new.message ↔
      t = new.message ∨ ∃ m ∈ new.seen, Cause posts t m := by
  constructor
  · intro cause
    rcases Relation.ReflTransGen.cases_tail_iff .. |>.mp cause with same | ⟨m, before, direct⟩
    · exact .inl same.symm
    · obtain ⟨p, member, named, seen⟩ := direct
      rcases List.mem_append.mp member with inside | last
      · exact absurd named (fresh p inside)
      · cases List.mem_singleton.mp last
        exact .inr ⟨m, seen, (cause_append_of_ne closed (earlier m seen)).mp before⟩
  · rintro (rfl | ⟨m, seen, cause⟩)
    · exact .refl
    · exact (Cause.more cause).tail ⟨new, List.mem_append_right _ List.mem_cons_self, rfl, seen⟩

/-- A message that nobody has seen causes nothing but itself. -/
theorem not_cause_of_unseen (unseen : ∀ p ∈ posts, t ∉ p.seen) (different : t ≠ m) :
    ¬ Cause posts t m := by
  intro cause
  rcases Relation.ReflTransGen.cases_head_iff .. |>.mp cause with same | ⟨x, direct, -⟩
  · exact different same
  · obtain ⟨p, member, -, seen⟩ := direct
    exact unseen p member seen

end Cause

variable [DecidableEq Id]

namespace System

/-- What a member has taken in or posted. -/
def known (s : System Id Message) (i : Id) : List Message :=
  s.taken i ++ (s.posts.filter fun p => p.owner = i).map (·.message)

def posted (s : System Id Message) (i : Id) (message : Message) : System Id Message where
  clock := Function.update s.clock i (tick (s.clock i) i)
  posts := s.posts ++
    [{ message := message, owner := i, stamp := tick (s.clock i) i, seen := s.known i }]
  taken := s.taken

def took (s : System Id Message) (i : Id) (p : Post Id Message) : System Id Message where
  clock := Function.update s.clock i (s.clock i ⊔ p.stamp)
  posts := s.posts
  taken := Function.update s.taken i (s.taken i ++ [p.message])

end System

inductive Step (s : System Id Message) : System Id Message → Prop where
  | post {i : Id} {message : Message} :
      (∀ p ∈ s.posts, p.message ≠ message) → Step s (s.posted i message)
  | take {i : Id} {p : Post Id Message} : p ∈ s.posts → Step s (s.took i p)

/-- A vector that counts what there is: whoever counts a post has all that its
owner had counted when it posted. -/
structure System.Counted (s : System Id Message) (f : Id → Nat) : Prop where
  bounded : ∀ j, f j ≤ s.clock j j
  dominates : ∀ p ∈ s.posts, p.stamp p.owner ≤ f p.owner → p.stamp ≤ f

/-- The stamps are ordered as the posts are caused. -/
structure System.Ordered (s : System Id Message) : Prop where
  clocksCounted : ∀ i, s.Counted (s.clock i)
  stampsCounted : ∀ p ∈ s.posts, s.Counted p.stamp
  seen : ∀ p ∈ s.posts, ∀ t ∈ p.seen, ∃ q ∈ s.posts, q.message = t
  taken : ∀ i, ∀ t ∈ s.taken i, ∃ q ∈ s.posts, q.message = t
  clocks : ∀ p ∈ s.posts, ∀ i, p.stamp ≤ s.clock i ↔
    p.owner = i ∨ ∃ m ∈ s.taken i, Cause s.posts p.message m
  stamps : ∀ p ∈ s.posts, ∀ q ∈ s.posts,
    p.stamp ≤ q.stamp ↔ Cause s.posts p.message q.message

namespace System

variable {s next : System Id Message}

section Counted

variable {f g : Id → Nat} {i : Id} {message : Message} {p : Post Id Message}

private theorem Counted.le_tick_iff (counted : s.Counted f) :
    f ≤ tick (s.clock i) i ↔ f ≤ s.clock i := by
  refine ⟨fun below j => ?_, fun below => below.trans (le_tick _ _)⟩
  have here : f j ≤ tick (s.clock i) i j := below j
  rw [tick_apply] at here
  split at here
  · rename_i same
    rw [same]
    exact counted.bounded i
  · exact here

private theorem Counted.not_tick_le (counted : s.Counted f) : ¬ tick (s.clock i) i i ≤ f i := by
  have := counted.bounded i
  rw [tick_apply, if_pos rfl]
  omega

private theorem clock_posted (j : Id) :
    (s.posted i message).clock j = if j = i then tick (s.clock i) i else s.clock j :=
  Function.update_apply ..

private theorem own_le_posted (j : Id) : s.clock j j ≤ (s.posted i message).clock j j := by
  rw [clock_posted]
  split
  · rename_i same
    rw [same]
    exact le_tick _ _ _
  · exact le_rfl

private theorem Counted.posted (counted : s.Counted f) : (s.posted i message).Counted f where
  bounded j := (counted.bounded j).trans (own_le_posted j)
  dominates q member counts := by
    rcases List.mem_append.mp member with inside | last
    · exact counted.dominates q inside counts
    · cases List.mem_singleton.mp last
      exact absurd counts counted.not_tick_le

private theorem Counted.stamped (counted : s.Counted (s.clock i))
    (stamps : ∀ p ∈ s.posts, s.Counted p.stamp) :
    (s.posted i message).Counted (tick (s.clock i) i) where
  bounded j := by
    rw [clock_posted, tick_apply]
    split
    · rename_i same
      rw [tick_apply, if_pos same]
    · exact counted.bounded j
  dominates q member counts := by
    rcases List.mem_append.mp member with inside | last
    · refine (stamps q inside).le_tick_iff.mpr (counted.dominates q inside ?_)
      rw [tick_apply] at counts
      split at counts
      · rename_i own
        rw [own]
        exact (stamps q inside).bounded i
      · exact counts
    · cases List.mem_singleton.mp last
      exact le_rfl

omit [DecidableEq Id] in
private theorem Counted.sup (first : s.Counted f) (second : s.Counted g) : s.Counted (f ⊔ g) where
  bounded j := max_le (first.bounded j) (second.bounded j)
  dominates p member counts := by
    rcases le_sup_iff.mp counts with here | there
    · exact (first.dominates p member here).trans le_sup_left
    · exact (second.dominates p member there).trans le_sup_right

private theorem clock_took (j : Id) :
    (s.took i p).clock j = if j = i then s.clock i ⊔ p.stamp else s.clock j :=
  Function.update_apply ..

private theorem Counted.took (counted : s.Counted f) : (s.took i p).Counted f where
  bounded j := by
    refine (counted.bounded j).trans ?_
    rw [clock_took]
    split
    · rename_i same
      rw [same]
      exact le_max_left ..
    · exact le_rfl
  dominates := counted.dominates

omit [DecidableEq Id] in
private theorem Counted.stamp_le_sup_iff (first : s.Counted f) (second : s.Counted g)
    (member : p ∈ s.posts) : p.stamp ≤ f ⊔ g ↔ p.stamp ≤ f ∨ p.stamp ≤ g := by
  constructor
  · intro below
    rcases le_sup_iff.mp (below p.owner) with here | there
    · exact .inl (first.dominates p member here)
    · exact .inr (second.dominates p member there)
  · rintro (here | there)
    · exact here.trans le_sup_left
    · exact there.trans le_sup_right

end Counted

section Ordered

omit [DecidableEq Id] in
theorem Ordered.start {clock : Id → Id → Nat} (bounded : ∀ i j, clock i j ≤ clock j j) :
    ({ clock := clock } : System Id Message).Ordered where
  clocksCounted i := ⟨bounded i, fun p member => (by cases member)⟩
  stampsCounted p member := by cases member
  seen p member := by cases member
  taken i t member := by cases member
  clocks p member := by cases member
  stamps p member := by cases member

private theorem Ordered.le_clock_iff_known (ordered : s.Ordered) {p : Post Id Message}
    (member : p ∈ s.posts) (i : Id) :
    p.stamp ≤ s.clock i ↔ ∃ m ∈ s.known i, Cause s.posts p.message m := by
  rw [ordered.clocks p member i]
  constructor
  · rintro (own | ⟨m, taken, cause⟩)
    · refine ⟨p.message, List.mem_append_right _ ?_, .refl⟩
      exact List.mem_map_of_mem (List.mem_filter.mpr ⟨member, decide_eq_true own⟩)
    · exact ⟨m, List.mem_append_left _ taken, cause⟩
  · rintro ⟨m, known, cause⟩
    rcases List.mem_append.mp known with taken | posted
    · exact .inr ⟨m, taken, cause⟩
    · obtain ⟨q, listed, rfl⟩ := List.mem_map.mp posted
      obtain ⟨inside, own⟩ := List.mem_filter.mp listed
      have earlier := (ordered.stamps p member q inside).mpr cause
      have mine := (ordered.clocks q inside i).mpr (.inl (of_decide_eq_true own))
      exact (ordered.clocks p member i).mp (earlier.trans mine)

private theorem Ordered.known_posted (ordered : s.Ordered) {i : Id} {t : Message}
    (known : t ∈ s.known i) : ∃ q ∈ s.posts, q.message = t := by
  rcases List.mem_append.mp known with taken | posted
  · exact ordered.taken i t taken
  · obtain ⟨q, listed, rfl⟩ := List.mem_map.mp posted
    exact ⟨q, (List.mem_filter.mp listed).1, rfl⟩

omit [DecidableEq Id] in
private theorem older {message t : Message} (fresh : ∀ p ∈ s.posts, p.message ≠ message)
    (posted : ∃ q ∈ s.posts, q.message = t) : t ≠ message := by
  obtain ⟨q, inside, rfl⟩ := posted
  exact fresh q inside

section Post

variable {i : Id} {message : Message} (ordered : s.Ordered)
  (fresh : ∀ p ∈ s.posts, p.message ≠ message)

include ordered fresh

private theorem cause_posted_older {t m : Message} (different : m ≠ message) :
    Cause (s.posted i message).posts t m ↔ Cause s.posts t m :=
  cause_append_of_ne (fun p inside x seen => older fresh (ordered.seen p inside x seen)) different

private theorem cause_posted_newer {t : Message} :
    Cause (s.posted i message).posts t message ↔
      t = message ∨ ∃ m ∈ s.known i, Cause s.posts t m :=
  cause_append_new (fun p inside x seen => older fresh (ordered.seen p inside x seen)) fresh
    fun _ known => older fresh (ordered.known_posted known)

private theorem not_cause_posted {m : Message} (different : m ≠ message) :
    ¬ Cause (s.posted i message).posts message m := by
  refine not_cause_of_unseen (fun p member seen => ?_) different.symm
  rcases List.mem_append.mp member with inside | last
  · exact older fresh (ordered.seen p inside message seen) rfl
  · cases List.mem_singleton.mp last
    exact older fresh (ordered.known_posted seen) rfl

private theorem clocks_posted {p : Post Id Message} (member : p ∈ (s.posted i message).posts)
    (j : Id) : p.stamp ≤ (s.posted i message).clock j ↔
      p.owner = j ∨ ∃ m ∈ s.taken j, Cause (s.posted i message).posts p.message m := by
  have takenOlder : ∀ m ∈ s.taken j, m ≠ message := fun m taken =>
    older fresh (ordered.taken j m taken)
  rcases List.mem_append.mp member with inside | last
  · have same : p.stamp ≤ (s.posted i message).clock j ↔ p.stamp ≤ s.clock j := by
      rw [clock_posted]
      split
      · rename_i here
        rw [here]
        exact (ordered.stampsCounted p inside).le_tick_iff
      · exact Iff.rfl
    rw [same, ordered.clocks p inside j]
    refine or_congr Iff.rfl (exists_congr fun m => and_congr_right fun taken => ?_)
    exact (cause_posted_older ordered fresh (takenOlder m taken)).symm
  · cases List.mem_singleton.mp last
    rw [clock_posted]
    split
    · rename_i here
      exact iff_of_true le_rfl (.inl here.symm)
    · rename_i different
      refine iff_of_false (fun below => (ordered.clocksCounted j).not_tick_le (below i)) ?_
      rintro (own | ⟨m, taken, cause⟩)
      · exact different own.symm
      · exact not_cause_posted ordered fresh (takenOlder m taken) cause

private theorem stamps_posted {p q : Post Id Message} (member : p ∈ (s.posted i message).posts)
    (other : q ∈ (s.posted i message).posts) :
    p.stamp ≤ q.stamp ↔ Cause (s.posted i message).posts p.message q.message := by
  rcases List.mem_append.mp other with before | final
  · rcases List.mem_append.mp member with inside | last
    · rw [cause_posted_older ordered fresh (fresh q before)]
      exact ordered.stamps p inside q before
    · cases List.mem_singleton.mp last
      exact iff_of_false (fun below => (ordered.stampsCounted q before).not_tick_le (below i))
        (not_cause_posted ordered fresh (fresh q before))
  · cases List.mem_singleton.mp final
    rw [cause_posted_newer ordered fresh]
    rcases List.mem_append.mp member with inside | last
    · rw [or_iff_right (fresh p inside), ← ordered.le_clock_iff_known inside i]
      exact (ordered.stampsCounted p inside).le_tick_iff
    · cases List.mem_singleton.mp last
      exact iff_of_true le_rfl (.inl rfl)

theorem Ordered.post : (s.posted i message).Ordered where
  clocksCounted j := by
    rw [clock_posted]
    split
    · exact (ordered.clocksCounted i).stamped ordered.stampsCounted
    · exact (ordered.clocksCounted j).posted
  stampsCounted p member := by
    rcases List.mem_append.mp member with inside | last
    · exact (ordered.stampsCounted p inside).posted
    · cases List.mem_singleton.mp last
      exact (ordered.clocksCounted i).stamped ordered.stampsCounted
  seen p member t seen := by
    have found : ∃ q ∈ s.posts, q.message = t := by
      rcases List.mem_append.mp member with inside | last
      · exact ordered.seen p inside t seen
      · cases List.mem_singleton.mp last
        exact ordered.known_posted seen
    obtain ⟨q, inside, named⟩ := found
    exact ⟨q, List.mem_append_left _ inside, named⟩
  taken j t taken := by
    obtain ⟨q, inside, named⟩ := ordered.taken j t taken
    exact ⟨q, List.mem_append_left _ inside, named⟩
  clocks _ member j := clocks_posted ordered fresh member j
  stamps _ member _ other := stamps_posted ordered fresh member other

end Post

theorem Ordered.take (ordered : s.Ordered) {i : Id} {p : Post Id Message}
    (inside : p ∈ s.posts) : (s.took i p).Ordered where
  clocksCounted j := by
    rw [clock_took]
    split
    · exact ((ordered.clocksCounted i).sup (ordered.stampsCounted p inside)).took
    · exact (ordered.clocksCounted j).took
  stampsCounted q member := (ordered.stampsCounted q member).took
  seen := ordered.seen
  taken j t member := by
    change t ∈ Function.update s.taken i (s.taken i ++ [p.message]) j at member
    rw [Function.update_apply] at member
    split at member
    · rcases List.mem_append.mp member with earlier | last
      · exact ordered.taken i t earlier
      · exact ⟨p, inside, (List.mem_singleton.mp last).symm⟩
    · exact ordered.taken j t member
  clocks q member j := by
    change _ ↔ q.owner = j ∨ ∃ m ∈ Function.update s.taken i (s.taken i ++ [p.message]) j, _
    rw [clock_took, Function.update_apply]
    split
    · rename_i here
      rw [(ordered.clocksCounted i).stamp_le_sup_iff (ordered.stampsCounted p inside) member,
        ordered.clocks q member i, ordered.stamps q member p inside, here]
      simp only [List.mem_append, List.mem_singleton, or_and_right, exists_or, exists_eq_left,
        or_assoc]
      rfl
    · exact ordered.clocks q member j
  stamps := ordered.stamps

/-- Every step keeps the stamps in the causal order. -/
theorem Ordered.step (ordered : s.Ordered) (step : Step s next) : next.Ordered := by
  cases step with
  | post fresh => exact ordered.post fresh
  | take inside => exact ordered.take inside

end Ordered

end System

end Firestr.Library.Causality
