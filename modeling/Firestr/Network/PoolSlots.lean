import Firestr.Library.Outcomes
import Firestr.Network.ConnectionPool

/-! The slots of the pool and the map of addresses to them. Every update of
either keeps the two in step. -/

set_option autoImplicit false

namespace Firestr.Network

open Firestr.Library.Assoc Firestr.Library.Outcomes Firestr.Util

/-- No `CHECK` fails. -/
def NoCheck (fault : Fault) : Prop := ∀ expression, fault ≠ .raised .check expression

section NoCheck

variable {Value : Type} {post : Value → Prop}

theorem meets_require {condition : Bool} {expression : String} :
    Meets NoCheck (fun _ : Unit => condition = true) (require condition expression) := by
  cases condition with
  | true => exact Meets.ok rfl
  | false =>
      intro _ same
      cases same

theorem meets_ensure {condition : Bool} {expression : String} :
    Meets NoCheck (fun _ : Unit => condition = true) (ensure condition expression) := by
  cases condition with
  | true => exact Meets.ok rfl
  | false =>
      intro _ same
      cases same

theorem meets_thrown {what : String} :
    Meets NoCheck post (.error (.thrown what) : Outcome Value) := by
  intro _ same
  cases same

theorem meets_dangling : Meets NoCheck post (.error .dangling : Outcome Value) := by
  intro _ same
  cases same

theorem meets_check {condition : Bool} {expression : String} (holds : condition = true) :
    Meets NoCheck (fun _ : Unit => True) (check condition expression) := by
  rw [holds]
  exact Meets.ok trivial

end NoCheck

section Address

private theorem meets_split (s delimiters : Bytes) :
    Meets NoCheck (· ≠ []) (split s delimiters) := by
  refine Meets.bind meets_ensure fun _ some? => Meets.ok ?_
  simpa using some?

private theorem meets_itemAt (items : List Bytes) (i : Nat) :
    Meets NoCheck (fun _ => True) (itemAt items i) := by
  rw [itemAt]
  split
  · exact Meets.ok trivial
  · exact meets_dangling

private theorem meets_parseOption (o : List (Bytes × Bytes)) (s : Bytes) :
    Meets NoCheck (fun _ => True) (parseOption o s) := by
  refine Meets.bind (meets_split s _) fun p _ => ?_
  split
  · exact Meets.ok trivial
  · exact Meets.ok trivial
  · exact Meets.ok trivial

private theorem meets_parseOptions (ss : List Bytes) :
    Meets NoCheck (fun _ => True) (parseOptions ss) := by
  have parsed : Meets NoCheck (fun _ => True) (ss.foldlM parseOption []) :=
    Meets.foldlM ss (fun o s _ _ => meets_parseOption o s) trivial
  exact Meets.bind meets_require fun _ _ => Meets.bind parsed fun _ _ =>
    Meets.bind meets_ensure fun _ _ => Meets.ok trivial

private theorem meets_hostOf (host : Bytes) : Meets NoCheck (fun _ => True) (hostOf host) := by
  rw [hostOf]
  split
  · exact meets_thrown
  · exact Meets.ok trivial

private theorem meets_parsePort (p : Bytes) : Meets NoCheck (fun _ => True) (parsePort p) := by
  rw [parsePort]
  split
  · split
    · exact Meets.ok trivial
    · exact meets_thrown
  · exact meets_thrown

/-- Its one `CHECK` comes after `split` has ensured the same. -/
theorem meets_parseAddress (queueAddress : Bytes) (defaults : List (Bytes × Bytes)) :
    Meets NoCheck (fun _ => True) (parseAddress queueAddress defaults) := by
  refine Meets.bind (meets_split ..) fun s some? => ?_
  have one : decide (1 ≤ s.length) = true := by
    rw [decide_eq_true_iff]
    exact List.length_pos_iff.mpr some?
  have options : Meets NoCheck (fun _ => True) (if 1 < s.length then do
      let overrides ← parseOptions s.tail
      pure (insertOptions defaults overrides)
    else pure defaults : Outcome (List (Bytes × Bytes))) := by
    split
    · exact Meets.bind (meets_parseOptions _) fun _ _ => Meets.ok trivial
    · exact Meets.ok trivial
  exact Meets.bind (meets_check one) fun _ _ => Meets.bind (meets_itemAt s 0) fun first _ =>
    Meets.bind (meets_split ..) fun a _ => Meets.bind (meets_itemAt a 0) fun transport _ =>
    Meets.bind (meets_itemAt a 1) fun name _ => Meets.bind (meets_hostOf name) fun host _ =>
    Meets.bind (meets_itemAt a 2) fun number _ => Meets.bind (meets_parsePort number) fun port _ =>
    Meets.bind options fun options _ => Meets.ok trivial

end Address

/-- A queue that was made, and is as it was made until `connect` is given an
address for it. -/
structure PoolQueue.Sound (q : PoolQueue) : Prop where
  made : q.out.isSome = true
  fresh : q.connectedFor = none → q.mode = .delayedConnect ∧ q.running = false ∧
    q.isDisconnected = true

/-- The queue that `new` makes. -/
def PoolQueue.fresh : PoolQueue where
  mode := .delayedConnect
  out := some .disconnected

section Queue

variable {q next : PoolQueue} {address host : Bytes} {port : UInt16} {resolved : Bool}

theorem new_eq : PoolQueue.new = .ok PoolQueue.fresh := rfl

theorem PoolQueue.Sound.new : PoolQueue.fresh.Sound := ⟨rfl, fun _ => ⟨rfl, rfl, rfl⟩⟩

theorem meets_reconnect (made : q.out.isSome = true) : Meets NoCheck
    (fun next => next.out.isSome = true ∧ next.connectedFor = q.connectedFor)
    (q.reconnect resolved) := by
  refine Meets.bind meets_require fun _ _ => ?_
  split
  · exact Meets.ok ⟨made, rfl⟩
  · have there : (if q.out.isNone then q.delayedConnect else pure q : Outcome PoolQueue) =
        .ok q := by
      rw [Option.isNone_eq_false_iff.mpr made]
      rfl
    rw [there, ok_bind]
    refine Meets.bind meets_require fun _ _ => Meets.bind meets_require fun _ _ => Meets.ok ?_
    split
    · exact ⟨rfl, rfl⟩
    · exact ⟨made, rfl⟩

theorem meets_connect (made : q.out.isSome = true) : Meets NoCheck
    (fun next => next.out.isSome = true ∧ next.connectedFor = some address)
    (q.connect address host port resolved) :=
  Meets.bind meets_require fun _ _ => Meets.bind meets_require fun _ _ =>
    Meets.bind meets_require fun _ _ => Meets.bind meets_require fun _ _ =>
    Meets.bind (meets_reconnect made) fun _ kept => Meets.ok kept

theorem meets_send (made : q.out.isSome = true) : Meets NoCheck
    (fun next => next.out.isSome = true ∧ next.connectedFor = q.connectedFor)
    (q.send resolved) := by
  refine Meets.bind meets_require fun _ _ => Meets.bind (meets_check made) fun _ _ => ?_
  split
  · exact meets_reconnect made
  · exact Meets.ok ⟨made, rfl⟩

end Queue

section Slots

variable {pool : List (Option PoolQueue)} {i j : Nat} {q : PoolQueue}

theorem slotIn_set {p : Option PoolQueue} (inside : i < pool.length) :
    slotIn (pool.set i p) j = if j = i then p else slotIn pool j := by
  rw [slotIn, List.getElem?_set]
  by_cases here : i = j
  · rw [if_pos here, if_pos inside, if_pos here.symm]
    rfl
  · rw [if_neg here, if_neg fun same => here same.symm]
    rfl

theorem getElem?_of_slotIn (found : slotIn pool i = some q) : pool[i]? = some (some q) :=
  Option.join_eq_some_iff.mp found

theorem lt_of_slotIn (found : slotIn pool i = some q) : i < pool.length :=
  (List.getElem?_eq_some_iff.mp (getElem?_of_slotIn found)).1

end Slots

/-- `_out` names slots with a queue that no other address was connected to, and
no two addresses name the same slot. -/
structure Filed (pool : List (Option PoolQueue)) (out : List (Bytes × Nat)) : Prop where
  keys : (out.map (·.1)).Nodup
  named : ∀ e ∈ out, ∃ q, slotIn pool e.2 = some q ∧
    (q.connectedFor = none ∨ q.connectedFor = some e.1)
  apart : ∀ e ∈ out, ∀ f ∈ out, e.2 = f.2 → e.1 = f.1
  sound : ∀ i q, slotIn pool i = some q → q.Sound

section Filed

variable {pool : List (Option PoolQueue)} {out : List (Bytes × Nat)} {address : Bytes} {i : Nat}
  {q next : PoolQueue}

theorem Filed.empty (size : Nat) : Filed (List.replicate size none) [] where
  keys := List.nodup_nil
  named e member := by cases member
  apart e member := by cases member
  sound i q found := by
    have here := getElem?_of_slotIn found
    rw [List.getElem?_replicate] at here
    split at here
    · cases here
    · cases here

/-- Another state of a queue that stays connected to its address. -/
theorem Filed.replace (filed : Filed pool out) (found : slotIn pool i = some q)
    (sound : next.Sound) (same : next.connectedFor = q.connectedFor) :
    Filed (pool.set i (some next)) out where
  keys := filed.keys
  apart := filed.apart
  named e member := by
    rw [slotIn_set (lt_of_slotIn found)]
    obtain ⟨old, here, own⟩ := filed.named e member
    split
    · rename_i slot
      rw [slot] at here
      cases found.symm.trans here
      exact ⟨next, rfl, same ▸ own⟩
    · exact ⟨old, here, own⟩
  sound j r here := by
    rw [slotIn_set (lt_of_slotIn found)] at here
    split at here
    · cases here
      exact sound
    · exact filed.sound j r here

/-- A new queue in a slot. -/
theorem Filed.fill (filed : Filed pool out) (inside : i < pool.length) : Filed (pool.set i (some PoolQueue.fresh)) out where
  keys := filed.keys
  apart := filed.apart
  named e member := by
    rw [slotIn_set inside]
    obtain ⟨old, here, own⟩ := filed.named e member
    split
    · exact ⟨PoolQueue.fresh, rfl, .inl rfl⟩
    · exact ⟨old, here, own⟩
  sound j r here := by
    rw [slotIn_set inside] at here
    split at here
    · cases here
      exact .new
    · exact filed.sound j r here

/-- New queues in all slots. -/
theorem Filed.refill (filed : Filed pool out) :
    Filed (pool.map fun _ => some PoolQueue.fresh) out where
  keys := filed.keys
  apart := filed.apart
  named e member := by
    obtain ⟨old, here, -⟩ := filed.named e member
    refine ⟨PoolQueue.fresh, ?_, .inl rfl⟩
    rw [slotIn, List.getElem?_map, getElem?_of_slotIn here]
    rfl
  sound j r here := by
    have present := getElem?_of_slotIn here
    rw [List.getElem?_map, Option.map_eq_some_iff] at present
    obtain ⟨_, -, same⟩ := present
    cases same
    exact .new

/-- An address for a slot that has none. -/
theorem Filed.assign (filed : Filed pool out) (found : slotIn pool i = some q)
    (fresh : q.connectedFor = none) (free : ∀ e ∈ out, e.2 ≠ i) :
    Filed pool (assign out address i) where
  keys := nodup_keys_assign filed.keys
  sound := filed.sound
  named e member := by
    rcases eq_or_mem_of_mem_assign member with rfl | ⟨before, -⟩
    · exact ⟨q, found, .inl fresh⟩
    · exact filed.named e before
  apart e member f other same := by
    rcases eq_or_mem_of_mem_assign member with rfl | ⟨before, -⟩
    · rcases eq_or_mem_of_mem_assign other with rfl | ⟨earlier, -⟩
      · rfl
      · exact absurd same.symm (free f earlier)
    · rcases eq_or_mem_of_mem_assign other with rfl | ⟨earlier, -⟩
      · exact absurd same (free e before)
      · exact filed.apart e before f earlier same

/-- The queue of an address is connected to it. -/
theorem Filed.dial (filed : Filed pool out) (listed : (address, i) ∈ out)
    (sound : next.Sound) (own : next.connectedFor = some address) :
    Filed (pool.set i (some next)) out where
  keys := filed.keys
  apart := filed.apart
  named e member := by
    obtain ⟨q, here, -⟩ := filed.named _ listed
    rw [slotIn_set (lt_of_slotIn here)]
    split
    · rename_i slot
      refine ⟨next, rfl, .inr ?_⟩
      rw [own, filed.apart e member _ listed slot]
    · exact filed.named e member
  sound j r here := by
    obtain ⟨q, found, -⟩ := filed.named _ listed
    rw [slotIn_set (lt_of_slotIn found)] at here
    split at here
    · cases here
      exact sound
    · exact filed.sound j r here

/-- The pool without its disconnected queues. -/
def swept (pool : List (Option PoolQueue)) : List (Option PoolQueue) :=
  pool.map fun p => p.filter fun q => !q.isDisconnected

theorem slotIn_swept (j : Nat) :
    slotIn (swept pool) j = (slotIn pool j).filter fun q => !q.isDisconnected := by
  rw [slotIn, swept, List.getElem?_map, slotIn]
  cases pool[j]? with
  | none => rfl
  | some p => rfl

theorem eraseUnpooled_eq (inside : ∀ e ∈ out, e.2 < pool.length) :
    ConnectionManager.eraseUnpooled pool out = .ok (out.filter fun e => (slotIn pool e.2).isSome) := by
  induction out with
  | nil => rfl
  | cons e out ih =>
      have here : decide (e.2 < pool.length) = true :=
        decide_eq_true (inside e List.mem_cons_self)
      have rest := ih fun f member => inside f (.tail _ member)
      simp only [ConnectionManager.eraseUnpooled, here, check_true, rest, ok_bind, pure_ok, List.filter_cons]

theorem Filed.swept (filed : Filed pool out) :
    Filed (swept pool) (out.filter fun e => (slotIn (Network.swept pool) e.2).isSome) where
  keys := filed.keys.sublist (List.filter_sublist.map _)
  apart e member f other :=
    filed.apart e (List.mem_of_mem_filter member) f (List.mem_of_mem_filter other)
  named e member := by
    obtain ⟨before, kept⟩ := List.mem_filter.mp member
    obtain ⟨q, here⟩ := Option.isSome_iff_exists.mp kept
    refine ⟨q, here, ?_⟩
    obtain ⟨old, found, own⟩ := filed.named e before
    rw [slotIn_swept, found] at here
    cases (Option.filter_eq_some_iff.mp here).1
    exact own
  sound j r here := by
    rw [slotIn_swept] at here
    exact filed.sound j r (Option.filter_eq_some_iff.mp here).1

end Filed

end Firestr.Network
