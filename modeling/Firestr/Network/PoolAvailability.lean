import Firestr.Network.ConnectionPoolRuns

/-! Calls of `connect` while the pool has a free slot. A manager that does not
listen finds it, and one that listens never does. -/

set_option autoImplicit false

namespace Firestr.Network

open Firestr.Library.Assoc Firestr.Library.Outcomes Firestr.Library.Runs Firestr.Util
  ConnectionManager

/-- A section of `connect` after its first one. -/
def PoolEvent.isSection : PoolEvent → Bool
  | .repool | .assign | .dial _ => true
  | _ => false

/-- A step before the queue that `connect` returned is used. -/
def CallStep (t : ConnectionManager) (event : PoolEvent) (u : ConnectionManager) : Prop :=
  (∀ resolved, event ≠ .send resolved) ∧ PoolStep t event u

/-- A call of `connect`, from its first section on. -/
abbrev CallRun (s : ConnectionManager) (address : Bytes) :
    List PoolEvent → ConnectionManager → Prop :=
  Run (fun t => PoolStep s (.connect address) t) CallStep

/-- The next section of the call runs to its end. -/
def Proceeds (t : ConnectionManager) : Prop :=
  match t.stage with
  | .idle => False
  | .searched _ n => if n < t.pool.length then ∃ u, PoolStep t .assign u else ∃ u, PoolStep t .repool u
  | .assigned _ _ _ _ => ∀ resolved, ∃ u, PoolStep t (.dial resolved) u
  | .returned _ => True

/-- A slot that is empty or whose queue was never connected. -/
def Unconnected (s : ConnectionManager) : Prop :=
  ∃ i < s.pool.length, s.slot i = none ∨ ∃ q, s.slot i = some q ∧ q.connectedFor = none

/-- A slot that is empty, never connected or disconnected. -/
def FreeSlot (s : ConnectionManager) : Prop :=
  ∃ i < s.pool.length, s.slot i = none ∨
    ∃ q, s.slot i = some q ∧ (q.connectedFor = none ∨ q.isDisconnected = true)

/-- `connect` returns a queue and records it, whatever the other threads do
meanwhile, and keeps the listening queue as long as a slot is unconnected. -/
structure Available (s : ConnectionManager) (address : Bytes) : Prop where
  begins : ∃ t, PoolStep s (.connect address) t
  proceeds : ∀ events t, CallRun s address events t → Proceeds t
  ends : ∀ events t, CallRun s address events t → events.countP (·.isSection) ≤ 3
  returns : ∀ events t r, CallRun s address events t → t.stage = .returned r →
    ∃ i, r = some i ∧ t.out.lookup address = some i ∧ (t.slot i).isSome = true
  listens : Unconnected s → ∀ events t, CallRun s address events t → t.listening = s.listening

/-- How many sections a call has left at most. -/
def sectionsLeft (t : ConnectionManager) : Nat :=
  match t.stage with
  | .idle => 0
  | .searched _ n => if n < t.pool.length then 2 else 3
  | .assigned _ _ _ _ => 1
  | .returned _ => 0

/-- The call for an address that is not listening: it has a slot, or there is
one with a disconnected queue. -/
def CallStage (address : Bytes) (t : ConnectionManager) : ConnectStage → Prop
  | .idle => False
  | .searched other n => other = address ∧
      (n < t.pool.length ∨ ∃ i q, t.slot i = some q ∧ q.isDisconnected = true)
  | .assigned other _ host port => other = address ∧ host ≠ [] ∧ 0 < port
  | .returned r => ∃ i, r = some i ∧ t.out.lookup address = some i

structure Calling (address : Bytes) (t : ConnectionManager) : Prop where
  pool : PoolInvariant t
  quiet : t.tcpListen = false
  stage : CallStage address t t.stage

section Quiet

variable {s t u : ConnectionManager} {address : Bytes} {a : AddressComponents} {event : PoolEvent}

theorem Touches.pool_length (touches : Touches t u) : u.pool.length = t.pool.length := by
  cases touches with
  | same => rfl
  | queue => exact List.length_set

theorem Touches.disconnected (touches : Touches t u) {i : Nat} {q : PoolQueue}
    (found : t.slot i = some q) (closed : q.isDisconnected = true) :
    ∃ next, u.slot i = some next ∧ next.isDisconnected = true := by
  cases touches with
  | same => exact ⟨q, found, closed⟩
  | @queue j old next here _ _ _ _ kept =>
      have inside := lt_of_slotIn here
      by_cases slot : i = j
      · subst slot
        cases found.symm.trans here
        refine ⟨next, ?_, kept closed⟩
        change slotIn (t.pool.set i (some next)) i = _
        rw [slotIn_set inside, if_pos rfl]
      · refine ⟨q, ?_, closed⟩
        change slotIn (t.pool.set j (some next)) i = _
        rw [slotIn_set inside, if_neg slot]
        exact found

theorem Calling.touched (calling : Calling address t) (touches : Touches t u) :
    Calling address u := by
  have kept := calling.pool.touched touches
  have size := touches.pool_length
  have closed := fun i q => @Touches.disconnected t u touches i q
  have same : u.tcpListen = t.tcpListen ∧ u.stage = t.stage ∧ u.out = t.out := by
    cases touches with
    | same => exact ⟨rfl, rfl, rfl⟩
    | queue => exact ⟨rfl, rfl, rfl⟩
  obtain ⟨listen, stage, out⟩ := same
  refine ⟨kept, listen.trans calling.quiet, ?_⟩
  rw [stage]
  have holds := calling.stage
  cases here : t.stage with
  | idle =>
      rw [here] at holds
      exact holds
  | searched other n =>
      rw [here] at holds
      refine ⟨holds.1, holds.2.imp (fun inside => size ▸ inside) ?_⟩
      rintro ⟨i, q, found, disconnected⟩
      obtain ⟨next, there, later⟩ := closed i q found disconnected
      exact ⟨i, next, there, later⟩
  | assigned other n host port =>
      rw [here] at holds
      exact holds
  | returned r =>
      rw [here] at holds
      obtain ⟨i, rfl, recorded⟩ := holds
      exact ⟨i, rfl, out ▸ recorded⟩

theorem Touches.sectionsLeft (touches : Touches t u) : sectionsLeft u = sectionsLeft t := by
  have size := touches.pool_length
  have stage : u.stage = t.stage := by
    cases touches with
    | same => rfl
    | queue => rfl
  rw [Network.sectionsLeft, Network.sectionsLeft, stage, size]

private theorem reconnect_ok {q : PoolQueue} (made : q.out.isSome = true)
    (closed : q.isDisconnected = true) (named : q.host ≠ []) (positive : 0 < q.port)
    (resolved : Bool) : ∃ next, q.reconnect resolved = .ok next := by
  have free : q.unused = true := by
    rw [PoolQueue.unused, closed, Bool.or_true]
  have some? : (!q.host.isEmpty) = true := by simp [named]
  have there : (if q.out.isNone then q.delayedConnect else pure q : Outcome PoolQueue) =
      .ok q := by
    rw [Option.isNone_eq_false_iff.mpr made]
    rfl
  rw [PoolQueue.reconnect, free, there]
  cases resolved with
  | false => exact ⟨_, rfl⟩
  | true =>
      change ∃ next, (do
        require (!q.host.isEmpty) _
        require (decide (0 < q.port)) _
        pure _ : Outcome PoolQueue) = .ok next
      rw [some?, decide_eq_true positive]
      exact ⟨_, rfl⟩

private theorem connect_ok {q : PoolQueue} {host : Bytes} {port : UInt16} (sound : q.Sound)
    (fresh : q.connectedFor = none) (named : host ≠ []) (positive : 0 < port) (resolved : Bool) :
    ∃ next, q.connect address host port resolved = .ok next := by
  obtain ⟨delayed, idle, closed⟩ := sound.fresh fresh
  have some? : (!host.isEmpty) = true := by simp [named]
  have free : q.unused = true := by
    rw [PoolQueue.unused, closed, Bool.or_true]
  have starts : (q.mode == .delayedConnect) = true := by
    rw [delayed]
    rfl
  obtain ⟨next, reconnects⟩ := reconnect_ok (q := q.addressed address host port) sound.made closed
    named positive resolved
  rw [PoolQueue.connect, starts, some?, idle, free, reconnects]
  exact ⟨_, rfl⟩

private theorem connectAssign_ok (pool : PoolInvariant t) {n : Nat}
    (stage : t.stage = .searched address n) (inside : n < t.pool.length)
    (parsed : parseAddress address [] = .ok a) : t.connectAssign address n = .ok { t with
      out := assign t.out address n
      stage := .assigned address n a.host a.port } := by
  have holds := pool.stage
  rw [stage] at holds
  obtain ⟨⟨q, here, fresh⟩, -⟩ := holds inside
  have found : t.slot n = some q := here
  have closed := ((pool.filed.sound n q here).fresh fresh).2.2
  simp only [connectAssign, decide_eq_true inside, check_true, ok_bind, found, Option.isSome_some,
    Option.any_some, closed, parsed, pure_ok]

private theorem calling_searched (pool : PoolInvariant t) (quiet : t.tcpListen = false)
    (free : FreeSlot t) : Calling address { t.searched with
      stage := .searched address (t.pool.findIdx (·.isNone)) } := by
  refine ⟨pool.search address, quiet, rfl, ?_⟩
  have bound : t.pool.findIdx (·.isNone) ≤ t.pool.length := List.findIdx_le_length
  rcases bound.lt_or_eq with inside | all
  · refine .inl ?_
    rw [searched, List.length_set]
    exact inside
  · have unchanged : t.searched = t := by
      rw [searched, List.set_eq_of_length_le all.ge]
    rw [unchanged]
    obtain ⟨i, inside, empty | ⟨q, found, closed⟩⟩ := free
    · have none? : t.pool[i].isNone = true := by
        rw [slot, slotIn, List.getElem?_eq_getElem inside] at empty
        exact Option.isNone_iff_eq_none.mpr empty
      have before : t.pool.findIdx (·.isNone) < t.pool.length :=
        List.findIdx_lt_length_of_exists ⟨_, List.getElem_mem inside, none?⟩
      exact absurd before (by rw [all]; exact Nat.lt_irrefl _)
    · refine .inr ⟨i, q, found, ?_⟩
      rcases closed with fresh | disconnected
      · exact ((pool.filed.sound i q found).fresh fresh).2.2
      · exact disconnected

private theorem repooled_quiet (quiet : t.tcpListen = false) : t.repooled = { t with
    pool := swept t.pool
    out := t.keptOut
    listening := none } := by
  rw [repooled, quiet]
  rfl

private theorem swept_free {i : Nat} {q : PoolQueue} (found : t.slot i = some q)
    (closed : q.isDisconnected = true) :
    (swept t.pool).findIdx (·.isNone) < (swept t.pool).length := by
  have inside : i < (swept t.pool).length := by
    rw [swept, List.length_map]
    exact lt_of_slotIn found
  have empty : slotIn (swept t.pool) i = none := by
    have here : slotIn t.pool i = some q := found
    rw [slotIn_swept, here, Option.filter_some, closed]
    rfl
  have none? : (swept t.pool)[i].isNone = true := by
    rw [slotIn, List.getElem?_eq_getElem inside] at empty
    exact Option.isNone_iff_eq_none.mpr empty
  exact List.findIdx_lt_length_of_exists ⟨_, List.getElem_mem inside, none?⟩

private theorem calling_repool (calling : Calling address t) {other : Bytes} {n : Nat}
    (stage : t.stage = .searched other n) (full : t.pool.length ≤ n)
    (success : t.connectRepool other = .ok u) : Calling address u ∧ sectionsLeft u = 2 := by
  have holds := calling.stage
  rw [stage] at holds
  obtain ⟨rfl, inside | ⟨i, q, found, closed⟩⟩ := holds
  · exact absurd inside (Nat.not_lt.mpr full)
  · have free := swept_free found closed
    have idle := calling.pool.repooled
    cases (connectRepool_eq calling.pool other).symm.trans success
    rw [repooled_quiet calling.quiet] at idle ⊢
    have some? : ¬(swept t.pool).length ≤ (swept t.pool).findIdx (·.isNone) :=
      Nat.not_le.mpr free
    have inside : (swept t.pool).findIdx (·.isNone) <
        ((swept t.pool).set ((swept t.pool).findIdx (·.isNone)) (some PoolQueue.fresh)).length := by
      rw [List.length_set]
      exact free
    simp only [searched, List.length_set, if_neg some?]
    refine ⟨⟨idle.search other, calling.quiet, rfl, .inl inside⟩, ?_⟩
    exact if_pos inside

private theorem calling_assign (calling : Calling address t) {other : Bytes} {n : Nat}
    (parsed : parseAddress address [] = .ok a) (named : a.host ≠ []) (positive : 0 < a.port)
    (stage : t.stage = .searched other n) (inside : n < t.pool.length)
    (success : t.connectAssign other n = .ok u) : Calling address u ∧ sectionsLeft u = 1 := by
  have holds := calling.stage
  rw [stage] at holds
  obtain ⟨rfl, -⟩ := holds
  have kept := (meets_connectAssign calling.pool stage inside).value success
  cases (connectAssign_ok calling.pool stage inside parsed).symm.trans success
  exact ⟨⟨kept, calling.quiet, rfl, named, positive⟩, rfl⟩

private theorem calling_dial (calling : Calling address t) {other host : Bytes} {n : Nat}
    {port : UInt16} {resolved : Bool} (stage : t.stage = .assigned other n host port)
    (success : t.connectDial other n host port resolved = .ok u) :
    Calling address u ∧ sectionsLeft u = 0 := by
  have holds := calling.stage
  rw [stage] at holds
  obtain ⟨rfl, -, -⟩ := holds
  have filed := calling.pool.stage
  rw [stage] at filed
  have kept := (meets_connectDial calling.pool stage resolved).value success
  have recorded : t.out.lookup other = some n := lookup_of_mem calling.pool.filed.keys filed.2
  rw [connectDial] at success
  cases found : t.slot n with
  | none =>
      rw [found] at success
      cases success
  | some q =>
      rw [found] at success
      obtain ⟨next, -, success⟩ := bind_ok success
      obtain ⟨_, -, success⟩ := bind_ok success
      cases success
      exact ⟨⟨kept, calling.quiet, n, rfl, recorded⟩, rfl⟩

private theorem calling_step (calling : Calling address t)
    (parsed : parseAddress address [] = .ok a) (named : a.host ≠ []) (positive : 0 < a.port)
    (step : CallStep t event u) : Calling address u ∧
      (if event.isSection then 1 else 0) + sectionsLeft u ≤ sectionsLeft t := by
  obtain ⟨unsent, step⟩ := step
  have holds := calling.stage
  cases other : event.isOther with
  | true =>
      have touches := step_touches calling.pool step other
      have section? : event.isSection = false := by
        cases event <;> first | rfl | cases other
      refine ⟨calling.touched touches, ?_⟩
      rw [section?, touches.sectionsLeft]
      exact (Nat.zero_add _).le
  | false =>
      cases step with
      | connect idle =>
          rw [idle] at holds
          exact holds.elim
      | repool stage full success =>
          obtain ⟨kept, left⟩ := calling_repool calling stage full success
          refine ⟨kept, ?_⟩
          rw [left, sectionsLeft, stage]
          simp only [if_neg (Nat.not_lt.mpr full)]
          exact le_rfl
      | assign stage inside success =>
          obtain ⟨kept, left⟩ := calling_assign calling parsed named positive stage inside success
          refine ⟨kept, ?_⟩
          rw [left, sectionsLeft, stage]
          simp only [if_pos inside]
          exact le_rfl
      | dial stage success =>
          obtain ⟨kept, left⟩ := calling_dial calling stage success
          refine ⟨kept, ?_⟩
          rw [left, sectionsLeft, stage]
          exact le_rfl
      | send => exact absurd rfl (unsent _)
      | teardown idle =>
          rw [idle] at holds
          exact holds.elim
      | established => cases other
      | closed => cases other
      | arrives => cases other
      | receive => cases other

private theorem calling_proceeds (calling : Calling address t)
    (parsed : parseAddress address [] = .ok a) : Proceeds t := by
  have holds := calling.stage
  have filed := calling.pool.stage
  rw [Proceeds]
  cases stage : t.stage with
  | idle =>
      rw [stage] at holds
      exact holds
  | searched other n =>
      rw [stage] at holds
      obtain ⟨rfl, -⟩ := holds
      simp only
      split
      · rename_i inside
        exact ⟨_, .assign stage inside (connectAssign_ok calling.pool stage inside parsed)⟩
      · rename_i full
        exact ⟨_, .repool stage (Nat.not_lt.mp full) (connectRepool_eq calling.pool other)⟩
  | assigned other n host port =>
      rw [stage] at holds filed
      obtain ⟨rfl, named, positive⟩ := holds
      obtain ⟨⟨q, here, fresh⟩, -⟩ := filed
      intro resolved
      have found : t.slot n = some q := here
      obtain ⟨next, connects⟩ : ∃ next, q.connect other host port resolved = .ok next :=
        connect_ok (calling.pool.filed.sound n q here) fresh named positive resolved
      have bound : decide (n ≤ t.pool.length) = true := decide_eq_true (lt_of_slotIn here).le
      refine ⟨{ t with
        pool := t.pool.set n (some next)
        stage := .returned (some n) }, .dial stage ?_⟩
      simp only [connectDial, found, connects, ok_bind, bound, ensure_true, pure_ok]
  | returned r => trivial

private theorem calling_of_run {events : List PoolEvent} (pool : PoolInvariant s)
    (quiet : s.tcpListen = false) (free : FreeSlot s)
    (unconnected : s.getConnectedQueue address = .ok none)
    (parsed : parseAddress address [] = .ok a) (named : a.host ≠ []) (positive : 0 < a.port)
    (run : CallRun s address events t) :
    Calling address t ∧ events.countP (·.isSection) + sectionsLeft t ≤ 3 := by
  apply run.invariant fun events t =>
    Calling address t ∧ events.countP (·.isSection) + sectionsLeft t ≤ 3
  · intro first began
    cases began with
    | connect idle success =>
        rw [connectSearch, unconnected, ok_bind, findNextAvailable_eq] at success
        cases success
        refine ⟨calling_searched pool quiet free, ?_⟩
        rw [sectionsLeft, List.countP_nil, Nat.zero_add]
        simp only
        split
        · decide
        · decide
  · intro labels between event next _ calling step
    obtain ⟨calling, left⟩ := calling
    obtain ⟨kept, less⟩ := calling_step calling parsed named positive step
    refine ⟨kept, ?_⟩
    rw [List.countP_append, List.countP_singleton]
    omega

private theorem findIdx_full {pool : List (Option PoolQueue)}
    (all : ∀ p ∈ pool, p.isSome = true) : pool.findIdx (·.isNone) = pool.length := by
  refine List.findIdx_eq_length.mpr fun p member => ?_
  exact Option.isNone_eq_false_iff.mpr (all p member)

/-- A manager that listens has no empty slot, before and after its connections
are torn down, so that its call returns nothing. -/
private theorem listening_returns_none (pool : PoolInvariant s) (idle : s.stage = .idle)
    (listen : s.tcpListen = true) (unconnected : s.getConnectedQueue address = .ok none) :
    ∃ t, CallRun s address [.repool] t ∧ t.stage = .returned none := by
  have full := findIdx_full (pool.listens listen).2
  have repooled : PoolInvariant { s.repooled with stage := .idle } := pool.repooled
  have still : s.repooled.tcpListen = true := by
    rw [ConnectionManager.repooled]
    split <;> exact listen
  have fullAgain : s.repooled.pool.findIdx (·.isNone) = s.repooled.pool.length :=
    findIdx_full (repooled.listens still).2
  have unchanged : s.searched = s := by
    rw [searched, List.set_eq_of_length_le full.ge]
  have began : PoolStep s (.connect address) { s with
      stage := .searched address s.pool.length } := by
    refine .connect idle ?_
    rw [connectSearch, unconnected, ok_bind, findNextAvailable_eq, ok_bind, unchanged, full]
    rfl
  have between : PoolInvariant { s with stage := .searched address s.pool.length } :=
    pool.restage fun inside => absurd inside (Nat.lt_irrefl _)
  have repools := PoolStep.repool (s := { s with stage := .searched address s.pool.length }) rfl
    le_rfl (connectRepool_eq between address)
  refine ⟨_, .single began ⟨fun resolved => by simp, repools⟩, ?_⟩
  have same : ({ s with stage := .searched address s.pool.length } : ConnectionManager).repooled.pool
      = s.repooled.pool := by
    rw [ConnectionManager.repooled, ConnectionManager.repooled]
    split <;> rfl
  simp only [searched, List.length_set, same, fullAgain, le_refl, if_true]

end Quiet

/-- With a free slot, `connect` returns a queue for a well-formed address that
has none exactly if the manager does not listen. -/
theorem pool_available_iff {events : List PoolEvent} {s : ConnectionManager} {address : Bytes}
    {a : AddressComponents} (run : PoolRun events s) (idle : s.stage = .idle)
    (free : FreeSlot s) (parsed : parseAddress address [] = .ok a) (named : a.host ≠ [])
    (positive : 0 < a.port) (unconnected : s.getConnectedQueue address = .ok none) :
    Available s address ↔ s.tcpListen = false := by
  have pool := poolInvariant_of_run run
  constructor
  · intro available
    rw [← Bool.not_eq_true]
    intro listen
    obtain ⟨t, calls, returned⟩ := listening_returns_none pool idle listen unconnected
    obtain ⟨i, none?, -⟩ := available.returns _ t none calls returned
    cases none?
  · intro quiet
    have calling : ∀ events t, CallRun s address events t →
        Calling address t ∧ events.countP (·.isSection) + sectionsLeft t ≤ 3 := fun events t calls =>
      calling_of_run pool quiet free unconnected parsed named positive calls
    constructor
    · obtain ⟨next, success, -⟩ := connectSearch_ok pool address
      exact ⟨next, .connect idle success⟩
    · exact fun events t calls => calling_proceeds (calling events t calls).1 parsed
    · intro events t calls
      exact (Nat.le_add_right ..).trans (calling events t calls).2
    · intro events t r calls stage
      obtain ⟨kept, -⟩ := calling events t calls
      have holds := kept.stage
      rw [stage] at holds
      obtain ⟨i, rfl, recorded⟩ := holds
      obtain ⟨q, here, -⟩ := kept.pool.filed.named _ (mem_of_lookup recorded)
      exact ⟨i, rfl, recorded, Option.isSome_iff_exists.mpr ⟨q, here⟩⟩
    · intro _ events t calls
      obtain ⟨kept, -⟩ := calling events t calls
      rw [kept.pool.quiet kept.quiet, pool.quiet quiet]

def localhostParts : AddressComponents where
  address := localhost
  transport := ascii "tcp"
  host := ascii "localhost"
  port := 10
  options := []

theorem oneSlot_available : Available (oneSlot false) localhost ↔
    (oneSlot false).tcpListen = false :=
  pool_available_iff (a := localhostParts) (oneSlot_run false) (by decide +kernel)
    ⟨0, by decide +kernel, .inl (by decide +kernel)⟩ (by decide +kernel) (by decide)
    (by decide +kernel) (by decide +kernel)

/-- A manager that listens has a queue that was never connected, and its call
returns none. -/
theorem listening_unavailable : PoolRun [] (oneSlot true) ∧ Unconnected (oneSlot true) ∧
    (oneSlot true).getConnectedQueue localhost = .ok none ∧
    parseAddress localhost [] = .ok localhostParts ∧
    ∃ t, CallRun (oneSlot true) localhost [.repool] t ∧ t.stage = .returned none := by
  have run := oneSlot_run true
  have unconnected : (oneSlot true).getConnectedQueue localhost = .ok none := by decide +kernel
  refine ⟨run, ⟨0, by decide +kernel, .inr ⟨PoolQueue.fresh, by decide +kernel, rfl⟩⟩,
    unconnected, by decide +kernel, ?_⟩
  exact listening_returns_none (poolInvariant_of_run run) (by decide +kernel) (by decide +kernel)
    unconnected

end Firestr.Network
