import Firestr.Network.PoolSlots

/-! Runs of the connection pool: two addresses never share a slot, and no check
of the slots fails. -/

set_option autoImplicit false

namespace Firestr.Network

open Firestr.Library.Assoc Firestr.Library.Outcomes Firestr.Library.Runs Firestr.Util
  ConnectionManager

namespace ConnectionManager

section Equations

variable {s : ConnectionManager} {address : Bytes}

/-- The entries of `_out` that `cleanup_pool` keeps. -/
def keptOut (s : ConnectionManager) : List (Bytes × Nat) :=
  s.out.filter fun e => (slotIn (swept s.pool) e.2).isSome

/-- The manager after its connections are torn down and pooled again. -/
def repooled (s : ConnectionManager) : ConnectionManager :=
  if s.tcpListen then
    { s with
      pool := s.pool.map fun _ => some PoolQueue.fresh
      out := s.keptOut
      listening := some s.listened
      listened := s.listened + 1 }
  else
    { s with
      pool := swept s.pool
      out := s.keptOut
      listening := none }

theorem cleanupPool_eq (filed : Filed s.pool s.out) : s.cleanupPool = .ok { s with
    pool := swept s.pool
    out := s.keptOut } := by
  have inside : ∀ e ∈ s.out, e.2 < (swept s.pool).length := by
    intro e member
    obtain ⟨q, here, -⟩ := filed.named e member
    rw [swept, List.length_map]
    exact lt_of_slotIn here
  rw [cleanupPool]
  change (do
    let out ← eraseUnpooled (swept s.pool) s.out
    pure { s with
      pool := swept s.pool
      out := out } : Outcome ConnectionManager) = _
  rw [eraseUnpooled_eq inside]
  rfl

theorem teardown_eq (filed : Filed s.pool s.out) (port : s.tcpListen = true → 0 < s.localPort) :
    s.teardownAndRepoolTcpConnections = .ok s.repooled := by
  have cleaned : { s with listening := none }.cleanupPool = .ok { s with
      pool := swept s.pool
      out := s.keptOut
      listening := none } := cleanupPool_eq filed
  rw [teardownAndRepoolTcpConnections, cleaned, ok_bind]
  cases listen : s.tcpListen with
  | false =>
      simp only [listen, repooled]
      rfl
  | true =>
      have open? : decide (0 < s.localPort) = true := decide_eq_true (port listen)
      simp only [listen, repooled, createTcpPool, new_eq, createTcpEndpoint, open?, ok_bind,
        pure_ok, if_true, Option.isNone_none, require_true, swept, List.map_map]
      rfl

/-- `find_next_available` fills the first empty slot, if there is one. -/
def searched (s : ConnectionManager) : ConnectionManager :=
  { s with pool := s.pool.set (s.pool.findIdx (·.isNone)) (some PoolQueue.fresh) }

theorem findNextAvailable_eq :
    s.findNextAvailable = .ok (s.pool.findIdx (·.isNone), s.searched) := by
  have bound : s.pool.findIdx (·.isNone) ≤ s.pool.length := List.findIdx_le_length
  have found : (s.pool.findIdx (·.isNone) == s.searched.pool.length ||
      (s.searched.slot (s.pool.findIdx (·.isNone))).isSome) = true := by
    rcases bound.lt_or_eq with inside | all
    · have here : s.searched.slot (s.pool.findIdx (·.isNone)) = some PoolQueue.fresh := by
        rw [slot, searched, slotIn_set inside, if_pos rfl]
      rw [here]
      simp
    · rw [searched, List.length_set, ← all]
      simp
  simp only [findNextAvailable, new_eq, ok_bind]
  change (do
    ensure (s.pool.findIdx (·.isNone) == s.searched.pool.length ||
      (s.searched.slot (s.pool.findIdx (·.isNone))).isSome) _
    pure (s.pool.findIdx (·.isNone), s.searched) : Outcome (Nat × ConnectionManager)) = _
  rw [found]
  rfl

theorem slotIn_findIdx (inside : s.pool.findIdx (·.isNone) < s.pool.length) :
    slotIn s.pool (s.pool.findIdx (·.isNone)) = none := by
  have empty := List.findIdx_getElem (w := inside)
  rw [slotIn, List.getElem?_eq_getElem inside]
  exact Option.isNone_iff_eq_none.mp empty

end Equations

end ConnectionManager

/-- The slot that a call is about has a queue that was never connected, and no
address until the call gives it one. -/
def StageIn (pool : List (Option PoolQueue)) (out : List (Bytes × Nat)) : ConnectStage → Prop
  | .idle => True
  | .searched _ n => n < pool.length →
      (∃ q, slotIn pool n = some q ∧ q.connectedFor = none) ∧ ∀ e ∈ out, e.2 ≠ n
  | .assigned address n _ _ =>
      (∃ q, slotIn pool n = some q ∧ q.connectedFor = none) ∧ (address, n) ∈ out
  | .returned none => True
  | .returned (some i) => ∃ q, slotIn pool i = some q ∧ q.connectedFor.isSome = true

/-- The pool and its addresses are in step, and a manager that listens has a
port and a queue in every slot. -/
structure PoolInvariant (s : ConnectionManager) : Prop where
  filed : Filed s.pool s.out
  stage : StageIn s.pool s.out s.stage
  listens : s.tcpListen = true → 0 < s.localPort ∧ ∀ p ∈ s.pool, p.isSome = true
  quiet : s.tcpListen = false → s.listening = none

/-- What the other threads do to the manager: nothing, or they change the
connection or the messages of one queue. A disconnected queue stays so. -/
inductive Touches (s : ConnectionManager) : ConnectionManager → Prop where
  | same : Touches s s
  | queue {i : Nat} {q next : PoolQueue} : s.slot i = some q →
      next.connectedFor = q.connectedFor → next.mode = q.mode → next.running = q.running →
      next.out.isSome = true → (q.isDisconnected = true → next.isDisconnected = true) →
      Touches s { s with pool := s.pool.set i (some next) }

section Preserved

variable {s next : ConnectionManager} {address : Bytes} {event : PoolEvent}

/-- The new pool keeps the queues of the old one, each with its address. -/
theorem StageIn.mono {pool later : List (Option PoolQueue)} {out : List (Bytes × Nat)}
    {stage : ConnectStage} (holds : StageIn pool out stage) (size : later.length = pool.length)
    (kept : ∀ i q, slotIn pool i = some q →
      ∃ next, slotIn later i = some next ∧ next.connectedFor = q.connectedFor) :
    StageIn later out stage := by
  have fresh : ∀ n, (∃ q, slotIn pool n = some q ∧ q.connectedFor = none) →
      ∃ q, slotIn later n = some q ∧ q.connectedFor = none := by
    rintro n ⟨q, here, fresh⟩
    obtain ⟨next, there, same⟩ := kept n q here
    exact ⟨next, there, same.trans fresh⟩
  cases stage with
  | idle => trivial
  | searched _ n =>
      intro inside
      obtain ⟨queue, free⟩ := holds (size ▸ inside)
      exact ⟨fresh n queue, free⟩
  | assigned address n host port => exact ⟨fresh n holds.1, holds.2⟩
  | returned q =>
      cases q with
      | none => trivial
      | some i =>
          obtain ⟨q, here, own⟩ := holds
          obtain ⟨next, there, same⟩ := kept i q here
          exact ⟨next, there, same ▸ own⟩

private theorem kept_set {pool : List (Option PoolQueue)} {i : Nat} {q next : PoolQueue}
    (found : slotIn pool i = some q) (same : next.connectedFor = q.connectedFor) (j : Nat)
    (r : PoolQueue) (here : slotIn pool j = some r) :
    ∃ last, slotIn (pool.set i (some next)) j = some last ∧
      last.connectedFor = r.connectedFor := by
  rw [slotIn_set (lt_of_slotIn found)]
  split
  · rename_i slot
    subst slot
    cases found.symm.trans here
    exact ⟨next, rfl, same⟩
  · exact ⟨r, here, rfl⟩

private theorem isSome_of_mem_set {pool : List (Option PoolQueue)} {i : Nat} {q : PoolQueue}
    (all : ∀ p ∈ pool, p.isSome = true) : ∀ p ∈ pool.set i (some q), p.isSome = true := by
  intro p member
  rcases List.mem_or_eq_of_mem_set member with before | rfl
  · exact all p before
  · rfl

theorem PoolInvariant.touched (invariant : PoolInvariant s) (touches : Touches s next) :
    PoolInvariant next := by
  cases touches with
  | same => exact invariant
  | queue found same mode running made kept =>
      rename_i i q after
      have sound : after.Sound := by
        refine ⟨made, fun fresh => ?_⟩
        obtain ⟨delayed, idle, closed⟩ :=
          (invariant.filed.sound i q found).fresh (same.symm.trans fresh)
        exact ⟨mode.trans delayed, running.trans idle, kept closed⟩
      constructor
      · exact invariant.filed.replace found sound same
      · exact invariant.stage.mono List.length_set (kept_set found same)
      · exact fun listen => ⟨(invariant.listens listen).1,
          isSome_of_mem_set (invariant.listens listen).2⟩
      · exact invariant.quiet

/-- `receive` finds a queue for every address, and takes at most one message. -/
theorem receiveOutTcp_touches (filed : Filed s.pool s.out) (order : List (Bytes × Nat))
    (listed : order ⊆ s.out) :
    ∃ b next, s.receiveOutTcp order = .ok (b, next) ∧ Touches s next := by
  induction order with
  | nil => exact ⟨none, s, rfl, .same⟩
  | cons p order ih =>
      obtain ⟨c, here, -⟩ := filed.named p (listed List.mem_cons_self)
      have inside : decide (p.2 < s.pool.length) = true := decide_eq_true (lt_of_slotIn here)
      have made := (filed.sound p.2 c here).made
      have found : s.slot p.2 = some c := here
      cases queue : c.inQueue with
      | nil =>
          obtain ⟨b, next, success, touches⟩ := ih (List.subset_of_cons_subset listed)
          refine ⟨b, next, ?_, touches⟩
          simp only [receiveOutTcp, inside, check_true, ok_bind, found, queue, success]
      | cons b later =>
          refine ⟨some b, { s with pool := s.pool.set p.2 (some { c with inQueue := later }) }, ?_,
            .queue found rfl rfl rfl made id⟩
          simp only [receiveOutTcp, inside, check_true, ok_bind, found, queue, made, pure_ok]

theorem change_touches {i : Nat} {q : PoolQueue} {f : PoolQueue → PoolQueue}
    (found : s.slot i = some q) (same : (f q).connectedFor = q.connectedFor)
    (mode : (f q).mode = q.mode) (running : (f q).running = q.running)
    (made : (f q).out.isSome = true)
    (kept : q.isDisconnected = true → (f q).isDisconnected = true) :
    Touches s (s.change i f) := by
  rw [change, found]
  exact .queue found same mode running made kept

/-- What is not a step of `tcp_send_thread` only touches a queue. -/
theorem step_touches (invariant : PoolInvariant s) (step : PoolStep s event next)
    (other : event.isOther = true) : Touches s next := by
  cases step with
  | connect => cases other
  | repool => cases other
  | assign => cases other
  | dial => cases other
  | send => cases other
  | teardown => cases other
  | established found connecting =>
      refine change_touches found rfl rfl rfl rfl fun closed => ?_
      rw [PoolQueue.isDisconnected, connecting] at closed
      cases closed
  | closed found made => exact change_touches found rfl rfl rfl rfl fun _ => rfl
  | arrives found =>
      exact change_touches found rfl rfl rfl (invariant.filed.sound _ _ found).made id
  | receive permuted success =>
      obtain ⟨b, after, received, touches⟩ :=
        receiveOutTcp_touches invariant.filed _ permuted.subset
      cases received.symm.trans success
      exact touches

theorem PoolInvariant.restage (invariant : PoolInvariant s) {stage : ConnectStage}
    (holds : StageIn s.pool s.out stage) : PoolInvariant { s with stage := stage } :=
  ⟨invariant.filed, holds, invariant.listens, invariant.quiet⟩

private theorem repooled_invariant (filed : Filed s.pool s.out)
    (port : s.tcpListen = true → 0 < s.localPort) :
    PoolInvariant { s.repooled with stage := .idle } := by
  rw [ConnectionManager.repooled]
  cases listen : s.tcpListen with
  | false =>
      exact ⟨filed.swept, trivial, fun listens => absurd listens Bool.false_ne_true,
        fun _ => rfl⟩
  | true =>
      refine ⟨?_, trivial, fun _ => ⟨port listen, ?_⟩,
        fun quiet => absurd quiet.symm Bool.false_ne_true⟩
      · have refilled : Filed ((swept s.pool).map fun _ => some PoolQueue.fresh) s.keptOut :=
          filed.swept.refill
        rwa [swept, List.map_map] at refilled
      · intro p member
        obtain ⟨_, -, rfl⟩ := List.mem_map.mp member
        rfl

private theorem repooled_stage : s.repooled.stage = s.stage := by
  rw [repooled]
  split <;> rfl

private theorem repooled_idle (filed : Filed s.pool s.out)
    (port : s.tcpListen = true → 0 < s.localPort) (idle : s.stage = .idle) :
    PoolInvariant s.repooled := by
  have kept := repooled_invariant filed port
  rw [← idle, ← repooled_stage] at kept
  exact kept

theorem PoolInvariant.repooled (invariant : PoolInvariant s) :
    PoolInvariant { s.repooled with stage := .idle } :=
  repooled_invariant invariant.filed fun listen => (invariant.listens listen).1

theorem PoolInvariant.search (invariant : PoolInvariant s) (address : Bytes) :
    PoolInvariant { s.searched with
      stage := .searched address (s.pool.findIdx (·.isNone)) } := by
  have bound : s.pool.findIdx (·.isNone) ≤ s.pool.length := List.findIdx_le_length
  rcases bound.lt_or_eq with inside | all
  · have empty := slotIn_findIdx inside
    refine ⟨invariant.filed.fill inside, fun _ => ⟨⟨PoolQueue.fresh, ?_, rfl⟩, ?_⟩,
      fun listen => ⟨(invariant.listens listen).1,
        isSome_of_mem_set (invariant.listens listen).2⟩, invariant.quiet⟩
    · rw [searched, slotIn_set inside, if_pos rfl]
    · intro e member same
      obtain ⟨q, here, -⟩ := invariant.filed.named e member
      rw [same, empty] at here
      cases here
  · have unchanged : s.searched = s := by
      rw [searched, List.set_eq_of_length_le all.ge]
    rw [unchanged]
    refine invariant.restage fun inside => ?_
    exact absurd inside (by rw [all]; exact Nat.lt_irrefl _)

/-- A queue that `get_connected_queue` returns was connected to the address. -/
theorem getConnectedQueue_ok (filed : Filed s.pool s.out) (address : Bytes) :
    ∃ r, s.getConnectedQueue address = .ok r ∧
      ∀ i, r = some i → ∃ q, s.slot i = some q ∧ q.connectedFor = some address := by
  rw [getConnectedQueue]
  cases found : s.out.lookup address with
  | none => exact ⟨none, rfl, fun i same => by cases same⟩
  | some i =>
      obtain ⟨q, here, own⟩ := filed.named _ (mem_of_lookup found)
      simp only [getElem?_of_slotIn here, pure_ok]
      refine ⟨_, rfl, fun j same => ?_⟩
      split at same
      · cases same
      · rename_i connected
        cases same
        refine ⟨q, here, own.resolve_left fun fresh => ?_⟩
        exact connected ((filed.sound i q here).fresh fresh).2.2

/-- The results of the sections that neither parse nor connect. -/
theorem connectSearch_ok (invariant : PoolInvariant s) (address : Bytes) :
    ∃ next, s.connectSearch address = .ok next ∧ PoolInvariant next := by
  obtain ⟨r, success, own⟩ := getConnectedQueue_ok invariant.filed address
  cases r with
  | some i =>
      obtain ⟨q, here, own⟩ := own i rfl
      refine ⟨{ s with stage := .returned (some i) }, ?_, invariant.restage ⟨q, here, ?_⟩⟩
      · rw [connectSearch, success]
        rfl
      · rw [own]
        rfl
  | none =>
      refine ⟨_, ?_, invariant.search address⟩
      rw [connectSearch, success, ok_bind, findNextAvailable_eq]
      rfl

theorem connectRepool_eq (invariant : PoolInvariant s) (address : Bytes) :
    s.connectRepool address = .ok { s.repooled.searched with
      stage := if s.repooled.searched.pool.length ≤ s.repooled.pool.findIdx (·.isNone)
        then .returned none else .searched address (s.repooled.pool.findIdx (·.isNone)) } := by
  rw [connectRepool, teardown_eq invariant.filed fun listen => (invariant.listens listen).1,
    ok_bind, findNextAvailable_eq]
  rfl

theorem connectRepool_ok (invariant : PoolInvariant s) (address : Bytes) :
    ∃ next, s.connectRepool address = .ok next ∧ PoolInvariant next := by
  refine ⟨_, connectRepool_eq invariant address, ?_⟩
  have searched := invariant.repooled.search address
  split
  · exact searched.restage trivial
  · exact searched

private theorem mem_assign_self {out : List (Bytes × Nat)} {n : Nat} :
    (address, n) ∈ assign out address n := mem_of_lookup lookup_assign_self

theorem meets_connectAssign (invariant : PoolInvariant s) {n : Nat}
    (stage : s.stage = .searched address n) (inside : n < s.pool.length) :
    Meets NoCheck PoolInvariant (s.connectAssign address n) := by
  have holds := invariant.stage
  rw [stage] at holds
  obtain ⟨⟨q, here, fresh⟩, free⟩ := holds inside
  have found : s.slot n = some q := here
  have closed := ((invariant.filed.sound n q here).fresh fresh).2.2
  have parses := meets_parseAddress address []
  simp only [connectAssign, decide_eq_true inside, check_true, ok_bind, found, Option.isSome_some,
    Option.any_some, closed]
  cases parsed : parseAddress address [] with
  | ok a =>
      refine Meets.ok ⟨invariant.filed.assign here fresh free, ⟨⟨q, here, fresh⟩, ?_⟩,
        invariant.listens, invariant.quiet⟩
      exact mem_assign_self
  | error fault =>
      cases fault with
      | thrown what => exact Meets.ok (invariant.restage trivial)
      | raised kind expression => exact parses.error parsed
      | dangling => exact parses.error parsed
      | diverged => exact parses.error parsed

theorem meets_connectDial (invariant : PoolInvariant s) {n : Nat} {host : Bytes} {port : UInt16}
    (stage : s.stage = .assigned address n host port) (resolved : Bool) :
    Meets NoCheck PoolInvariant (s.connectDial address n host port resolved) := by
  have holds := invariant.stage
  rw [stage] at holds
  obtain ⟨⟨q, here, -⟩, listed⟩ := holds
  have found : s.slot n = some q := here
  rw [connectDial, found]
  refine Meets.bind (meets_connect (invariant.filed.sound n q here).made)
    fun next ⟨made, own⟩ => Meets.bind meets_ensure fun _ _ => Meets.ok ?_
  have sound : next.Sound := by
    refine ⟨made, fun fresh => ?_⟩
    cases own.symm.trans fresh
  refine ⟨invariant.filed.dial listed sound own, ⟨next, ?_, ?_⟩, fun listen =>
    ⟨(invariant.listens listen).1, isSome_of_mem_set (invariant.listens listen).2⟩,
    invariant.quiet⟩
  · rw [slotIn_set (lt_of_slotIn here), if_pos rfl]
  · rw [own]
    rfl

theorem meets_sendReturned (invariant : PoolInvariant s) {r : Option Nat}
    (stage : s.stage = .returned r) (resolved : Bool) :
    Meets NoCheck PoolInvariant (s.sendReturned r resolved) := by
  cases r with
  | none => exact Meets.ok (invariant.restage trivial)
  | some i =>
      have holds := invariant.stage
      rw [stage] at holds
      obtain ⟨q, here, connected⟩ := holds
      have found : s.slot i = some q := here
      rw [sendReturned, found]
      refine Meets.bind (meets_send (invariant.filed.sound i q here).made)
        fun next ⟨made, same⟩ => Meets.ok ?_
      have sound : next.Sound := by
        refine ⟨made, fun fresh => ?_⟩
        rw [← same, fresh] at connected
        cases connected
      exact ⟨invariant.filed.replace here sound same, trivial, fun listen =>
        ⟨(invariant.listens listen).1, isSome_of_mem_set (invariant.listens listen).2⟩,
        invariant.quiet⟩

theorem PoolInvariant.step (invariant : PoolInvariant s) (step : PoolStep s event next) :
    PoolInvariant next := by
  cases other : event.isOther with
  | true => exact invariant.touched (step_touches invariant step other)
  | false =>
      cases step with
      | connect idle success =>
          obtain ⟨after, searched, kept⟩ := connectSearch_ok invariant _
          cases searched.symm.trans success
          exact kept
      | repool stage full success =>
          obtain ⟨after, searched, kept⟩ := connectRepool_ok invariant _
          cases searched.symm.trans success
          exact kept
      | assign stage inside success => exact (meets_connectAssign invariant stage inside).value success
      | dial stage success => exact (meets_connectDial invariant stage _).value success
      | send stage success => exact (meets_sendReturned invariant stage _).value success
      | teardown idle success =>
          rw [teardown_eq invariant.filed fun listen => (invariant.listens listen).1] at success
          cases success
          exact repooled_idle invariant.filed (fun listen => (invariant.listens listen).1) idle
      | established => cases other
      | closed => cases other
      | arrives => cases other
      | receive => cases other

theorem new_invariant {size : Nat} {localPort : UInt16} {tcpListen : Bool}
    (success : ConnectionManager.new size localPort tcpListen = .ok s) : PoolInvariant s := by
  obtain ⟨built, torn, success⟩ := bind_ok success
  obtain ⟨_, -, success⟩ := bind_ok success
  obtain ⟨_, -, success⟩ := bind_ok success
  cases success
  have port : tcpListen = true → 0 < localPort := by
    rintro rfl
    obtain ⟨cleaned, cleans, torn⟩ := bind_ok torn
    cases (cleanupPool_eq (Filed.empty size)).symm.trans cleans
    obtain ⟨pooled, pools, torn⟩ := bind_ok torn
    cases pools
    obtain ⟨_, -, torn⟩ := bind_ok torn
    obtain ⟨_, open?, -⟩ := bind_ok torn
    exact of_decide_eq_true (require_ok_iff.mp open?)
  have filed : Filed (List.replicate size none) [] := .empty size
  cases (teardown_eq filed port).symm.trans torn
  exact repooled_idle filed port rfl

theorem poolInvariant_of_run {events : List PoolEvent} (run : PoolRun events s) :
    PoolInvariant s := by
  induction run with
  | start started =>
      obtain ⟨size, localPort, tcpListen, success⟩ := started
      exact new_invariant success
  | step _ step ih => exact ih.step step

end Preserved

/-- What holds of the pool whatever happens: addresses name filled slots, no two
the same, an address gets its own queue, and no check fails. -/
structure PoolSafe (s : ConnectionManager) : Prop where
  filled : ∀ e ∈ s.out, e.2 < s.pool.length ∧ (s.slot e.2).isSome = true
  apart : ∀ e ∈ s.out, ∀ f ∈ s.out, e.1 ≠ f.1 → e.2 ≠ f.2
  own : ∀ address i, s.getConnectedQueue address = .ok (some i) →
    ∃ q, s.slot i = some q ∧ q.connectedFor = some address
  getConnectedQueue : ∀ address fault, s.getConnectedQueue address = .error fault → NoCheck fault
  cleanupPool : ∀ fault, s.cleanupPool = .error fault → NoCheck fault
  teardown : ∀ fault, s.teardownAndRepoolTcpConnections = .error fault → NoCheck fault
  connectSearch : ∀ address fault, s.connectSearch address = .error fault → NoCheck fault
  connectRepool : ∀ address fault, s.connectRepool address = .error fault → NoCheck fault
  connectAssign : ∀ address n fault, s.stage = .searched address n → n < s.pool.length →
    s.connectAssign address n = .error fault → NoCheck fault
  connectDial : ∀ address n host port resolved fault, s.stage = .assigned address n host port →
    s.connectDial address n host port resolved = .error fault → NoCheck fault
  send : ∀ r resolved fault, s.stage = .returned r →
    s.sendReturned r resolved = .error fault → NoCheck fault
  receiveOutTcp : ∀ order fault, order.Perm s.out →
    s.receiveOutTcp order = .error fault → NoCheck fault

/-- The pool is safe in every state of every run, also in the midst of a call. -/
theorem pool_safe {events : List PoolEvent} {s : ConnectionManager} (run : PoolRun events s) :
    PoolSafe s := by
  have invariant := poolInvariant_of_run run
  have filed := invariant.filed
  have port : s.tcpListen = true → 0 < s.localPort := fun listen => (invariant.listens listen).1
  constructor
  · intro e member
    obtain ⟨q, here, -⟩ := filed.named e member
    exact ⟨lt_of_slotIn here, Option.isSome_iff_exists.mpr ⟨q, here⟩⟩
  · intro e member f other different same
    exact different (filed.apart e member f other same)
  · intro address i returned
    obtain ⟨r, success, own⟩ := getConnectedQueue_ok filed address
    cases success.symm.trans returned
    exact own i rfl
  · intro address fault failed
    obtain ⟨r, success, -⟩ := getConnectedQueue_ok filed address
    cases success.symm.trans failed
  · intro fault failed
    cases (cleanupPool_eq filed).symm.trans failed
  · intro fault failed
    cases (teardown_eq filed port).symm.trans failed
  · intro address fault failed
    obtain ⟨next, success, -⟩ := connectSearch_ok invariant address
    cases success.symm.trans failed
  · intro address fault failed
    cases (connectRepool_eq invariant address).symm.trans failed
  · intro address n fault stage inside failed
    exact (meets_connectAssign invariant stage inside).error failed
  · intro address n host port resolved fault stage failed
    exact (meets_connectDial invariant stage resolved).error failed
  · intro r resolved fault stage failed
    exact (meets_sendReturned invariant stage resolved).error failed
  · intro order fault permuted failed
    obtain ⟨b, next, success, -⟩ := receiveOutTcp_touches filed order permuted.subset
    cases success.symm.trans failed

def oneSlot (tcpListen : Bool) : ConnectionManager :=
  valueD { pool := [], localPort := 0, tcpListen := tcpListen }
    (ConnectionManager.new 1 7000 tcpListen)

def localhost : Bytes := ascii "tcp://localhost:10"

theorem oneSlot_run (tcpListen : Bool) : PoolRun [] (oneSlot tcpListen) := by
  refine .start ⟨1, 7000, tcpListen, ?_⟩
  cases tcpListen with
  | false => exact ok_valueD (by decide +kernel)
  | true => exact ok_valueD (by decide +kernel)

/-- The manager in a call for an address, until the address has a queue. -/
def searchedSlot : ConnectionManager :=
  valueD (oneSlot false) ((oneSlot false).connectSearch localhost)

def assignedSlot : ConnectionManager :=
  valueD searchedSlot (searchedSlot.connectAssign localhost 0)

def dialedSlot : ConnectionManager :=
  valueD assignedSlot (assignedSlot.connectDial localhost 0 (ascii "localhost") 10 true)

private theorem dialedSlot_run :
    PoolRun [.connect localhost, .assign, .dial true] dialedSlot := by
  have searched : (oneSlot false).connectSearch localhost = .ok searchedSlot :=
    ok_valueD (by decide +kernel)
  have assigned : searchedSlot.connectAssign localhost 0 = .ok assignedSlot :=
    ok_valueD (by decide +kernel)
  have dialed : assignedSlot.connectDial localhost 0 (ascii "localhost") 10 true =
      .ok dialedSlot := ok_valueD (by decide +kernel)
  have first := (oneSlot_run false).step (.connect (by decide +kernel) searched)
  have second := first.step (.assign (by decide +kernel) (by decide +kernel) assigned)
  exact second.step (.dial (by decide +kernel) dialed)

theorem dialedSlot_safe : dialedSlot.out = [(localhost, 0)] ∧ PoolSafe dialedSlot :=
  ⟨by decide +kernel, pool_safe dialedSlot_run⟩

end Firestr.Network
