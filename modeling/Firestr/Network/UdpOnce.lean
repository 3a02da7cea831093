import Firestr.Library.Rounds
import Firestr.Network.UdpPair

/-! How often a message is pushed. The receiver forgets a message when it
pushes it, so chunks that arrive later begin it again. -/

set_option autoImplicit false

namespace Firestr.Network

open Firestr.Util Firestr.Library.Blocks Firestr.Library.BitSet Firestr.Library.Rounds
  Firestr.Library.Runs

variable {Address : Type} (ip : IpAddresses Address)

/-- The data chunk that a handler reads. -/
def Handler.dataRead : Handler Address → Option MessageChunk
  | .handleRead _ datagram =>
    if headerSize ≤ datagram.length then
      match decodeUdpWire datagram with
      | .ok c => if c.valid && c.type != .ack then some c else none
      | .error _ => none
    else none
  | _ => none

/-- Two connections, with the chunks that reached each side's `handle_read`,
and the sequence numbers under which it pushed messages. -/
structure Observed (Address : Type) where
  pair : Pair Address := fun _ => {}
  arrived : Side → List (UInt64 × Nat) := fun _ => []
  pushed : Side → List UInt64 := fun _ => []

/-- What is seen of a step of `side` that reads the chunk `read`: a message is
pushed when the queue has grown. -/
def Observed.see (o : Observed Address) (side : Side) (read : Option MessageChunk)
    (next : Pair Address) : Observed Address :=
  { pair := next
    arrived := Function.update o.arrived side
      (o.arrived side ++ read.toList.map fun c => (c.sequence, c.chunk.toNat))
    pushed := Function.update o.pushed side
      (o.pushed side ++ if (o.pair side).inQueue.length < (next side).inQueue.length then
        read.toList.map fun c => c.sequence else []) }

inductive ObservedStep : Observed Address → Side × Handler Address → Observed Address → Prop where
  | step {o : Observed Address} {side : Side} {handler : Handler Address} {next : Pair Address} :
      PairStep ip o.pair (side, handler) next →
      ObservedStep o (side, handler) (o.see side handler.dataRead next)

abbrev ObservedRun : List (Side × Handler Address) → Observed Address → Prop :=
  Run (fun o => o = {}) (ObservedStep ip)

/-- The chunks of one message that reached a side, in order. -/
def Observed.chunksOf (o : Observed Address) (side : Side) (sequence : UInt64) : List Nat :=
  (o.arrived side).filterMap fun arrival =>
    if arrival.1 = sequence then some arrival.2 else none

/-- The arrivals of a message of `count` chunks can be cut in two parts that
both have all its chunks. -/
def ArrivesTwice (count : Nat) (arrivals : List Nat) : Prop :=
  ∃ first second, arrivals = first ++ second ∧
    (∀ chunk < count, chunk ∈ first) ∧ ∀ chunk < count, chunk ∈ second

section DataRead

variable {ip} {handler : Handler Address} {c : MessageChunk}

theorem dataRead_eq_some : handler.dataRead = some c ↔
    ∃ source datagram, handler = .handleRead source datagram ∧ Arrives datagram c ∧
      c.type ≠ .ack := by
  cases handler with
  | handleRead source datagram =>
      simp only [Handler.dataRead]
      constructor
      · intro read
        split at read
        · rename_i long
          split at read
          · rename_i found decoded
            split at read
            · rename_i valid
              cases read
              simp only [Bool.and_eq_true, bne_iff_ne] at valid
              exact ⟨source, datagram, rfl, ⟨long, decoded, valid.1⟩, valid.2⟩
            · cases read
          · cases read
        · cases read
      · rintro ⟨_, _, ⟨⟩, arrives, data?⟩
        simp only [if_pos arrives.long, arrives.decoded, arrives.valid, Bool.true_and,
          bne_iff_ne.mpr data?, if_true]
  | addToWorkingSet m => simp [Handler.dataRead]
  | doSend => simp [Handler.dataRead]
  | handleWrite => simp [Handler.dataRead]
  | resend => simp [Handler.dataRead]

theorem receiving_step {s next : UdpConnection Address} (step : HandlerStep ip s handler next) :
    (handler.dataRead = none ∧ next.inWorking = s.inWorking ∧ next.inQueue = s.inQueue) ∨
      ∃ c ep, handler.dataRead = some c ∧ next = s.takeChunk ep c := by
  have ackRead : ∀ {source : Address × UInt16} {datagram : Bytes} {c : MessageChunk},
      Arrives datagram c → c.type = .ack →
      (Handler.handleRead source datagram).dataRead = none := by
    intro source datagram c arrives ack
    rw [Option.eq_none_iff_forall_ne_some]
    intro other read
    obtain ⟨_, _, ⟨⟩, again, data?⟩ := dataRead_eq_some.mp read
    exact data? (arrives.unique again ▸ ack)
  cases step with
  | add => exact .inl ⟨rfl, rfl, rfl⟩
  | doSend sent => cases sent <;> exact .inl ⟨rfl, rfl, rfl⟩
  | handleWrite sent => cases sent <;> exact .inl ⟨rfl, rfl, rfl⟩
  | resend => exact .inl ⟨rfl, rfl, rfl⟩
  | noise none? =>
      refine .inl ⟨?_, rfl, rfl⟩
      rw [Option.eq_none_iff_forall_ne_some]
      intro other read
      obtain ⟨_, _, ⟨⟩, arrives, -⟩ := dataRead_eq_some.mp read
      exact none? other arrives
  | chunk arrives data? =>
      exact .inr ⟨_, _, dataRead_eq_some.mpr ⟨_, _, rfl, arrives, data?⟩, rfl⟩
  | stale arrives ack => exact .inl ⟨ackRead arrives ack, rfl, rfl⟩
  | part arrives ack => exact .inl ⟨ackRead arrives ack, rfl, rfl⟩
  | whole arrives ack => exact .inl ⟨ackRead arrives ack, rfl, rfl⟩

end DataRead

/-- The receiver of a message collects its chunks round after round. -/
def Collecting (count : Nat) (receiver : UdpConnection Address) (sequence : UInt64)
    (arrivals : List Nat) (pushes : Nat) : Prop :=
  ∃ kept, Collected (fun chunk => chunk < count) arrivals pushes kept ∧
    ∀ chunk, entryBit receiver.inWorking sequence chunk = true ↔ chunk ∈ kept

section Collecting

variable {receiver : UdpConnection Address} {m : EndpointMessage} {c : MessageChunk}
  {arrivals : List Nat} {pushes : Nat}

/-- A chunk of the message continues its round or ends it with a push. -/
theorem Collecting.take
    (collecting : Collecting (chunkCount m.data.length) receiver c.sequence arrivals pushes)
    (gathered : ∀ wm, receiver.inWorking c.sequence = some wm → Gathering m.data wm)
    (piece : Piece m.data c) (ep : Endpoint) :
    Collecting (chunkCount m.data.length) (receiver.takeChunk ep c) c.sequence
      (arrivals ++ [c.chunk.toNat])
      (pushes + if receiver.inQueue.length < (receiver.takeChunk ep c).inQueue.length then 1
        else 0) := by
  obtain ⟨kept, collected, bits⟩ := collecting
  rcases insertion_piece piece gathered with ⟨wm, taken, gathering, after⟩ | ⟨taken, covered⟩
  · have entries : (receiver.takeChunk ep c).inWorking = receiver.inWorking.put c.sequence wm := by
      rw [UdpConnection.takeChunk, taken]
    have queue : (receiver.takeChunk ep c).inQueue = receiver.inQueue := by
      rw [UdpConnection.takeChunk, taken]
      rfl
    have now : ∀ chunk, entryBit (receiver.inWorking.put c.sequence wm) c.sequence chunk = true ↔
        chunk ∈ kept ++ [c.chunk.toNat] := by
      intro chunk
      rw [entryBit_put, if_pos rfl, after, Bool.or_eq_true, decide_eq_true_eq, bits,
        List.mem_append, List.mem_singleton, or_comm, eq_comm]
    rw [queue, if_neg (lt_irrefl _), Nat.add_zero]
    refine ⟨kept ++ [c.chunk.toNat], .more collected fun covers => ?_, ?_⟩
    · have count := count_eq_length_iff.mpr fun chunk inside => by
        rw [gathering.setLength] at inside
        have bit := (now chunk).mpr (covers chunk inside)
        rw [entryBit_put, if_pos rfl] at bit
        exact bit
      rw [gathering.setLength, ← gathering.total] at count
      have incomplete := gathering.incomplete
      rw [WorkingMessage.complete, decide_eq_true count] at incomplete
      cases incomplete
    · rw [entries]
      exact now
  · have entries : (receiver.takeChunk ep c).inWorking = receiver.inWorking.erase c.sequence := by
      rw [UdpConnection.takeChunk, taken]
    have queue : (receiver.takeChunk ep c).inQueue.length = receiver.inQueue.length + 1 := by
      rw [UdpConnection.takeChunk, taken]
      simp
    rw [if_pos (by rw [queue]; exact Nat.lt_succ_self _)]
    refine ⟨[], .full collected fun chunk inside => ?_, fun chunk => ?_⟩
    · rw [List.mem_append, List.mem_singleton]
      rcases covered chunk inside with here | before
      · exact .inr here.symm
      · exact .inl ((bits chunk).mp before)
    · rw [entries, entryBit, WorkingMessages.erase_self]
      simp

theorem Collecting.frame {sequence : UInt64} {count : Nat} {next : UdpConnection Address}
    (collecting : Collecting count receiver sequence arrivals pushes)
    (same : next.inWorking sequence = receiver.inWorking sequence) :
    Collecting count next sequence arrivals pushes := by
  obtain ⟨kept, collected, bits⟩ := collecting
  refine ⟨kept, collected, fun chunk => ?_⟩
  rw [entryBit, same]
  exact bits chunk

end Collecting

/-- Each side collects the messages of the other. -/
structure OnceInvariant (labels : List (Side × Handler Address)) (o : Observed Address) : Prop where
  pair : PairInvariant ip labels o.pair
  collecting : ∀ (side : Side) (sequence : UInt64) (m : EndpointMessage),
    numbered (sentBy side.other labels) sequence = some m →
    Collecting (chunkCount m.data.length) (o.pair side) sequence (o.chunksOf side sequence)
      ((o.pushed side).count sequence)
  unnumbered : ∀ (side : Side) (sequence : UInt64),
    numbered (sentBy side.other labels) sequence = none →
    o.chunksOf side sequence = [] ∧ (o.pushed side).count sequence = 0

section Once

variable {ip} {labels : List (Side × Handler Address)} {o next : Observed Address}

theorem OnceInvariant.start : OnceInvariant ip [] ({} : Observed Address) where
  pair := .start
  collecting side sequence m entry := by
    cases numbered_mem entry
  unnumbered side sequence _ := ⟨rfl, rfl⟩

private theorem OnceInvariant.otherSide (invariant : OnceInvariant ip labels o) {side : Side}
    {handler : Handler Address} {sequence : UInt64} {m : EndpointMessage}
    (entry : numbered (sentBy side labels ++ handler.messages) sequence = some m) :
    Collecting (chunkCount m.data.length) (o.pair side.other) sequence
      (o.chunksOf side.other sequence) ((o.pushed side.other).count sequence) := by
  have double := Side.other_other side
  cases before : numbered (sentBy side labels) sequence with
  | some old =>
      cases entry.symm.trans (numbered_append before _)
      exact invariant.collecting side.other sequence m (by rw [double]; exact before)
  | none =>
      obtain ⟨arrivals, pushes⟩ := invariant.unnumbered side.other sequence (by
        rw [double]; exact before)
      rw [arrivals, pushes]
      refine ⟨[], .start, fun chunk => ?_⟩
      cases working : (o.pair side.other).inWorking sequence with
      | none => simp [entryBit, working]
      | some wm =>
          obtain ⟨other, named, -⟩ := (invariant.pair.delivery side).gathering sequence wm working
          cases before.symm.trans named

private theorem OnceInvariant.actingSide (invariant : OnceInvariant ip labels o) {side : Side}
    {handler : Handler Address} {after : UdpConnection Address}
    (reads : ∀ source datagram, handler = .handleRead source datagram →
      ∃ d ∈ (o.pair side.other).datagrams, d.bytes = datagram)
    (step : HandlerStep ip (o.pair side) handler after) :
    (∀ sequence m, numbered (sentBy side.other labels) sequence = some m →
      Collecting (chunkCount m.data.length) after sequence
        (o.chunksOf side sequence ++ (handler.dataRead.toList.filterMap fun c =>
          if c.sequence = sequence then some c.chunk.toNat else none))
        ((o.pushed side).count sequence +
          if (o.pair side).inQueue.length < after.inQueue.length then
            (handler.dataRead.toList.map fun c => c.sequence).count sequence else 0)) ∧
    ∀ sequence, numbered (sentBy side.other labels) sequence = none →
      ∀ c ∈ handler.dataRead, c.sequence ≠ sequence := by
  rcases receiving_step step with ⟨none?, entries, queue⟩ | ⟨c, ep, read, rfl⟩
  · refine ⟨fun sequence m entry => ?_, fun sequence _ c read => ?_⟩
    · simp only [none?, Option.toList_none, List.filterMap_nil, List.append_nil, List.map_nil,
        List.count_nil, ite_self, Nat.add_zero]
      exact (invariant.collecting side sequence m entry).frame (by rw [entries])
    · rw [none?] at read
      cases read
  · obtain ⟨source, datagram, rfl, arrives, data?⟩ := dataRead_eq_some.mp read
    obtain ⟨d, member, rfl⟩ := reads _ _ rfl
    obtain ⟨m, entry, piece⟩ := (invariant.pair.base side.other).piece member arrives data?
    have delivery := invariant.pair.delivery side.other
    rw [Side.other_other] at delivery
    have gathered : ∀ wm, (o.pair side).inWorking c.sequence = some wm → Gathering m.data wm := by
      intro wm working
      obtain ⟨other, named, gathering⟩ := delivery.gathering _ wm working
      cases entry.symm.trans named
      exact gathering
    refine ⟨fun sequence other named => ?_, fun sequence unnamed found again => ?_⟩
    · simp only [read, Option.toList_some, List.filterMap_cons, List.filterMap_nil, List.map_cons,
        List.map_nil]
      by_cases here : c.sequence = sequence
      · subst here
        cases entry.symm.trans named
        have taken := (invariant.collecting side _ m entry).take gathered piece ep
        simpa using taken
      · have untouched : ((o.pair side).takeChunk ep c).inWorking sequence =
            (o.pair side).inWorking sequence := by
          rcases insertion_piece piece gathered with ⟨wm, taken, -⟩ | ⟨taken, -⟩
          · rw [UdpConnection.takeChunk, taken]
            exact WorkingMessages.put_of_ne _ _ _ (Ne.symm here)
          · rw [UdpConnection.takeChunk, taken]
            exact WorkingMessages.erase_of_ne _ _ (Ne.symm here)
        have framed := (invariant.collecting side sequence other named).frame untouched
        simpa [here] using framed
    · cases read.symm.trans again
      rintro rfl
      cases unnamed.symm.trans entry

section See

variable (o : Observed Address) (side : Side) (read : Option MessageChunk) (pair : Pair Address)
  (sequence : UInt64)

theorem chunksOf_see_self : (o.see side read pair).chunksOf side sequence =
    o.chunksOf side sequence ++ read.toList.filterMap fun c =>
      if c.sequence = sequence then some c.chunk.toNat else none := by
  simp only [Observed.chunksOf, Observed.see, Function.update_self, List.filterMap_append,
    List.filterMap_map]
  rfl

theorem count_pushed_see_self : ((o.see side read pair).pushed side).count sequence =
    (o.pushed side).count sequence +
      if (o.pair side).inQueue.length < (pair side).inQueue.length then
        (read.toList.map fun c => c.sequence).count sequence else 0 := by
  simp only [Observed.see, Function.update_self, List.count_append]
  split <;> rfl

theorem see_pair : (o.see side read pair).pair = pair := rfl

variable {side} {key : Side}

theorem chunksOf_see_of_ne (different : key ≠ side) :
    (o.see side read pair).chunksOf key sequence = o.chunksOf key sequence := by
  simp only [Observed.chunksOf, Observed.see, Function.update_of_ne different]

theorem pushed_see_of_ne (different : key ≠ side) :
    (o.see side read pair).pushed key = o.pushed key := by
  simp only [Observed.see, Function.update_of_ne different]

end See

theorem OnceInvariant.step (invariant : OnceInvariant ip labels o)
    {label : Side × Handler Address} (step : ObservedStep ip o label next) :
    OnceInvariant ip (labels ++ [label]) next := by
  cases step with
  | @step side handler pair stepped =>
      have kept := invariant.pair.step stepped
      cases stepped with
      | @handler _ _ after allowed reads success =>
          have handled := handlerStep_of_run (invariant.pair.base side) _ allowed success
          obtain ⟨collected, unread⟩ := invariant.actingSide reads handled
          have sameLog : sentBy side.other (labels ++ [(side, handler)]) =
              sentBy side.other labels := sentBy_append_of_ne _ _ side.other_ne
          refine ⟨kept, fun key sequence m entry => ?_, fun key sequence entry => ?_⟩
          · by_cases here : key = side
            · subst here
              rw [sameLog] at entry
              rw [chunksOf_see_self, count_pushed_see_self, see_pair, Function.update_self]
              exact collected sequence m entry
            · cases Side.eq_other_of_ne here
              rw [Side.other_other, sentBy_append_self] at entry
              rw [chunksOf_see_of_ne _ _ _ _ here, pushed_see_of_ne _ _ _ here, see_pair,
                Function.update_of_ne here]
              exact invariant.otherSide entry
          · by_cases here : key = side
            · subst here
              rw [sameLog] at entry
              obtain ⟨arrivals, pushes⟩ := invariant.unnumbered key sequence entry
              have others := unread sequence entry
              rw [chunksOf_see_self, count_pushed_see_self, arrivals, pushes]
              cases read : handler.dataRead with
              | none => simp
              | some c => simp [others c read]
            · cases Side.eq_other_of_ne here
              rw [Side.other_other, sentBy_append_self] at entry
              rw [chunksOf_see_of_ne _ _ _ _ here, pushed_see_of_ne _ _ _ here]
              refine invariant.unnumbered side.other sequence ?_
              rw [Side.other_other]
              cases before : numbered (sentBy side labels) sequence with
              | none => rfl
              | some old => cases entry.symm.trans (numbered_append before _)

theorem onceInvariant_of_run (run : ObservedRun ip labels o) : OnceInvariant ip labels o := by
  refine run.invariant _ ?_ ?_
  · rintro _ rfl
    exact .start
  · intro labels o label next _ invariant step
    exact invariant.step step

/-- A message is pushed at most once exactly when the arrivals of its chunks
cannot be cut in two parts that both have all its chunks. -/
theorem pushed_once_iff (run : ObservedRun ip labels o) {side : Side} {sequence : UInt64}
    {m : EndpointMessage} (added : numbered (sentBy side labels) sequence = some m) :
    (o.pushed side.other).count sequence ≤ 1 ↔
      ¬ ArrivesTwice (chunkCount m.data.length) (o.chunksOf side.other sequence) := by
  have invariant := onceInvariant_of_run run
  obtain ⟨kept, collected, -⟩ := invariant.collecting side.other sequence m (by
    rw [Side.other_other]; exact added)
  have sendable := (invariant.pair.base side).sendable_of_numbered added
  have twice := collected.two_le_iff ⟨0, blockCount_pos udpChunkSize_pos sendable.nonempty⟩
  rw [ArrivesTwice, ← not_iff_not, not_not, not_le]
  exact twice

end Once

section Hello

/-- The receiver of `hello` after its chunk has come again. -/
def helloDuplicated : UdpConnection Unit :=
  valueD {} (helloReceiver.handleRead loneHost ((), 6060) (wire helloChunk))

theorem helloDuplicated_eq :
    helloReceiver.handleRead loneHost ((), 6060) (wire helloChunk) = .ok helloDuplicated :=
  ok_valueD (by decide +kernel)

private theorem hello_taken {pair : Pair Unit} (sent : pair .left = helloSender)
    {after : UdpConnection Unit}
    (success : (pair .right).handleRead loneHost ((), 6060) (wire helloChunk) = .ok after) :
    PairStep loneHost pair (.right, .handleRead ((), 6060) (wire helloChunk))
      (Function.update pair .right after) := by
  refine .handler (show _ ≤ _ by decide) ?_ success
  rintro _ _ ⟨⟩
  exact ⟨⟨(), 6060, wire helloChunk⟩, by simp [Side.other, sent, helloSender_datagrams], rfl⟩

private theorem hello_runs : ∃ labels once twice, ObservedRun loneHost labels once ∧
    ObservedStep loneHost once (.right, .handleRead ((), 6060) (wire helloChunk)) twice ∧
    numbered (sentBy .left labels) 1 = some hello ∧ (once.pushed .right).count 1 = 1 ∧
    (twice.pushed .right).count 1 = 2 ∧ (twice.pair .right).inQueue.length = 2 := by
  have added : ObservedRun loneHost [(.left, .addToWorkingSet hello)] _ :=
    .single rfl (.step (.handler ⟨hello_sendable, by decide⟩ nofun
      (addToWorkingSet_eq .start hello_sendable (by decide))))
  have sent := added.step (.step (@PairStep.handler _ _ _ .left .doSend _ trivial nofun
    helloSender_eq))
  have once := sent.step (.step (hello_taken (Function.update_self ..) helloReceiver_eq))
  exact ⟨_, _, _, once, .step (hello_taken (by simp [see_pair]) helloDuplicated_eq),
    by decide +kernel, by decide +kernel, by decide +kernel, by decide +kernel⟩

theorem pushed_once_hello : ∃ labels o, ObservedRun loneHost labels o ∧
    ¬ ArrivesTwice (chunkCount hello.data.length) (o.chunksOf .right 1) := by
  obtain ⟨labels, once, twice, run, -, added, pushes, -, -⟩ := hello_runs
  exact ⟨labels, once, run, (pushed_once_iff run added).mp pushes.le⟩

/-- A duplicate of its only datagram pushes a message a second time. -/
theorem duplicate_pushed_twice : ∃ labels o, ObservedRun loneHost labels o ∧
    numbered (sentBy .left labels) 1 = some hello ∧ (o.pushed .right).count 1 = 2 ∧
    (o.pair .right).inQueue.length = 2 := by
  obtain ⟨labels, once, twice, run, again, added, -, pushes, length⟩ := hello_runs
  refine ⟨_, twice, run.step again, ?_, pushes, length⟩
  rw [sentBy_append_of_ne _ _ (by decide)]
  exact added

end Hello

end Firestr.Network
