import Firestr.Library.RoundRobin
import Firestr.Network.UdpSender

/-! The invariant of the sending half that needs no assumption on what is
received, and everything `do_send` can do from a state that satisfies it. -/

set_option autoImplicit false

namespace Firestr.Network

open Firestr.Util Firestr.Library.Blocks Firestr.Library.RoundRobin

variable {Address : Type} (ip : IpAddresses Address)

/-- A datagram of chunk `n` of the message with some sequence number. -/
structure DataDatagram (log : List EndpointMessage) (d : Datagram Address) (sequence : UInt64)
    (m : EndpointMessage) (n : Nat) : Prop where
  numbered : numbered log sequence = some m
  inside : n < chunkCount m.data.length
  bytes : d.bytes = wire (chunkOf n (prototypeOf sequence m) m.data)

/-- The connection after adding the messages of `log`, in order. The ring and
the working set list the same messages, only acks wait in the queue, and every
datagram is an ack or a chunk that counts as sent. -/
structure SenderBase (log : List EndpointMessage) (s : UdpConnection Address) : Prop where
  sendable : ∀ m ∈ log, Sendable ip m
  counter : s.sequence.toNat = log.length
  listed : ∀ sequence, sequence ∈ s.messageRing.map (·.wm) ↔ (s.outWorking sequence).isSome
  distinct : (s.messageRing.map (·.wm)).Nodup
  working : ∀ sequence wm, s.outWorking sequence = some wm →
    ∃ m, numbered log sequence = some m ∧ Sending m sequence wm
  resends : ∀ r ∈ s.messageRing, ∀ wm, s.outWorking r.wm = some wm →
    ∀ id ∈ r.resends, id.toNat < wm.nextSend
  acks : ∀ c ∈ s.outQueue,
    c.type = .ack ∧ c.writeData = [] ∧ (ip.fromString c.host).isSome
  datagrams : ∀ d ∈ s.datagrams,
    (∃ c, c.type = .ack ∧ c.writeData = [] ∧ d.bytes = wire c) ∨
      ∃ sequence m n, DataDatagram log d sequence m n ∧
        ∀ wm, s.outWorking sequence = some wm → n < wm.nextSend

theorem numbered_mem {log : List EndpointMessage} {sequence : UInt64} {m : EndpointMessage}
    (found : numbered log sequence = some m) : m ∈ log := by
  unfold numbered at found
  split at found
  · cases found
  · exact List.mem_of_getElem? found

section Base

variable {ip} {log : List EndpointMessage} {s : UdpConnection Address}

theorem SenderBase.sendable_of_numbered (base : SenderBase ip log s) {sequence : UInt64}
    {m : EndpointMessage} (found : numbered log sequence = some m) : Sendable ip m :=
  base.sendable m (numbered_mem found)

theorem SenderBase.item (base : SenderBase ip log s) {r : MessageRingItem}
    (member : r ∈ s.messageRing) :
    ∃ wm m, s.outWorking r.wm = some wm ∧ numbered log r.wm = some m ∧ Sending m r.wm wm ∧
      Sendable ip m := by
  have listed := (base.listed r.wm).mp (List.mem_map_of_mem member)
  obtain ⟨wm, found⟩ := Option.isSome_iff_exists.mp listed
  obtain ⟨m, entry, sending⟩ := base.working _ _ found
  exact ⟨wm, m, found, entry, sending, base.sendable_of_numbered entry⟩

end Base

/-- The connection after it has started a write of `c` to `address`. -/
def UdpConnection.transmit (s : UdpConnection Address) (c : MessageChunk) (address : Address) :
    UdpConnection Address :=
  { s with
    outBuffer := wire c
    outstanding := s.outstanding + 1
    datagrams := s.datagrams ++ [{ address := address, port := c.port, bytes := wire c }] }

def UdpConnection.removed (s : UdpConnection Address) (sequence : UInt64) :
    UdpConnection Address :=
  { s with
    messageRing := s.messageRing.filter fun r => r.wm != sequence
    outWorking := s.outWorking.erase sequence }

@[simp] theorem UdpConnection.removed_messageRing (s : UdpConnection Address)
    (sequence : UInt64) :
    (s.removed sequence).messageRing = s.messageRing.filter fun r => r.wm != sequence := rfl

@[simp] theorem UdpConnection.removed_outWorking (s : UdpConnection Address)
    (sequence : UInt64) : (s.removed sequence).outWorking = s.outWorking.erase sequence := rfl

/-- A working message after its next chunk has been sent. -/
def WorkingMessage.advance (wm : WorkingMessage) : WorkingMessage :=
  { wm with
    sent := wm.sent.set wm.nextSend true
    inFlight := if wm.robust then wm.inFlight + 1 else wm.inFlight
    nextSend := wm.nextSend + 1 }

/-- The chunk of `wm` that is sent next. -/
def WorkingMessage.nextChunk (wm : WorkingMessage) : MessageChunk :=
  chunkOf wm.nextSend wm.proto wm.data

/-- The chunk `id` of `wm`, sent again. -/
def WorkingMessage.resentChunk (wm : WorkingMessage) (id : UInt16) : MessageChunk :=
  { chunkOf id.toNat wm.proto wm.data with resent := true }

/-- No message of the ring has a chunk to send. -/
def RingIdle (s : UdpConnection Address) : Prop :=
  ∀ r ∈ s.messageRing, r.resends = [] ∧ ∀ wm, s.outWorking r.wm = some wm → ¬ WindowOpen wm

/-- What `queue_next_chunk` can do. -/
inductive QueueNextChunk (s : UdpConnection Address) : UdpConnection Address → Prop where
  | idle {next : Nat} : RingIdle s → QueueNextChunk s { s with nextMessage := next }
  | fresh {next : Nat} {sequence : UInt64} {wm : WorkingMessage} :
      s.outWorking sequence = some wm → WindowOpen wm →
      QueueNextChunk s { s with
        nextMessage := next
        outWorking := s.outWorking.put sequence
          { wm with nextSend := wm.nextSend + 1, queued := wm.queued + 1 }
        outQueue := s.outQueue ++ [wm.nextChunk] }
  | resend {next index : Nat} {r : MessageRingItem} {wm : WorkingMessage} {id : UInt16}
      {rest : List UInt16} :
      s.messageRing[index]? = some r → r.resends = id :: rest → s.outWorking r.wm = some wm →
      QueueNextChunk s { s with
        nextMessage := next
        messageRing := s.messageRing.set index { r with resends := rest }
        outQueue := s.outQueue ++ [wm.resentChunk id] }

/-- What `do_send` can do: send an ack, the next chunk of a message (the last
one of a message without acks retires it), or a chunk again. Without work it
only moves on in the ring. -/
inductive DoSend (s : UdpConnection Address) : UdpConnection Address → Prop where
  | idle {next : Nat} : s.outQueue = [] → RingIdle s → DoSend s { s with nextMessage := next }
  | ack {c : MessageChunk} {rest : List MessageChunk} {address : Address} :
      s.outQueue = c :: rest → ip.fromString c.host = some address →
      DoSend s (UdpConnection.transmit { s with outQueue := rest } c address)
  | fresh {next : Nat} {sequence : UInt64} {wm : WorkingMessage} {address : Address} :
      s.outQueue = [] → s.outWorking sequence = some wm → WindowOpen wm →
      wm.robust = true ∨ wm.nextSend + 1 < wm.proto.totalChunks.toNat →
      ip.fromString wm.proto.host = some address →
      DoSend s (UdpConnection.transmit
        { s with nextMessage := next, outWorking := s.outWorking.put sequence wm.advance }
        wm.nextChunk address)
  | last {next : Nat} {sequence : UInt64} {wm : WorkingMessage} {address : Address} :
      s.outQueue = [] → s.outWorking sequence = some wm → wm.robust = false →
      wm.nextSend + 1 = wm.proto.totalChunks.toNat →
      ip.fromString wm.proto.host = some address →
      DoSend s (UdpConnection.transmit
        (UdpConnection.removed { s with nextMessage := next } sequence) wm.nextChunk address)
  | resend {next index : Nat} {r : MessageRingItem} {wm : WorkingMessage} {id : UInt16}
      {rest : List UInt16} {address : Address} :
      s.outQueue = [] → s.messageRing[index]? = some r → r.resends = id :: rest →
      s.outWorking r.wm = some wm → ip.fromString wm.proto.host = some address →
      DoSend s (UdpConnection.transmit
        { s with
          nextMessage := next
          messageRing := s.messageRing.set index { r with resends := rest } }
        (wm.resentChunk id) address)

section QueueNextChunk

variable {ip} {log : List EndpointMessage} {s : UdpConnection Address}

private theorem loop_item (base : SenderBase ip log s) {index stop fuel : Nat}
    {r : MessageRingItem} (found : s.messageRing[index]? = some r) :
    (∃ next, UdpConnection.queueNextChunkLoop stop (fuel + 1) { s with nextMessage := index } =
        .ok next ∧ QueueNextChunk s next) ∨
      ((r.resends = [] ∧ ∀ wm, s.outWorking r.wm = some wm → ¬ WindowOpen wm) ∧
        UdpConnection.queueNextChunkLoop stop (fuel + 1) { s with nextMessage := index } =
          if (index + 1) % s.messageRing.length ≠ stop then
            UdpConnection.queueNextChunkLoop stop fuel
              { s with nextMessage := (index + 1) % s.messageRing.length }
          else .ok { s with nextMessage := (index + 1) % s.messageRing.length }) := by
  have member := List.mem_of_getElem? found
  obtain ⟨wm, m, working, entry, sending, sendable⟩ := base.item member
  by_cases window : WindowOpen wm
  · refine .inl ⟨_, ?_, @QueueNextChunk.fresh _ s index _ _ working window⟩
    simp [UdpConnection.queueNextChunkLoop, found, UdpConnection.deref, working,
      getNextChunk_open sending sendable window, WorkingMessage.nextChunk]
  · cases resends : r.resends with
    | cons id rest =>
        have bounded : id.toNat < wm.proto.totalChunks.toNat := by
          have sent := base.resends r member wm working id (by simp [resends])
          have below := sending.bounded
          rw [sending.total sendable]
          omega
        refine .inl ⟨_, ?_, @QueueNextChunk.resend _ s index _ _ _ _ _ found resends working⟩
        simp [UdpConnection.queueNextChunkLoop, found, UdpConnection.deref, working,
          getNextChunk_closed sending sendable window, resends, sending.nth sendable bounded,
          WorkingMessage.resentChunk]
    | nil =>
        have nonempty : s.messageRing.isEmpty = false := by
          cases ring : s.messageRing with
          | nil => simp [ring] at found
          | cons head tail => rfl
        have positive : 0 < s.messageRing.length :=
          List.length_pos_of_mem member
        refine .inr ⟨⟨rfl, ?_⟩, ?_⟩
        · intro other same
          rw [working] at same
          cases same
          exact window
        · simp [UdpConnection.queueNextChunkLoop, found, UdpConnection.deref, working,
            getNextChunk_closed sending sendable window, resends,
            UdpConnection.incrNextMessage, nonempty, Nat.mod_lt _ positive]

/-- The loop from the item after `visited` idle ones. Once it is back at its
start, no item has anything to send. -/
private theorem loop_round (base : SenderBase ip log s) {start : Nat}
    (inside : start < s.messageRing.length) (fuel visited : Nat)
    (sum : visited + fuel = s.messageRing.length) (positive : 0 < fuel)
    (idle : ∀ steps < visited, ∀ r,
      s.messageRing[(start + steps) % s.messageRing.length]? = some r →
        r.resends = [] ∧ ∀ wm, s.outWorking r.wm = some wm → ¬ WindowOpen wm) :
    ∃ next, UdpConnection.queueNextChunkLoop start fuel
        { s with nextMessage := (start + visited) % s.messageRing.length } = .ok next ∧
      QueueNextChunk s next := by
  induction fuel generalizing visited with
  | zero => omega
  | succ fuel ih =>
      have bounded : (start + visited) % s.messageRing.length < s.messageRing.length :=
        Nat.mod_lt _ (by omega)
      have found := List.getElem?_eq_getElem bounded
      rcases loop_item base found with done | ⟨quiet, loop⟩
      · exact done
      · have idleNow : ∀ steps < visited + 1, ∀ r,
            s.messageRing[(start + steps) % s.messageRing.length]? = some r →
              r.resends = [] ∧ ∀ wm, s.outWorking r.wm = some wm → ¬ WindowOpen wm := by
          intro steps below r at?
          rcases Nat.lt_succ_iff_lt_or_eq.mp below with earlier | rfl
          · exact idle steps earlier r at?
          · rw [found] at at?
            cases at?
            exact quiet
        rw [loop, succ_mod]
        by_cases back : visited + 1 = s.messageRing.length
        · rw [if_neg (by
            rw [(back_at_start_iff inside (Nat.succ_pos visited) (by omega)).mpr back]
            simp)]
          refine ⟨_, rfl, .idle ?_⟩
          intro r member
          obtain ⟨index, below, rfl⟩ := List.getElem_of_mem member
          obtain ⟨steps, short, same⟩ := exists_steps inside below
          refine idleNow steps (by omega) _ ?_
          rw [same, List.getElem?_eq_getElem below]
        · rw [if_pos fun same =>
            back ((back_at_start_iff inside (Nat.succ_pos visited) (by omega)).mp same)]
          exact ih (visited + 1) (by omega) (by omega) idleNow

/-- `queue_next_chunk` violates no contract, and its round ends. -/
theorem queueNextChunk_cases (base : SenderBase ip log s) :
    ∃ next, s.queueNextChunk = .ok next ∧ QueueNextChunk s next := by
  by_cases empty : s.messageRing = []
  · refine ⟨{ s with nextMessage := 0 }, ?_, .idle ?_⟩
    · simp [UdpConnection.queueNextChunk, UdpConnection.incrNextMessage, empty]
    · intro r member
      simp [empty] at member
  · have positive : 0 < s.messageRing.length := List.length_pos_of_ne_nil empty
    have inside := Nat.mod_lt (s.nextMessage + 1) positive
    obtain ⟨next, loop, result⟩ := loop_round base inside s.messageRing.length 0 (by omega)
      positive (by omega)
    refine ⟨next, ?_, result⟩
    simp only [Nat.add_zero, Nat.mod_eq_of_lt inside] at loop
    simpa [UdpConnection.queueNextChunk, UdpConnection.incrNextMessage, empty, inside] using loop

end QueueNextChunk

/-- Every item of the ring points to a working message under that number. -/
structure RingKeyed (s : UdpConnection Address) : Prop where
  pointed : ∀ r ∈ s.messageRing, ∃ wm, s.outWorking r.wm = some wm ∧ wm.proto.sequence = r.wm
  distinct : (s.messageRing.map (·.wm)).Nodup

section Cleanup

variable {ip} {log : List EndpointMessage} {s : UdpConnection Address} {sequence : UInt64}

theorem SenderBase.ringKeyed (base : SenderBase ip log s) : RingKeyed s where
  pointed r member := by
    obtain ⟨wm, m, working, -, sending, -⟩ := base.item member
    exact ⟨wm, working, by rw [sending.proto, prototypeOf_sequence]⟩
  distinct := base.distinct

private theorem eraseIdx_findIdx? {ring : List MessageRingItem} {test : MessageRingItem → Bool}
    (tests : ∀ r ∈ ring, test r = (r.wm == sequence)) (distinct : (ring.map (·.wm)).Nodup)
    (member : sequence ∈ ring.map (·.wm)) :
    ∃ index, ring.findIdx? test = some index ∧
      ring.eraseIdx index = ring.filter fun r => r.wm != sequence := by
  induction ring with
  | nil => cases member
  | cons r rest ih =>
      rw [List.map_cons, List.nodup_cons] at distinct
      rw [List.map_cons, List.mem_cons] at member
      have first := tests r List.mem_cons_self
      by_cases here : r.wm = sequence
      · refine ⟨0, by simp [List.findIdx?_cons, first, here], ?_⟩
        have others : ∀ other ∈ rest, (other.wm != sequence) = true := by
          intro other inRest
          rw [bne_iff_ne]
          rintro rfl
          exact distinct.1 (here ▸ List.mem_map_of_mem inRest)
        simp [here, List.filter_eq_self.mpr others]
      · obtain ⟨index, found, erased⟩ := ih (fun other inRest => tests other (.tail _ inRest))
          distinct.2 (member.resolve_left (Ne.symm here))
        exact ⟨index + 1, by simp [List.findIdx?_cons, first, here, found],
          by simp [here, erased]⟩

theorem cleanupMessage_eq (keyed : RingKeyed s) (member : sequence ∈ s.messageRing.map (·.wm)) :
    s.cleanupMessage sequence = .ok (s.removed sequence) := by
  have tests : ∀ r ∈ s.messageRing,
      ((s.outWorking r.wm).any fun wm => wm.proto.sequence == sequence) = (r.wm == sequence) := by
    intro r inRing
    obtain ⟨wm, working, named⟩ := keyed.pointed r inRing
    rw [working, Option.any_some, named]
  obtain ⟨index, found, erased⟩ := eraseIdx_findIdx? tests keyed.distinct member
  simp [UdpConnection.cleanupMessage, found, erased, UdpConnection.removed]

theorem RingKeyed.removed (keyed : RingKeyed s) : RingKeyed (s.removed sequence) where
  pointed r member := by
    obtain ⟨inRing, other⟩ := List.mem_filter.mp member
    obtain ⟨wm, working, named⟩ := keyed.pointed r inRing
    refine ⟨wm, ?_, named⟩
    rw [UdpConnection.removed_outWorking, WorkingMessages.erase_of_ne _ _ (by simpa using other),
      working]
  distinct := keyed.distinct.sublist (List.filter_sublist.map _)

theorem RingKeyed.put (keyed : RingKeyed s) {old : WorkingMessage} (wm : WorkingMessage)
    (working : s.outWorking sequence = some old) (same : wm.proto = old.proto)
    {next : UdpConnection Address} (ring : next.messageRing = s.messageRing)
    (after : next.outWorking = s.outWorking.put sequence wm) : RingKeyed next where
  pointed r member := by
    obtain ⟨found, pointed, named⟩ := keyed.pointed r (ring ▸ member)
    rw [after, WorkingMessages.put_apply]
    by_cases here : r.wm = sequence
    · rw [here, working] at pointed
      cases pointed
      exact ⟨wm, if_pos here, by rw [same, named]⟩
    · exact ⟨found, by rw [if_neg here, pointed], named⟩
  distinct := by
    rw [ring]
    exact keyed.distinct

end Cleanup

end Firestr.Network
