import Firestr.Network.UdpReceiver
import Firestr.Network.UdpResend
import Firestr.Network.UdpSenderSteps

/-! Every handler keeps the base invariant of the sending half. -/

set_option autoImplicit false

namespace Firestr.Network

open Firestr.Util Firestr.Library.Blocks

variable {Address : Type} {ip : IpAddresses Address} {log : List EndpointMessage}
  {s : UdpConnection Address}

section Datagrams

theorem chunkOf_fits (n : Nat) (proto : MessageChunk) (data : Bytes) :
    headerSize + (chunkOf n proto data).writeData.length ≤ maxUdpBuffSize := by
  have small := length_chunkOf_writeData n proto data
  rw [udpChunkSize_eq] at small
  rw [headerSize_eq, maxUdpBuffSize_eq]
  omega

theorem SenderBase.chunk_of_datagram (base : SenderBase ip log s) {d : Datagram Address}
    (member : d ∈ s.datagrams) {c : MessageChunk} (arrives : Arrives d.bytes c)
    (data? : c.type ≠ .ack) :
    ∃ m n, DataDatagram log d c.sequence m n ∧
      c = received (chunkOf n (prototypeOf c.sequence m) m.data) ∧ c.chunk.toNat = n ∧
      ∀ wm, s.outWorking c.sequence = some wm → n < wm.nextSend := by
  rcases base.datagrams d member with ⟨ack, typed, empty, bytes⟩ | ⟨sequence, m, n, data, below⟩
  · rw [bytes] at arrives
    have same := arrives.unique (arrives_wire (by rw [empty]; decide))
    rw [same] at data?
    exact absurd typed data?
  · have known := arrives
    rw [data.bytes] at known
    have same := known.unique (arrives_wire (chunkOf_fits _ _ _))
    have named : c.sequence = sequence := by rw [same]; rfl
    subst named
    have sendable := base.sendable_of_numbered data.numbered
    refine ⟨m, n, data, same, ?_, below⟩
    rw [same]
    exact UInt16.toNat_ofNat_of_lt' (lt_trans data.inside (chunkCount_lt sendable.counted))

end Datagrams

section Parts

theorem SenderBase.frame (base : SenderBase ip log s) {next : UdpConnection Address}
    (counter : next.sequence = s.sequence) (working : next.outWorking = s.outWorking)
    (ring : next.messageRing = s.messageRing) (queue : ∀ c ∈ next.outQueue, c ∈ s.outQueue)
    (datagrams : next.datagrams = s.datagrams) : SenderBase ip log next where
  sendable := base.sendable
  counter := by rw [counter, base.counter]
  listed := by rw [ring, working]; exact base.listed
  distinct := by rw [ring]; exact base.distinct
  working := by rw [working]; exact base.working
  resends := by rw [ring, working]; exact base.resends
  acks c member := base.acks c (queue c member)
  datagrams := by rw [datagrams, working]; exact base.datagrams

theorem SenderBase.transmit_ack (base : SenderBase ip log s) {c : MessageChunk}
    (ack : c.type = .ack) (empty : c.writeData = []) (address : Address) :
    SenderBase ip log (s.transmit c address) where
  sendable := base.sendable
  counter := base.counter
  listed := base.listed
  distinct := base.distinct
  working := base.working
  resends := base.resends
  acks := base.acks
  datagrams d member := by
    rcases List.mem_append.mp member with earlier | here
    · exact base.datagrams d earlier
    · rw [List.mem_singleton] at here
      subst here
      exact .inl ⟨c, ack, empty, rfl⟩

theorem SenderBase.transmit_chunk (base : SenderBase ip log s) {sequence : UInt64}
    {m : EndpointMessage} {n : Nat} (entry : numbered log sequence = some m)
    (inside : n < chunkCount m.data.length)
    (sent : ∀ wm, s.outWorking sequence = some wm → n < wm.nextSend) {c : MessageChunk}
    (same : wire c = wire (chunkOf n (prototypeOf sequence m) m.data)) (address : Address) :
    SenderBase ip log (s.transmit c address) where
  sendable := base.sendable
  counter := base.counter
  listed := base.listed
  distinct := base.distinct
  working := base.working
  resends := base.resends
  acks := base.acks
  datagrams d member := by
    rcases List.mem_append.mp member with earlier | here
    · exact base.datagrams d earlier
    · rw [List.mem_singleton] at here
      subst here
      exact .inr ⟨sequence, m, n, ⟨entry, inside, same⟩, sent⟩

theorem SenderBase.put (base : SenderBase ip log s) {sequence : UInt64} {old wm : WorkingMessage}
    (working : s.outWorking sequence = some old) (grown : old.nextSend ≤ wm.nextSend)
    (shape : ∀ m, numbered log sequence = some m → Sending m sequence old → Sending m sequence wm) :
    SenderBase ip log { s with outWorking := s.outWorking.put sequence wm } := by
  have before : ∀ key found, s.outWorking.put sequence wm key = some found →
      ∃ earlier, s.outWorking key = some earlier ∧ earlier.nextSend ≤ found.nextSend := by
    intro key found entry
    rcases (WorkingMessages.put_eq_some ..).mp entry with ⟨rfl, rfl⟩ | ⟨-, entry⟩
    · exact ⟨old, working, grown⟩
    · exact ⟨found, entry, le_rfl⟩
  exact {
    sendable := base.sendable
    counter := base.counter
    listed := fun key => by
      change _ ↔ (s.outWorking.put sequence wm key).isSome = true
      rw [base.listed, WorkingMessages.put_apply]
      by_cases here : key = sequence <;> simp [here, working]
    distinct := base.distinct
    working := fun key found entry => by
      rcases (WorkingMessages.put_eq_some ..).mp entry with ⟨rfl, rfl⟩ | ⟨-, entry⟩
      · obtain ⟨m, named, sending⟩ := base.working _ _ working
        exact ⟨m, named, shape m named sending⟩
      · exact base.working key found entry
    resends := fun r member found entry id queued => by
      obtain ⟨earlier, known, below⟩ := before _ _ entry
      exact lt_of_lt_of_le (base.resends r member earlier known id queued) below
    acks := base.acks
    datagrams := fun d member => by
      refine (base.datagrams d member).imp_right ?_
      rintro ⟨key, m, n, chunk, sent⟩
      refine ⟨key, m, n, chunk, fun found entry => ?_⟩
      obtain ⟨earlier, known, below⟩ := before _ _ entry
      exact lt_of_lt_of_le (sent earlier known) below }

theorem SenderBase.removed (base : SenderBase ip log s) (sequence : UInt64) :
    SenderBase ip log (s.removed sequence) := by
  have kept : ∀ key wm, s.outWorking.erase sequence key = some wm →
      s.outWorking key = some wm := fun key wm entry =>
    ((WorkingMessages.erase_eq_some ..).mp entry).2
  exact {
    sendable := base.sendable
    counter := base.counter
    listed := fun key => by
      rw [UdpConnection.removed_messageRing, UdpConnection.removed_outWorking,
        WorkingMessages.erase_apply]
      by_cases here : key = sequence
      · simp [here]
      · rw [if_neg here, ← base.listed]
        simp only [List.mem_map, List.mem_filter, bne_iff_ne]
        constructor
        · rintro ⟨r, ⟨member, -⟩, rfl⟩
          exact ⟨r, member, rfl⟩
        · rintro ⟨r, member, rfl⟩
          exact ⟨r, ⟨member, here⟩, rfl⟩
    distinct := base.ringKeyed.removed.distinct
    working := fun key wm entry => base.working key wm (kept key wm entry)
    resends := fun r member wm entry =>
      base.resends r (List.mem_of_mem_filter member) wm (kept _ wm entry)
    acks := base.acks
    datagrams := fun d member => by
      refine (base.datagrams d member).imp_right ?_
      rintro ⟨key, m, n, chunk, sent⟩
      exact ⟨key, m, n, chunk, fun wm entry => sent wm (kept key wm entry)⟩ }

theorem SenderBase.popResend (base : SenderBase ip log s) {index : Nat} {r : MessageRingItem}
    (at? : s.messageRing[index]? = some r) {id : UInt16} {rest : List UInt16}
    (resends : r.resends = id :: rest) :
    SenderBase ip log { s with messageRing := s.messageRing.set index { r with resends := rest } } := by
  have keys : (s.messageRing.set index { r with resends := rest }).map (·.wm) =
      s.messageRing.map (·.wm) := by
    apply List.ext_getElem?
    intro position
    by_cases here : index = position
    · subst here
      obtain ⟨inside, same⟩ := List.getElem?_eq_some_iff.mp at?
      simp [inside, same]
    · simp [here]
  exact {
    sendable := base.sendable
    counter := base.counter
    listed := fun key => by
      change key ∈ (s.messageRing.set index _).map _ ↔ _
      rw [keys, base.listed]
    distinct := by
      change ((s.messageRing.set index _).map _).Nodup
      rw [keys]
      exact base.distinct
    working := base.working
    resends := fun item member wm entry other queued => by
      rcases List.mem_or_eq_of_mem_set member with earlier | rfl
      · exact base.resends item earlier wm entry other queued
      · refine base.resends r (List.mem_of_getElem? at?) wm entry other ?_
        rw [resends]
        exact .tail _ queued
    acks := base.acks
    datagrams := base.datagrams }

end Parts

section Shapes

variable {m : EndpointMessage} {sequence : UInt64} {wm : WorkingMessage}

theorem Sending.advance (sending : Sending m sequence wm) (sendable : Sendable ip m)
    (unsent : wm.nextSend < wm.proto.totalChunks.toNat)
    (more : wm.robust = true ∨ wm.nextSend + 1 < wm.proto.totalChunks.toNat) :
    Sending m sequence wm.advance where
  proto := sending.proto
  data := sending.data
  queued := sending.queued
  setLength := sending.setLength
  sent := by
    rw [sending.total sendable] at unsent
    rw [WorkingMessage.advance, sending.sent, set_sentBits unsent]
  bounded := by
    rw [sending.total sendable] at unsent
    exact unsent
  unfinished plain := by
    rw [robust_eq sending.proto, plain, sending.total sendable] at more
    simpa [WorkingMessage.advance] using more

theorem Sending.acked (sending : Sending m sequence wm) (chunk : Nat) :
    Sending m sequence (wm.acked chunk) where
  proto := sending.proto
  data := sending.data
  queued := sending.queued
  setLength := by rw [WorkingMessage.acked, List.length_set, sending.setLength]
  sent := sending.sent
  bounded := sending.bounded
  unfinished := sending.unfinished

theorem Sending.tick (sending : Sending m sequence wm) : Sending m sequence wm.tick where
  proto := sending.proto
  data := sending.data
  queued := sending.queued
  setLength := sending.setLength
  sent := sending.sent
  bounded := sending.bounded
  unfinished := sending.unfinished

end Shapes

section Handlers

theorem SenderBase.doSend (base : SenderBase ip log s) {next : UdpConnection Address}
    (sent : DoSend ip s next) : SenderBase ip log next := by
  cases sent with
  | idle => exact base.frame rfl rfl rfl (fun _ member => member) rfl
  | @ack c rest address queue resolved =>
      obtain ⟨typed, empty, -⟩ := base.acks c (by simp [queue])
      have dequeued : SenderBase ip log { s with outQueue := rest } :=
        base.frame rfl rfl rfl (fun other member => by rw [queue]; exact .tail _ member) rfl
      exact dequeued.transmit_ack typed empty address
  | @fresh index sequence wm address queue working window more host =>
      obtain ⟨m, entry, sending⟩ := base.working _ _ working
      have sendable := base.sendable_of_numbered entry
      have moved : SenderBase ip log { s with nextMessage := index } :=
        base.frame rfl rfl rfl (fun _ member => member) rfl
      have advanced := moved.put working (Nat.le_succ _) fun other same sending =>
        sending.advance (base.sendable_of_numbered same) window.1 more
      refine advanced.transmit_chunk entry (lt_of_lt_of_eq window.1 (sending.total sendable)) ?_ ?_
        address
      · intro found known
        rcases (WorkingMessages.put_eq_some ..).mp known with ⟨-, rfl⟩ | ⟨other, -⟩
        · exact Nat.lt_succ_self _
        · exact absurd rfl other
      · rw [WorkingMessage.nextChunk, sending.proto, sending.data]
  | @last index sequence wm address queue working plain last host =>
      obtain ⟨m, entry, sending⟩ := base.working _ _ working
      have sendable := base.sendable_of_numbered entry
      have moved : SenderBase ip log { s with nextMessage := index } :=
        base.frame rfl rfl rfl (fun _ member => member) rfl
      have inside : wm.nextSend < chunkCount m.data.length := by
        rw [← sending.total sendable, ← last]
        exact Nat.lt_succ_self _
      refine (moved.removed sequence).transmit_chunk entry inside ?_ ?_ address
      · intro found known
        simp at known
      · rw [WorkingMessage.nextChunk, sending.proto, sending.data]
  | @resend next index r wm id rest address queue at? resends working host =>
      obtain ⟨m, entry, sending⟩ := base.working _ _ working
      have sendable := base.sendable_of_numbered entry
      have moved : SenderBase ip log { s with nextMessage := next } :=
        base.frame rfl rfl rfl (fun _ member => member) rfl
      have sent : id.toNat < wm.nextSend :=
        base.resends r (List.mem_of_getElem? at?) wm working id (by simp [resends])
      refine (moved.popResend at? resends).transmit_chunk entry
        (lt_of_lt_of_le sent sending.bounded) ?_ ?_ address
      · intro found known
        cases working.symm.trans known
        exact sent
      · rw [← sending.proto, ← sending.data]
        rfl

theorem SenderBase.tick (base : SenderBase ip log s) (posts : Nat) :
    SenderBase ip log (s.ticked posts) := by
  have before : ∀ key found, tickedWorking s.outWorking key = some found →
      ∃ wm, s.outWorking key = some wm ∧ found = wm.tick := by
    intro key found entry
    obtain ⟨wm, working, ticked⟩ := Option.bind_eq_some_iff.mp entry
    split at ticked
    · cases ticked
    · exact ⟨wm, working, (Option.some.inj ticked).symm⟩
  have keys : (tickedRing s).map (·.wm) =
      (s.messageRing.map (·.wm)).filter fun key => !exhaustedIn s.outWorking key := by
    rw [tickedRing, List.map_map, List.filter_map]
    rfl
  exact {
    sendable := base.sendable
    counter := base.counter
    listed := fun key => by
      change key ∈ (tickedRing s).map _ ↔ (tickedWorking s.outWorking key).isSome = true
      rw [keys, List.mem_filter, base.listed, tickedWorking, exhaustedIn]
      cases s.outWorking key with
      | none => simp
      | some wm => cases old : wm.tick.exhausted <;> simp [old]
    distinct := by
      change ((tickedRing s).map _).Nodup
      rw [keys]
      exact base.distinct.filter _
    working := fun key found entry => by
      obtain ⟨wm, working, rfl⟩ := before key found entry
      obtain ⟨m, named, sending⟩ := base.working key wm working
      exact ⟨m, named, sending.tick⟩
    resends := fun item member found entry id queued => by
      obtain ⟨r, kept, rfl⟩ := List.mem_map.mp member
      obtain ⟨wm, working, rfl⟩ := before _ found entry
      replace working : s.outWorking r.wm = some wm := working
      rcases List.mem_append.mp queued with earlier | again
      · exact base.resends r (List.mem_of_mem_filter kept) wm working id earlier
      · obtain ⟨m, named, sending⟩ := base.working _ wm working
        rw [working, Option.elim_some] at again
        exact toNat_lt_of_mem_dropped sending (base.sendable_of_numbered named) again
    acks := base.acks
    datagrams := fun d member => by
      refine (base.datagrams d member).imp_right ?_
      rintro ⟨key, m, n, chunk, sent⟩
      refine ⟨key, m, n, chunk, fun found entry => ?_⟩
      obtain ⟨wm, working, rfl⟩ := before key found entry
      exact sent wm working }

theorem SenderBase.takeChunk (base : SenderBase ip log s) (source : Address × UInt16)
    (c : MessageChunk) : SenderBase ip log (s.takeChunk (sourceEndpoint ip source) c) where
  sendable := base.sendable
  counter := base.counter
  listed := base.listed
  distinct := base.distinct
  working := base.working
  resends := base.resends
  acks other member := by
    rw [UdpConnection.takeChunk] at member
    by_cases robust : c.type = .msg
    · rw [if_pos robust] at member
      rcases List.mem_append.mp member with earlier | here
      · exact base.acks other earlier
      · rw [List.mem_singleton] at here
        subst here
        refine ⟨rfl, rfl, ?_⟩
        rw [ackFor, sourceEndpoint, ip.fromString_toString]
        rfl
    · rw [if_neg robust] at member
      exact base.acks other member
  datagrams := base.datagrams

theorem SenderBase.acked (base : SenderBase ip log s) {sequence : UInt64} {wm : WorkingMessage}
    (working : s.outWorking sequence = some wm) (chunk : Nat) :
    SenderBase ip log { s with outWorking := s.outWorking.put sequence (wm.acked chunk) } :=
  base.put working le_rfl fun _ _ sending => sending.acked chunk

end Handlers

end Firestr.Network
