import Firestr.Network.UdpReassembly
import Firestr.Network.UdpSenderRuns

/-! What ties a receiver to a sender whose datagrams it reads: the receiver
has every chunk that it answers, or has pushed the message of that chunk. -/

set_option autoImplicit false

namespace Firestr.Network

open Firestr.Util Firestr.Library.Blocks Firestr.Library.BitSet

variable {Address : Type} {ip : IpAddresses Address} {log : List EndpointMessage}
  {sender receiver next : UdpConnection Address}

/-- The receiver has pushed a message with these bytes. -/
def Pushed (receiver : UdpConnection Address) (data : Bytes) : Prop :=
  ∃ em ∈ receiver.inQueue, em.data = data

/-- The receiver has pushed the message with a sequence number, or has the
chunk. -/
def Got (log : List EndpointMessage) (receiver : UdpConnection Address) (sequence : UInt64)
    (chunk : Nat) : Prop :=
  ∃ m, numbered log sequence = some m ∧
    (Pushed receiver m.data ∨ entryBit receiver.inWorking sequence chunk = true)

/-- The receiver's entries hold chunks of the sender's messages, and what the
sender counts as confirmed, and what the receiver confirms, the receiver got. -/
structure Delivery (log : List EndpointMessage) (sender receiver : UdpConnection Address) :
    Prop where
  gathering : ∀ sequence wm, receiver.inWorking sequence = some wm →
    ∃ m, numbered log sequence = some m ∧ Gathering m.data wm
  confirmed : ∀ sequence wm chunk, sender.outWorking sequence = some wm →
    wm.set.getD chunk false = true → Got log receiver sequence chunk
  queued : ∀ c ∈ receiver.outQueue, Got log receiver c.sequence c.chunk.toNat
  answered : ∀ d ∈ receiver.datagrams, ∀ c, Arrives d.bytes c → c.type = .ack →
    Got log receiver c.sequence c.chunk.toNat

theorem Got.append {sequence : UInt64} {chunk : Nat} (got : Got log receiver sequence chunk)
    (later : List EndpointMessage) : Got (log ++ later) receiver sequence chunk := by
  obtain ⟨m, entry, has⟩ := got
  exact ⟨m, numbered_append entry later, has⟩

section Sender

private theorem Delivery.sender_frame (delivery : Delivery log sender receiver)
    (later : List EndpointMessage)
    (bits : ∀ sequence wm chunk, next.outWorking sequence = some wm →
      wm.set.getD chunk false = true →
        (∃ old, sender.outWorking sequence = some old ∧ old.set.getD chunk false = true) ∨
          Got log receiver sequence chunk) : Delivery (log ++ later) next receiver where
  gathering sequence wm entry := by
    obtain ⟨m, named, gathering⟩ := delivery.gathering sequence wm entry
    exact ⟨m, numbered_append named later, gathering⟩
  confirmed sequence wm chunk working set := by
    rcases bits sequence wm chunk working set with ⟨old, known, before⟩ | got
    · exact (delivery.confirmed sequence old chunk known before).append later
    · exact got.append later
  queued c member := (delivery.queued c member).append later
  answered d member c arrives ack := (delivery.answered d member c arrives ack).append later

private theorem bits_put {sequence : UInt64} {wm : WorkingMessage}
    (changed : ∀ chunk, wm.set.getD chunk false = true →
      (∃ old, sender.outWorking sequence = some old ∧ old.set.getD chunk false = true) ∨
        Got log receiver sequence chunk)
    {key : UInt64} {found : WorkingMessage} {chunk : Nat}
    (working : sender.outWorking.put sequence wm key = some found)
    (set : found.set.getD chunk false = true) :
    (∃ old, sender.outWorking key = some old ∧ old.set.getD chunk false = true) ∨
      Got log receiver key chunk := by
  rcases (WorkingMessages.put_eq_some ..).mp working with ⟨rfl, rfl⟩ | ⟨-, known⟩
  · exact changed chunk set
  · exact .inl ⟨found, known, set⟩

private theorem bits_doSend (sent : DoSend ip sender next) {sequence : UInt64}
    {wm : WorkingMessage} {chunk : Nat} (working : next.outWorking sequence = some wm)
    (set : wm.set.getD chunk false = true) :
    ∃ old, sender.outWorking sequence = some old ∧ old.set.getD chunk false = true := by
  cases sent with
  | idle => exact ⟨wm, working, set⟩
  | ack => exact ⟨wm, working, set⟩
  | fresh queue known window more host =>
      rcases (WorkingMessages.put_eq_some ..).mp working with ⟨rfl, rfl⟩ | ⟨-, other⟩
      · exact ⟨_, known, set⟩
      · exact ⟨wm, other, set⟩
  | last => exact ⟨wm, ((WorkingMessages.erase_eq_some ..).mp working).2, set⟩
  | resend => exact ⟨wm, working, set⟩

/-- The sender's handlers keep the relation: an ack only confirms a chunk that
the receiver got. -/
theorem Delivery.sender_step (delivery : Delivery log sender receiver)
    (base : SenderBase ip log sender) {handler : Handler Address}
    (reads : ∀ source datagram, handler = .handleRead source datagram →
      ∃ d ∈ receiver.datagrams, d.bytes = datagram)
    (step : HandlerStep ip sender handler next) :
    Delivery (log ++ handler.messages) next receiver := by
  apply delivery.sender_frame
  cases step with
  | add =>
      intro sequence wm chunk working set
      refine bits_put (fun chunk set => ?_) working set
      rw [freshMessage, List.getD_eq_getElem?_getD, List.getElem?_replicate] at set
      split at set <;> cases set
  | doSend sent => exact fun _ _ _ working set => .inl (bits_doSend sent working set)
  | handleWrite sent =>
      intro sequence wm chunk working set
      obtain ⟨old, known, before⟩ := bits_doSend sent working set
      exact .inl ⟨old, known, before⟩
  | resend =>
      intro sequence wm chunk working set
      obtain ⟨old, known, ticked⟩ := Option.bind_eq_some_iff.mp working
      split at ticked
      · cases ticked
      · cases ticked
        exact .inl ⟨old, known, set⟩
  | noise => exact fun _ wm _ working set => .inl ⟨wm, working, set⟩
  | chunk => exact fun _ wm _ working set => .inl ⟨wm, working, set⟩
  | stale => exact fun _ wm _ working set => .inl ⟨wm, working, set⟩
  | @part source datagram c wm arrives ack answers part =>
      intro sequence found chunk working set
      refine bits_put (fun chunk set => ?_) working set
      have slot := answers.inside_set base
      rw [show (wm.acked c.chunk.toNat).set = wm.set.set c.chunk.toNat true from rfl,
        getD_set slot, Bool.or_eq_true, decide_eq_true_eq] at set
      rcases set with rfl | before
      · obtain ⟨d, member, rfl⟩ := reads _ _ rfl
        exact .inr (delivery.answered d member c arrives ack)
      · exact .inl ⟨wm, answers.working, before⟩
  | whole =>
      exact fun _ wm _ working set =>
        .inl ⟨wm, ((WorkingMessages.erase_eq_some ..).mp working).2, set⟩

end Sender

theorem SenderBase.piece (base : SenderBase ip log sender) {d : Datagram Address}
    (member : d ∈ sender.datagrams) {c : MessageChunk} (arrives : Arrives d.bytes c)
    (data? : c.type ≠ .ack) : ∃ m, numbered log c.sequence = some m ∧ Piece m.data c := by
  obtain ⟨m, n, data, same, number, -⟩ := base.chunk_of_datagram member arrives data?
  have sendable := base.sendable_of_numbered data.numbered
  refine ⟨m, data.numbered, sendable.counted, ?_, number ▸ data.inside, ?_⟩
  · rw [same]
    exact toNat_totalChunks_prototypeOf c.sequence sendable.counted
  · rw [number, same]
    rfl

section Receiver

theorem Got.frame {sequence : UInt64} {chunk : Nat} (got : Got log receiver sequence chunk)
    (queue : next.inQueue = receiver.inQueue) (entries : next.inWorking = receiver.inWorking) :
    Got log next sequence chunk := by
  obtain ⟨m, entry, has⟩ := got
  refine ⟨m, entry, ?_⟩
  rw [Pushed, queue, entries]
  exact has

private theorem Delivery.receiver_frame (delivery : Delivery log sender receiver)
    (queue : next.inQueue = receiver.inQueue) (entries : next.inWorking = receiver.inWorking)
    (acks : ∀ c ∈ next.outQueue, c ∈ receiver.outQueue)
    (datagrams : ∀ d ∈ next.datagrams, d ∈ receiver.datagrams ∨
      ∀ c, Arrives d.bytes c → c.type = .ack → Got log receiver c.sequence c.chunk.toNat) :
    Delivery log sender next where
  gathering := by rw [entries]; exact delivery.gathering
  confirmed sequence wm chunk working set :=
    (delivery.confirmed sequence wm chunk working set).frame queue entries
  queued c member := (delivery.queued c (acks c member)).frame queue entries
  answered d member c arrives ack := by
    rcases datagrams d member with earlier | got
    · exact (delivery.answered d earlier c arrives ack).frame queue entries
    · exact (got c arrives ack).frame queue entries

private theorem Delivery.receiver_doSend (delivery : Delivery log sender receiver)
    {own : List EndpointMessage} (base : SenderBase ip own receiver)
    (sent : DoSend ip receiver next) : Delivery log sender next := by
  have noAck : ∀ (sequence : UInt64) (wm : WorkingMessage) (ch c : MessageChunk) (n : Nat),
      receiver.outWorking sequence = some wm → ch.type = wm.proto.type →
      ch.writeData = block udpChunkSize wm.data n → Arrives (wire ch) c → c.type ≠ .ack := by
    intro sequence wm ch c n working typed payload arrives
    obtain ⟨m, entry, sending⟩ := base.working _ _ working
    have fits : headerSize + ch.writeData.length ≤ maxUdpBuffSize := by
      rw [payload]
      exact chunkOf_fits n wm.proto wm.data
    rw [arrives.unique (arrives_wire fits)]
    change ch.type ≠ .ack
    rw [typed, sending.proto]
    exact prototypeOf_type_ne_ack sequence
  cases sent with
  | idle => exact delivery.receiver_frame rfl rfl (fun _ member => member) fun _ member => .inl member
  | @ack c rest address queue resolved =>
      obtain ⟨typed, empty, -⟩ := base.acks c (by simp [queue])
      refine delivery.receiver_frame rfl rfl (fun other member => ?_) fun d member => ?_
      · rw [queue]
        exact .tail _ member
      · refine (List.mem_append.mp member).imp_right fun here other arrives _ => ?_
        rw [List.mem_singleton.mp here] at arrives
        rw [arrives.unique (arrives_wire (by rw [empty]; decide))]
        exact delivery.queued c (by simp [queue])
  | @fresh _ sequence wm _ queue working window more host =>
      refine delivery.receiver_frame rfl rfl (fun _ member => member) fun d member => ?_
      refine (List.mem_append.mp member).imp_right fun here other arrives ack => ?_
      rw [List.mem_singleton.mp here] at arrives
      exact absurd ack (noAck sequence wm wm.nextChunk other wm.nextSend working rfl rfl arrives)
  | @last _ sequence wm _ queue working plain last host =>
      refine delivery.receiver_frame rfl rfl (fun _ member => member) fun d member => ?_
      refine (List.mem_append.mp member).imp_right fun here other arrives ack => ?_
      rw [List.mem_singleton.mp here] at arrives
      exact absurd ack (noAck sequence wm wm.nextChunk other wm.nextSend working rfl rfl arrives)
  | @resend _ _ r wm id _ _ queue at? resends working host =>
      refine delivery.receiver_frame rfl rfl (fun _ member => member) fun d member => ?_
      refine (List.mem_append.mp member).imp_right fun here other arrives ack => ?_
      rw [List.mem_singleton.mp here] at arrives
      exact absurd ack (noAck r.wm wm (wm.resentChunk id) other id.toNat working rfl rfl arrives)

theorem entryBit_put {w : WorkingMessages} {sequence other : UInt64} {wm : WorkingMessage}
    {chunk : Nat} : entryBit (w.put sequence wm) other chunk =
      if other = sequence then wm.set.getD chunk false else entryBit w other chunk := by
  rw [entryBit, entryBit, WorkingMessages.put_apply]
  split <;> rfl

theorem entryBit_erase {w : WorkingMessages} {sequence other : UInt64}
    (different : other ≠ sequence) (chunk : Nat) :
    entryBit (w.erase sequence) other chunk = entryBit w other chunk := by
  rw [entryBit, entryBit, WorkingMessages.erase_of_ne _ _ different]

private theorem Delivery.takeChunk (delivery : Delivery log sender receiver) {m : EndpointMessage}
    {c : MessageChunk} (entry : numbered log c.sequence = some m) (piece : Piece m.data c)
    (ep : Endpoint) : Delivery log sender (receiver.takeChunk ep c) := by
  have gathered : ∀ wm, receiver.inWorking c.sequence = some wm → Gathering m.data wm := by
    intro wm working
    obtain ⟨other, named, gathering⟩ := delivery.gathering _ wm working
    cases entry.symm.trans named
    exact gathering
  have got : Got log (receiver.takeChunk ep c) c.sequence c.chunk.toNat ∧
      (∀ sequence chunk, Got log receiver sequence chunk →
        Got log (receiver.takeChunk ep c) sequence chunk) ∧
      ∀ sequence wm, (receiver.takeChunk ep c).inWorking sequence = some wm →
        ∃ m, numbered log sequence = some m ∧ Gathering m.data wm := by
    rcases insertion_piece piece gathered with ⟨wm, taken, gathering, bits⟩ | ⟨taken, -⟩
    · have entries : (receiver.takeChunk ep c).inWorking = receiver.inWorking.put c.sequence wm := by
        rw [UdpConnection.takeChunk, taken]
      have queue : (receiver.takeChunk ep c).inQueue = receiver.inQueue := by
        rw [UdpConnection.takeChunk, taken]
        rfl
      refine ⟨⟨m, entry, .inr ?_⟩, fun sequence chunk before => ?_, fun sequence found known => ?_⟩
      · rw [entries, entryBit_put, if_pos rfl, bits, decide_eq_true rfl, Bool.true_or]
      · obtain ⟨other, named, has⟩ := before
        refine ⟨other, named, ?_⟩
        rw [Pushed, queue, entries, entryBit_put]
        refine has.imp_right fun bit => ?_
        by_cases here : sequence = c.sequence
        · rw [if_pos here, bits, ← here, bit, Bool.or_true]
        · rw [if_neg here, bit]
      · rw [entries] at known
        rcases (WorkingMessages.put_eq_some ..).mp known with ⟨rfl, rfl⟩ | ⟨-, known⟩
        · exact ⟨m, entry, gathering⟩
        · exact delivery.gathering sequence found known
    · have entries : (receiver.takeChunk ep c).inWorking = receiver.inWorking.erase c.sequence := by
        rw [UdpConnection.takeChunk, taken]
      have queue : (receiver.takeChunk ep c).inQueue =
          receiver.inQueue ++ [{ ep := ep, data := m.data, robust := c.type == .msg }] := by
        rw [UdpConnection.takeChunk, taken]
        rfl
      have pushed : Pushed (receiver.takeChunk ep c) m.data := by
        rw [Pushed, queue]
        exact ⟨_, List.mem_append_right _ List.mem_cons_self, rfl⟩
      refine ⟨⟨m, entry, .inl pushed⟩, fun sequence chunk before => ?_, fun sequence found known => ?_⟩
      · obtain ⟨other, named, has⟩ := before
        refine ⟨other, named, ?_⟩
        by_cases here : sequence = c.sequence
        · rw [here] at named
          cases entry.symm.trans named
          exact .inl pushed
        · rw [entries, entryBit_erase here]
          refine has.imp_left fun before => ?_
          obtain ⟨em, member, same⟩ := before
          rw [Pushed, queue]
          exact ⟨em, List.mem_append_left _ member, same⟩
      · rw [entries] at known
        exact delivery.gathering sequence found ((WorkingMessages.erase_eq_some ..).mp known).2
  obtain ⟨here, kept, gathering⟩ := got
  refine ⟨gathering, fun sequence wm chunk working set =>
    kept _ _ (delivery.confirmed sequence wm chunk working set), fun ack member => ?_,
    fun d member other arrives ack => kept _ _ (delivery.answered d member other arrives ack)⟩
  rw [UdpConnection.takeChunk] at member
  by_cases robust : c.type = .msg
  · rw [if_pos robust] at member
    rcases List.mem_append.mp member with earlier | last
    · exact kept _ _ (delivery.queued ack earlier)
    · rw [List.mem_singleton.mp last]
      exact here
  · rw [if_neg robust] at member
    exact kept _ _ (delivery.queued ack member)

/-- The receiver's handlers keep the relation. -/
theorem Delivery.receiver_step (delivery : Delivery log sender receiver)
    (base : SenderBase ip log sender) {own : List EndpointMessage}
    (receiving : SenderBase ip own receiver) {handler : Handler Address}
    (reads : ∀ source datagram, handler = .handleRead source datagram →
      ∃ d ∈ sender.datagrams, d.bytes = datagram)
    (step : HandlerStep ip receiver handler next) : Delivery log sender next := by
  cases step with
  | add => exact delivery.receiver_frame rfl rfl (fun _ member => member) fun _ member => .inl member
  | doSend sent => exact delivery.receiver_doSend receiving sent
  | handleWrite sent =>
      have written : SenderBase ip own { receiver with outstanding := receiver.outstanding - 1 } :=
        receiving.frame rfl rfl rfl (fun _ member => member) rfl
      have waiting : Delivery log sender
          { receiver with outstanding := receiver.outstanding - 1 } :=
        delivery.receiver_frame rfl rfl (fun _ member => member) fun _ member => .inl member
      exact waiting.receiver_doSend written sent
  | resend =>
      exact delivery.receiver_frame rfl rfl (fun _ member => member) fun _ member => .inl member
  | noise => exact delivery
  | @chunk source datagram c arrives data? =>
      obtain ⟨d, member, rfl⟩ := reads _ _ rfl
      obtain ⟨m, entry, piece⟩ := base.piece member arrives data?
      exact delivery.takeChunk entry piece _
  | stale =>
      exact delivery.receiver_frame rfl rfl (fun _ member => member) fun _ member => .inl member
  | part =>
      exact delivery.receiver_frame rfl rfl (fun _ member => member) fun _ member => .inl member
  | whole =>
      exact delivery.receiver_frame rfl rfl (fun _ member => member) fun _ member => .inl member

end Receiver

end Firestr.Network
