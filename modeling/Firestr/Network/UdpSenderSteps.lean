import Firestr.Network.UdpSenderBase

/-! Everything the handlers of the sending half can do from a state between
two handlers: one inversion lemma each, from which every invariant follows. -/

set_option autoImplicit false

namespace Firestr.Network

open Firestr.Util Firestr.Library.Blocks

variable {Address : Type} {ip : IpAddresses Address} {log : List EndpointMessage}
  {s : UdpConnection Address}

section DoSend

private theorem doSend_transmit (c : MessageChunk) (rest : List MessageChunk) {address : Address}
    {queued : UdpConnection Address}
    (next : (if s.outQueue.isEmpty then s.queueNextChunk else .ok s) = .ok queued)
    (queue : queued.outQueue = c :: rest) (small : c.writeData.length ≤ maxUdpBuffSize)
    (resolved : ip.fromString c.host = some address) :
    s.doSend ip =
      if !c.resent && c.type != .ack then
        (UdpConnection.transmit { queued with outQueue := rest } c address).sentChunk c
      else .ok (UdpConnection.transmit { queued with outQueue := rest } c address) := by
  simp only [UdpConnection.doSend, pure_ok, next, ok_bind, queue, encodeUdpWire_eq _ small,
    resolved]
  rfl

private theorem sentChunk_advance {wm : WorkingMessage} {m : EndpointMessage} {sequence : UInt64}
    (sending : Sending m sequence wm) (sendable : Sendable ip m)
    (unsent : wm.nextSend < wm.proto.totalChunks.toNat)
    (working : s.outWorking sequence =
      some { wm with nextSend := wm.nextSend + 1, queued := wm.queued + 1 }) :
    s.sentChunk wm.nextChunk =
      if wm.robust = true ∨ wm.nextSend + 1 < wm.proto.totalChunks.toNat then
        .ok { s with outWorking := s.outWorking.put sequence wm.advance }
      else UdpConnection.cleanupMessage
        { s with outWorking := s.outWorking.put sequence wm.advance } sequence := by
  have bounded : wm.nextSend < 2 ^ 16 := lt_trans unsent wm.proto.totalChunks.toNat_lt
  have chunk : (wm.nextChunk).chunk.toNat = wm.nextSend := UInt16.toNat_ofNat_of_lt' bounded
  have named : (wm.nextChunk).sequence = sequence := by
    rw [WorkingMessage.nextChunk, chunkOf_sequence, sending.proto, prototypeOf_sequence]
  have typed : ((wm.nextChunk).type != .ack) = true := by
    rw [WorkingMessage.nextChunk, chunkOf_type, sending.proto, bne_iff_ne]
    exact prototypeOf_type_ne_ack sequence
  have fresh : (!(wm.nextChunk).resent) = true := by
    rw [WorkingMessage.nextChunk, chunkOf_resent, sending.proto, prototypeOf_resent]
    rfl
  have counted : (wm.sent.set wm.nextSend true).count true = wm.nextSend + 1 := by
    rw [sending.sent, set_sentBits (lt_of_lt_of_eq unsent (sending.total sendable)),
      count_sentBits]
  simp only [UdpConnection.sentChunk, typed, fresh, require_true, ok_bind, named, working,
    Option.getD_some, chunk, Nat.succ_pos, if_true, Nat.add_sub_cancel, pure_ok]
  have counts : (allSent { wm with
      sent := wm.sent.set wm.nextSend true, nextSend := wm.nextSend + 1 } = true) ↔
        ¬ wm.nextSend + 1 < wm.proto.totalChunks.toNat := by
    simp only [allSent, counted, beq_iff_eq]
    omega
  cases robust : wm.robust with
  | true =>
      have kind : (wm.proto.type == .msg) = true := robust
      simp [WorkingMessage.robust, kind, WorkingMessage.advance]
  | false =>
      have kind : (wm.proto.type == .msg) = false := robust
      simp only [WorkingMessage.robust, kind, WorkingMessage.advance, Bool.false_eq_true, if_false,
        false_or]
      by_cases last : wm.nextSend + 1 < wm.proto.totalChunks.toNat
      · rw [if_neg (mt counts.mp (not_not.mpr last)), if_pos last]
      · rw [if_pos (counts.mpr last), if_neg last]

private theorem small_chunk (n : Nat) (proto : MessageChunk) (data : Bytes) :
    (chunkOf n proto data).writeData.length ≤ maxUdpBuffSize :=
  le_trans (length_chunkOf_writeData n proto data) (by simp)

/-- `do_send` violates no contract, and does one of the five things. -/
theorem doSend_cases (base : SenderBase ip log s) :
    ∃ next, s.doSend ip = .ok next ∧ DoSend ip s next := by
  cases queue : s.outQueue with
  | cons c rest =>
      obtain ⟨typed, empty, resolved⟩ := base.acks c (by simp [queue])
      obtain ⟨address, resolved⟩ := Option.isSome_iff_exists.mp resolved
      refine ⟨_, ?_, .ack queue resolved⟩
      rw [doSend_transmit c rest (by simp [queue]) queue (by simp [empty]) resolved]
      simp [typed]
  | nil =>
      obtain ⟨queued, next, found⟩ := queueNextChunk_cases base
      have start : (if s.outQueue.isEmpty then s.queueNextChunk else .ok s) = .ok queued := by
        simpa [queue] using next
      cases found with
      | @idle index quiet =>
          refine ⟨_, ?_, @DoSend.idle _ ip s index queue quiet⟩
          simp [UdpConnection.doSend, queue, next]
      | @fresh index sequence wm working window =>
          obtain ⟨m, entry, sending⟩ := base.working _ _ working
          have sendable := base.sendable_of_numbered entry
          obtain ⟨address, resolved⟩ := Option.isSome_iff_exists.mp sendable.resolved
          have host : ip.fromString wm.proto.host = some address := by
            rw [sending.proto, prototypeOf_host, resolved]
          have fresh : (!(wm.nextChunk).resent && (wm.nextChunk).type != .ack) = true := by
            simp [WorkingMessage.nextChunk, sending.proto, prototypeOf_type_ne_ack]
          have sent := doSend_transmit wm.nextChunk [] start (by simp [queue])
            (small_chunk _ _ _) host
          rw [if_pos fresh, sentChunk_advance sending sendable window.1 (by
            simp [UdpConnection.transmit])] at sent
          by_cases more : wm.robust = true ∨ wm.nextSend + 1 < wm.proto.totalChunks.toNat
          · refine ⟨_, ?_, @DoSend.fresh _ ip s index _ _ _ queue working window more host⟩
            rw [sent, if_pos more]
            simp [UdpConnection.transmit, queue]
          · obtain ⟨plain, last⟩ := not_or.mp more
            have listed := (base.listed sequence).mpr (by simp [working])
            refine ⟨_, ?_, @DoSend.last _ ip s index _ _ _ queue working (by simpa using plain)
              (Nat.le_antisymm window.1 (Nat.le_of_not_lt last)) host⟩
            rw [sent, if_neg more]
            refine (cleanupMessage_eq ?_ ?_).trans ?_
            · exact base.ringKeyed.put wm.advance working rfl rfl
                (by simp [UdpConnection.transmit])
            · exact listed
            · simp [UdpConnection.transmit, UdpConnection.removed, queue]
      | @resend index position r wm id rest at? resends working =>
          obtain ⟨other, m, same, entry, sending, sendable⟩ := base.item (List.mem_of_getElem? at?)
          rw [working] at same
          cases same
          obtain ⟨address, resolved⟩ := Option.isSome_iff_exists.mp sendable.resolved
          have host : ip.fromString wm.proto.host = some address := by
            rw [sending.proto, prototypeOf_host, resolved]
          refine ⟨_, ?_, @DoSend.resend _ ip s index _ _ _ _ _ _ queue at? resends working host⟩
          rw [doSend_transmit (wm.resentChunk id) [] start (by simp [queue])
            (small_chunk id.toNat wm.proto wm.data) host]
          simp [UdpConnection.transmit, WorkingMessage.resentChunk, queue]

end DoSend

/-- The ack `c` confirms a chunk of `wm` for the first time. -/
structure Answers (s : UdpConnection Address) (c : MessageChunk) (wm : WorkingMessage) : Prop where
  working : s.outWorking c.sequence = some wm
  inside : c.chunk.toNat < wm.proto.totalChunks.toNat
  total : c.totalChunks = wm.proto.totalChunks
  fresh : wm.set.getD c.chunk.toNat false = false

/-- A working message after a chunk is confirmed. -/
def WorkingMessage.acked (wm : WorkingMessage) (chunk : Nat) : WorkingMessage :=
  { wm with
    set := wm.set.set chunk true
    ticks := 0
    inFlight := wm.inFlight - 1 }

section ValidateChunk

variable {c : MessageChunk} {wm : WorkingMessage}

theorem validateChunk_other (ack : c.type = .ack) (none? : ∀ wm, ¬ Answers s c wm) :
    s.validateChunk c = .ok s := by
  simp only [UdpConnection.validateChunk, ack, beq_self_eq_true, require_true, ok_bind, pure_ok]
  cases working : s.outWorking c.sequence with
  | none => rfl
  | some wm =>
      by_cases outside : c.chunk.toNat ≥ wm.proto.totalChunks.toNat
      · simp only [if_pos outside]
      by_cases different : c.totalChunks ≠ wm.proto.totalChunks
      · simp only [if_neg outside, if_pos different]
      by_cases known : wm.set.getD c.chunk.toNat false = true
      · simp only [if_neg outside, if_neg different, if_pos known]
      exact absurd ⟨working, Nat.not_le.mp outside, not_not.mp different,
        Bool.not_eq_true _ |>.mp known⟩ (none? wm)

private theorem validateChunk_answers (ack : c.type = .ack) (answers : Answers s c wm) :
    s.validateChunk c =
      if (wm.acked c.chunk.toNat).set.count true ≠ wm.proto.totalChunks.toNat then
        .ok { s with outWorking := s.outWorking.put c.sequence (wm.acked c.chunk.toNat) }
      else (do
        check (wm.sent.count true == wm.proto.totalChunks.toNat)
          "wm.sent.count() == wm.proto.total_chunks"
        check (wm.inFlight - 1 == 0) "wm.in_flight == 0"
        check (wm.queued == 0) "wm.queued == 0"
        UdpConnection.cleanupMessage
          { s with outWorking := s.outWorking.put c.sequence (wm.acked c.chunk.toNat) }
          c.sequence) := by
  have lowered : (if wm.inFlight > 0 then
      ({ wm with set := wm.set.set c.chunk.toNat true, ticks := 0, inFlight := wm.inFlight - 1 } :
        WorkingMessage)
    else { wm with set := wm.set.set c.chunk.toNat true, ticks := 0 }) =
      wm.acked c.chunk.toNat := by
    by_cases positive : wm.inFlight > 0
    · rw [if_pos positive]
      rfl
    · rw [if_neg positive, WorkingMessage.acked, show wm.inFlight - 1 = wm.inFlight by omega]
  have unset : ¬ wm.set.getD c.chunk.toNat false = true := by
    rw [answers.fresh]
    exact Bool.false_ne_true
  simp only [UdpConnection.validateChunk, ack, beq_self_eq_true, require_true, ok_bind, pure_ok,
    answers.working, if_neg (Nat.not_le.mpr answers.inside), if_neg (not_not.mpr answers.total),
    if_neg unset, lowered]
  rfl

theorem validateChunk_part (ack : c.type = .ack) (answers : Answers s c wm)
    (part : (wm.acked c.chunk.toNat).set.count true ≠ wm.proto.totalChunks.toNat) :
    s.validateChunk c = .ok
      { s with outWorking := s.outWorking.put c.sequence (wm.acked c.chunk.toNat) } := by
  rw [validateChunk_answers ack answers, if_pos part]

/-- The answer to the last missing chunk retires the message, if it finds the
counters it expects. -/
theorem validateChunk_whole (base : SenderBase ip log s) (ack : c.type = .ack)
    (answers : Answers s c wm)
    (whole : (wm.acked c.chunk.toNat).set.count true = wm.proto.totalChunks.toNat) :
    s.validateChunk c = (do
      check (wm.sent.count true == wm.proto.totalChunks.toNat)
        "wm.sent.count() == wm.proto.total_chunks"
      check (wm.inFlight - 1 == 0) "wm.in_flight == 0"
      check (wm.queued == 0) "wm.queued == 0"
      .ok (s.removed c.sequence)) := by
  have listed := (base.listed c.sequence).mpr (by simp [answers.working])
  have cleaned : UdpConnection.cleanupMessage
      { s with outWorking := s.outWorking.put c.sequence (wm.acked c.chunk.toNat) } c.sequence =
        .ok (s.removed c.sequence) := by
    refine (cleanupMessage_eq ?_ ?_).trans ?_
    · exact base.ringKeyed.put (wm.acked c.chunk.toNat) answers.working rfl rfl rfl
    · exact listed
    · simp [UdpConnection.removed]
  rw [validateChunk_answers ack answers, if_neg (not_not.mpr whole), cleaned]

end ValidateChunk

end Firestr.Network
