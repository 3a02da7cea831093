import Firestr.Library.BitSet
import Firestr.Network.UdpHandlerStep

/-! The counters of the sending half. They agree with the sent and confirmed
bits as long as no ack confirms a chunk before it is sent, and then no handler
violates a contract. -/

set_option autoImplicit false

namespace Firestr.Network

open Firestr.Util Firestr.Library.Blocks Firestr.Library.BitSet

variable {Address : Type} {ip : IpAddresses Address} {log : List EndpointMessage}
  {s next : UdpConnection Address}

/-- Only sent chunks are confirmed, and the others of a message with acks are
in flight. -/
structure Confirmed (wm : WorkingMessage) : Prop where
  confirmed : ∀ chunk, wm.set.getD chunk false = true → chunk < wm.nextSend
  inFlight : wm.robust = true → wm.inFlight + wm.set.count true = wm.nextSend
  window : wm.robust = true → wm.inFlight ≤ maxFlight

/-- The counters of every working message agree with its bits. -/
def Flight (s : UdpConnection Address) : Prop :=
  ∀ sequence wm, s.outWorking sequence = some wm → Confirmed wm

/-- An ack in the datagram that confirms a chunk for the first time names a
chunk that has been sent. -/
def SentAck (s : UdpConnection Address) (datagram : Bytes) : Prop :=
  ∀ c wm, Arrives datagram c → c.type = .ack → Answers s c wm →
    wm.sent.getD c.chunk.toNat false = true

/-- A read is guarded when its ack is. -/
def Handler.Guarded (s : UdpConnection Address) : Handler Address → Prop
  | .handleRead _ datagram => SentAck s datagram
  | _ => True

section Confirmed

variable {m : EndpointMessage} {sequence : UInt64} {wm : WorkingMessage}

theorem Confirmed.fresh (sequence : UInt64) (m : EndpointMessage) :
    Confirmed (freshMessage sequence m) where
  confirmed chunk set := by
    simp [freshMessage, List.getD_eq_getElem?_getD, List.getElem?_replicate] at set
    split at set <;> simp at set
  inFlight _ := by simp [freshMessage, List.count_replicate]
  window _ := Nat.zero_le _

theorem Confirmed.tick (confirmed : Confirmed wm) : Confirmed wm.tick where
  confirmed := confirmed.confirmed
  inFlight := confirmed.inFlight
  window := confirmed.window

theorem Confirmed.advance (confirmed : Confirmed wm) (window : WindowOpen wm) :
    Confirmed wm.advance where
  confirmed chunk set := Nat.lt_succ_of_lt (confirmed.confirmed chunk set)
  inFlight robust := by
    have before := confirmed.inFlight robust
    simp only [WorkingMessage.advance, if_pos (show wm.robust = true from robust)]
    omega
  window robust := by
    have room := window.2
    rw [if_pos (show wm.robust = true from robust)] at room
    simp only [WorkingMessage.advance, if_pos (show wm.robust = true from robust)]
    omega

theorem Confirmed.acked (confirmed : Confirmed wm) {chunk : Nat} (inside : chunk < wm.set.length)
    (clear : wm.set.getD chunk false = false) (sent : chunk < wm.nextSend) :
    Confirmed (wm.acked chunk) := by
  have below : ∀ other, (wm.set.set chunk true).getD other false = true → other < wm.nextSend := by
    intro other set
    rw [getD_set inside, Bool.or_eq_true] at set
    rcases set with here | earlier
    · exact of_decide_eq_true here ▸ sent
    · exact confirmed.confirmed other earlier
  have counted : (wm.set.set chunk true).count true = wm.set.count true + 1 :=
    count_set inside clear
  have bounded := count_le_of_below below
  refine ⟨below, fun robust => ?_, fun robust => ?_⟩
  · have before := confirmed.inFlight robust
    simp only [WorkingMessage.acked]
    omega
  · have before := confirmed.window robust
    simp only [WorkingMessage.acked]
    omega

/-- The ack that completes a message finds its counters as it expects them. -/
theorem Confirmed.whole (confirmed : Confirmed wm) (sending : Sending m sequence wm)
    (sendable : Sendable ip m) {chunk : Nat} (inside : chunk < wm.proto.totalChunks.toNat)
    (clear : wm.set.getD chunk false = false) (sent : chunk < wm.nextSend)
    (whole : (wm.acked chunk).set.count true = wm.proto.totalChunks.toNat) :
    wm.robust = true ∧ wm.sent.count true = wm.proto.totalChunks.toNat ∧ wm.inFlight - 1 = 0 := by
  have total := sending.total sendable
  have bounded := sending.bounded
  have after := confirmed.acked (by rw [sending.setLength, ← total]; exact inside) clear sent
  have most := count_le_of_below after.confirmed
  have all : wm.nextSend = wm.proto.totalChunks.toNat := by
    have same : (wm.acked chunk).nextSend = wm.nextSend := rfl
    omega
  have robust : wm.robust = true := by
    rw [robust_eq sending.proto]
    by_contra plain
    have unfinished := sending.unfinished (by simpa using plain)
    omega
  refine ⟨robust, ?_, ?_⟩
  · rw [sending.sent, count_sentBits, all]
  · have flight := after.inFlight robust
    have same : (wm.acked chunk).nextSend = wm.nextSend := rfl
    have fewer : (wm.acked chunk).inFlight = wm.inFlight - 1 := rfl
    omega

end Confirmed

section Flight

theorem SentAck.sent (base : SenderBase ip log s) {datagram : Bytes} (guarded : SentAck s datagram)
    {c : MessageChunk} {wm : WorkingMessage} (arrives : Arrives datagram c) (ack : c.type = .ack)
    (answers : Answers s c wm) : c.chunk.toNat < wm.nextSend := by
  obtain ⟨m, entry, sending⟩ := base.working _ _ answers.working
  have bit := guarded c wm arrives ack answers
  rw [sending.sent, getD_sentBits] at bit
  exact of_decide_eq_true bit

theorem Answers.inside_set (base : SenderBase ip log s) {c : MessageChunk} {wm : WorkingMessage}
    (answers : Answers s c wm) : c.chunk.toNat < wm.set.length := by
  obtain ⟨m, entry, sending⟩ := base.working _ _ answers.working
  rw [sending.setLength, ← sending.total (base.sendable_of_numbered entry)]
  exact answers.inside

theorem Flight.put (flight : Flight s) {sequence : UInt64} {wm : WorkingMessage}
    (confirmed : Confirmed wm) :
    Flight { s with outWorking := s.outWorking.put sequence wm } := by
  intro key found entry
  rcases (WorkingMessages.put_eq_some ..).mp entry with ⟨-, rfl⟩ | ⟨-, entry⟩
  · exact confirmed
  · exact flight key found entry

theorem Flight.removed (flight : Flight s) (sequence : UInt64) : Flight (s.removed sequence) :=
  fun key found entry => flight key found ((WorkingMessages.erase_eq_some ..).mp entry).2

theorem Flight.doSend (flight : Flight s) (sent : DoSend ip s next) : Flight next := by
  cases sent with
  | idle => exact flight
  | ack => exact flight
  | fresh queue working window more host =>
      exact flight.put ((flight _ _ working).advance window)
  | last => exact flight.removed _
  | resend => exact flight

/-- A guarded handler keeps the counters in agreement with the bits. -/
theorem Flight.step (flight : Flight s) (base : SenderBase ip log s) {handler : Handler Address}
    (guarded : handler.Guarded s) (step : HandlerStep ip s handler next) : Flight next := by
  cases step with
  | add => exact flight.put (.fresh _ _)
  | doSend sent => exact flight.doSend sent
  | handleWrite sent =>
      have written : Flight { s with outstanding := s.outstanding - 1 } := flight
      exact written.doSend sent
  | resend =>
      intro key found entry
      obtain ⟨wm, working, ticked⟩ := Option.bind_eq_some_iff.mp entry
      split at ticked
      · cases ticked
      · cases ticked
        exact (flight key wm working).tick
  | noise => exact flight
  | chunk => exact flight
  | stale => exact flight
  | part arrives ack answers part =>
      exact flight.put ((flight _ _ answers.working).acked (answers.inside_set base)
        answers.fresh (guarded.sent base arrives ack answers))
  | whole => exact flight.removed _

/-- A guarded handler violates no contract. -/
theorem run_total (base : SenderBase ip log s) (flight : Flight s) (handler : Handler Address)
    (allowed : handler.Allowed ip s) (guarded : handler.Guarded s) :
    ∃ next, handler.run ip s = .ok next := by
  cases handler with
  | addToWorkingSet m => exact ⟨_, addToWorkingSet_eq base allowed.1 allowed.2⟩
  | doSend =>
      obtain ⟨next, run, -⟩ := doSend_cases base
      exact ⟨next, run⟩
  | handleWrite =>
      have written : SenderBase ip log { s with outstanding := s.outstanding - 1 } :=
        base.frame rfl rfl rfl (fun _ member => member) rfl
      obtain ⟨next, run, -⟩ := doSend_cases written
      exact ⟨next, run⟩
  | resend =>
      obtain ⟨posts, run, -⟩ := resend_eq base
      exact ⟨_, run⟩
  | handleRead source datagram =>
      by_cases carries : ∃ c, Arrives datagram c
      · obtain ⟨c, arrives⟩ := carries
        by_cases ack : c.type = .ack
        · rw [Handler.run, handleRead_ack allowed arrives ack]
          by_cases answers : ∃ wm, Answers s c wm
          · obtain ⟨wm, answers⟩ := answers
            by_cases whole :
                (wm.acked c.chunk.toNat).set.count true = wm.proto.totalChunks.toNat
            · obtain ⟨m, entry, sending⟩ := base.working _ _ answers.working
              obtain ⟨-, sent, inFlight⟩ := (flight _ _ answers.working).whole sending
                (base.sendable_of_numbered entry) answers.inside answers.fresh
                (guarded.sent base arrives ack answers) whole
              rw [validateChunk_whole base ack answers whole]
              refine ⟨(s.removed c.sequence).postSend, ?_⟩
              simp [sent, inFlight, sending.queued]
            · rw [validateChunk_part ack answers whole]
              exact ⟨_, rfl⟩
          · rw [not_exists] at answers
            rw [validateChunk_other ack answers]
            exact ⟨_, rfl⟩
        · exact ⟨_, handleRead_data allowed arrives ack⟩
      · rw [not_exists] at carries
        exact ⟨_, handleRead_other allowed carries⟩

end Flight

end Firestr.Network
