import Firestr.Network.UdpAdd

/-! What one handler can do to a connection, as a relation with one case for
each outcome. Every invariant of a connection is shown case by case over it. -/

set_option autoImplicit false

namespace Firestr.Network

open Firestr.Util

variable {Address : Type} (ip : IpAddresses Address)

/-- The messages that a handler adds to the working set. -/
def Handler.messages : Handler Address → List EndpointMessage
  | .addToWorkingSet m => [m]
  | _ => []

/-- What a handler is given: messages that can be sent, while the 64-bit
counter has room for them, and datagrams that fit the read buffer. -/
def Handler.Allowed (s : UdpConnection Address) : Handler Address → Prop
  | .addToWorkingSet m => Sendable ip m ∧ s.sequence.toNat + 1 < 2 ^ 64
  | .handleRead _ datagram => datagram.length ≤ maxUdpBuffSize
  | _ => True

inductive HandlerStep (s : UdpConnection Address) :
    Handler Address → UdpConnection Address → Prop where
  | add {m : EndpointMessage} : HandlerStep s (.addToWorkingSet m) (s.added m)
  | doSend {next : UdpConnection Address} : DoSend ip s next → HandlerStep s .doSend next
  | handleWrite {next : UdpConnection Address} :
      DoSend ip { s with outstanding := s.outstanding - 1 } next →
      HandlerStep s .handleWrite next
  | resend {posts : Nat} :
      (posts = 0 → ∀ r ∈ s.messageRing, resentItem s.outWorking r = r) →
      HandlerStep s .resend (s.ticked posts)
  | noise {source : Address × UInt16} {datagram : Bytes} :
      (∀ c, ¬ Arrives datagram c) → HandlerStep s (.handleRead source datagram) s
  | chunk {source : Address × UInt16} {datagram : Bytes} {c : MessageChunk} :
      Arrives datagram c → c.type ≠ .ack →
      HandlerStep s (.handleRead source datagram) (s.takeChunk (sourceEndpoint ip source) c)
  | stale {source : Address × UInt16} {datagram : Bytes} {c : MessageChunk} :
      Arrives datagram c → c.type = .ack → (∀ wm, ¬ Answers s c wm) →
      HandlerStep s (.handleRead source datagram) s.postSend
  | part {source : Address × UInt16} {datagram : Bytes} {c : MessageChunk} {wm : WorkingMessage} :
      Arrives datagram c → c.type = .ack → Answers s c wm →
      (wm.acked c.chunk.toNat).set.count true ≠ wm.proto.totalChunks.toNat →
      HandlerStep s (.handleRead source datagram) (UdpConnection.postSend
        { s with outWorking := s.outWorking.put c.sequence (wm.acked c.chunk.toNat) })
  | whole {source : Address × UInt16} {datagram : Bytes} {c : MessageChunk} {wm : WorkingMessage} :
      Arrives datagram c → c.type = .ack → Answers s c wm →
      (wm.acked c.chunk.toNat).set.count true = wm.proto.totalChunks.toNat →
      HandlerStep s (.handleRead source datagram) (s.removed c.sequence).postSend

section Inversion

variable {ip} {log : List EndpointMessage} {s next : UdpConnection Address}

/-- A handler that ends does one of these things. -/
theorem handlerStep_of_run (base : SenderBase ip log s) (handler : Handler Address)
    (allowed : handler.Allowed ip s) (success : handler.run ip s = .ok next) :
    HandlerStep ip s handler next := by
  cases handler with
  | addToWorkingSet m =>
      obtain ⟨sendable, room⟩ := allowed
      rw [Handler.run, addToWorkingSet_eq base sendable room] at success
      cases success
      exact .add
  | doSend =>
      obtain ⟨sent, run, step⟩ := doSend_cases base
      cases run.symm.trans success
      exact .doSend step
  | handleWrite =>
      have written : SenderBase ip log { s with outstanding := s.outstanding - 1 } :=
        base.frame rfl rfl rfl (fun _ member => member) rfl
      obtain ⟨sent, run, step⟩ := doSend_cases written
      cases run.symm.trans success
      exact .handleWrite step
  | resend =>
      obtain ⟨posts, run, quiet⟩ := resend_eq base
      cases run.symm.trans success
      exact .resend quiet
  | handleRead source datagram =>
      by_cases carries : ∃ c, Arrives datagram c
      · obtain ⟨c, arrives⟩ := carries
        by_cases ack : c.type = .ack
        · rw [Handler.run, handleRead_ack allowed arrives ack] at success
          obtain ⟨validated, validate, posted⟩ := bind_ok success
          cases posted
          by_cases answers : ∃ wm, Answers s c wm
          · obtain ⟨wm, answers⟩ := answers
            by_cases whole :
                (wm.acked c.chunk.toNat).set.count true = wm.proto.totalChunks.toNat
            · rw [validateChunk_whole base ack answers whole] at validate
              obtain ⟨-, -, validate⟩ := bind_ok validate
              obtain ⟨-, -, validate⟩ := bind_ok validate
              obtain ⟨-, -, validate⟩ := bind_ok validate
              cases validate
              exact .whole arrives ack answers whole
            · rw [validateChunk_part ack answers whole] at validate
              cases validate
              exact .part arrives ack answers whole
          · rw [not_exists] at answers
            rw [validateChunk_other ack answers] at validate
            cases validate
            exact .stale arrives ack answers
        · rw [Handler.run, handleRead_data allowed arrives ack] at success
          cases success
          exact .chunk arrives ack
      · rw [not_exists] at carries
        rw [Handler.run, handleRead_other allowed carries] at success
        cases success
        exact .noise carries

/-- One handler keeps the base invariant. -/
theorem SenderBase.step (base : SenderBase ip log s) (handler : Handler Address)
    (allowed : handler.Allowed ip s) (step : HandlerStep ip s handler next) :
    SenderBase ip (log ++ handler.messages) next := by
  have posted : ∀ {state : UdpConnection Address}, SenderBase ip log state →
      SenderBase ip (log ++ []) state.postSend := by
    intro state kept
    rw [List.append_nil]
    exact kept.frame rfl rfl rfl (fun _ member => member) rfl
  cases step with
  | add => exact base.add allowed.1 allowed.2
  | doSend sent => simpa [Handler.messages] using base.doSend sent
  | handleWrite sent =>
      have written : SenderBase ip log { s with outstanding := s.outstanding - 1 } :=
        base.frame rfl rfl rfl (fun _ member => member) rfl
      simpa [Handler.messages] using written.doSend sent
  | resend quiet => simpa [Handler.messages] using base.tick _
  | noise => simpa [Handler.messages] using base
  | @chunk source datagram c arrives data? =>
      simpa [Handler.messages] using base.takeChunk source c
  | stale => exact posted base
  | part arrives ack answers part => exact posted (base.acked answers.working _)
  | whole arrives ack answers whole => exact posted (base.removed _)

theorem SenderBase.start : SenderBase ip [] ({} : UdpConnection Address) where
  sendable m member := by cases member
  counter := rfl
  listed sequence := by simp
  distinct := List.nodup_nil
  working sequence wm entry := by cases entry
  resends r member := by cases member
  acks c member := by cases member
  datagrams d member := by cases member

end Inversion

end Firestr.Network
