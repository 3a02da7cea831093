import Firestr.Network.UdpDelivery

/-! Two connections that exchange datagrams only with each other, both ways.
A datagram once given to a socket can reach the other side late, out of order,
again and again, or never. -/

set_option autoImplicit false

namespace Firestr.Network

open Firestr.Util Firestr.Library.Blocks Firestr.Library.BitSet Firestr.Library.Runs

variable {Address : Type} (ip : IpAddresses Address)

inductive Side where
  | left
  | right
  deriving DecidableEq, Repr

def Side.other : Side → Side
  | .left => .right
  | .right => .left

@[simp] theorem Side.other_other (side : Side) : side.other.other = side := by
  cases side <;> rfl

theorem Side.other_ne (side : Side) : side.other ≠ side := by
  cases side <;> simp [Side.other]

theorem Side.eq_other_of_ne {side key : Side} (different : key ≠ side) : key = side.other := by
  cases side <;> cases key <;> simp_all [Side.other]

abbrev Pair (Address : Type) := Side → UdpConnection Address

/-- One side runs a handler. What it reads, the other side has sent. -/
inductive PairStep : Pair Address → Side × Handler Address → Pair Address → Prop where
  | handler {pair : Pair Address} {side : Side} {handler : Handler Address}
      {after : UdpConnection Address} : handler.Allowed ip (pair side) →
      (∀ source datagram, handler = .handleRead source datagram →
        ∃ d ∈ (pair side.other).datagrams, d.bytes = datagram) →
      handler.run ip (pair side) = .ok after →
      PairStep pair (side, handler) (Function.update pair side after)

abbrev PairRun : List (Side × Handler Address) → Pair Address → Prop :=
  Run (fun pair => pair = fun _ => {}) (PairStep ip)

/-- The messages that one side added to its working set, in order. -/
def sentBy (side : Side) (labels : List (Side × Handler Address)) : List EndpointMessage :=
  labels.flatMap fun label => if label.1 = side then label.2.messages else []

section SentBy

variable (labels : List (Side × Handler Address)) (handler : Handler Address)

theorem sentBy_append_self (side : Side) :
    sentBy side (labels ++ [(side, handler)]) = sentBy side labels ++ handler.messages := by
  simp [sentBy]

theorem sentBy_append_of_ne {side key : Side} (different : key ≠ side) :
    sentBy key (labels ++ [(side, handler)]) = sentBy key labels := by
  simp [sentBy, Ne.symm different]

end SentBy

/-- Each side sends what it added, and gets from the other what it answers. -/
structure PairInvariant (labels : List (Side × Handler Address)) (pair : Pair Address) : Prop where
  base : ∀ side, SenderBase ip (sentBy side labels) (pair side)
  delivery : ∀ side, Delivery (sentBy side labels) (pair side) (pair side.other)

section Invariant

variable {ip} {labels : List (Side × Handler Address)} {pair next : Pair Address}

theorem PairInvariant.start : PairInvariant ip [] (fun _ => ({} : UdpConnection Address)) where
  base _ := .start
  delivery _ := {
    gathering := fun _ _ entry => by cases entry
    confirmed := fun _ _ _ working => by cases working
    queued := fun _ member => by cases member
    answered := fun _ member => by cases member }

theorem PairInvariant.step (invariant : PairInvariant ip labels pair)
    {label : Side × Handler Address} (step : PairStep ip pair label next) :
    PairInvariant ip (labels ++ [label]) next := by
  cases step with
  | @handler side handler after allowed reads success =>
      have stepped := handlerStep_of_run (invariant.base side) _ allowed success
      have sent := (invariant.delivery side).sender_step (invariant.base side) reads stepped
      have own : SenderBase ip (sentBy side labels) (pair side.other.other) := by
        rw [Side.other_other]
        exact invariant.base side
      have received := (invariant.delivery side.other).receiver_step (invariant.base side.other) own
        reads
        (by rw [Side.other_other]; exact stepped)
      refine ⟨fun key => ?_, fun key => ?_⟩
      · by_cases here : key = side
        · subst here
          rw [sentBy_append_self, Function.update_self]
          exact (invariant.base key).step _ allowed stepped
        · rw [sentBy_append_of_ne _ _ here, Function.update_of_ne here]
          exact invariant.base key
      · by_cases here : key = side
        · subst here
          rw [sentBy_append_self, Function.update_self, Function.update_of_ne key.other_ne]
          exact sent
        · cases Side.eq_other_of_ne here
          rw [sentBy_append_of_ne _ _ here, Function.update_of_ne here, Side.other_other,
            Function.update_self]
          exact received

theorem pairInvariant_of_run (run : PairRun ip labels pair) : PairInvariant ip labels pair := by
  refine run.invariant _ ?_ ?_
  · rintro _ rfl
    exact .start
  · intro labels pair label next _ invariant step
    exact invariant.step step

/-- When the last ack retires a message, the other side has pushed it. -/
theorem retired_message_pushed (run : PairRun ip labels pair) {side : Side} {d : Datagram Address}
    (member : d ∈ (pair side.other).datagrams) {c : MessageChunk} (arrives : Arrives d.bytes c)
    (ack : c.type = .ack) {wm : WorkingMessage}
    (working : (pair side).outWorking c.sequence = some wm) {after : UdpConnection Address}
    (validated : (pair side).validateChunk c = .ok after)
    (retired : after.outWorking c.sequence = none) :
    ∃ em ∈ (pair side.other).inQueue, em.data = wm.data := by
  have invariant := pairInvariant_of_run run
  have base := invariant.base side
  have delivery := invariant.delivery side
  obtain ⟨m, entry, sending⟩ := base.working _ _ working
  have sendable := base.sendable_of_numbered entry
  by_cases answers : ∃ wm, Answers (pair side) c wm
  · obtain ⟨found, answers⟩ := answers
    cases working.symm.trans answers.working
    by_cases whole : (wm.acked c.chunk.toNat).set.count true = wm.proto.totalChunks.toNat
    · have slot := answers.inside_set base
      have length : (wm.set.set c.chunk.toNat true).length = chunkCount m.data.length := by
        rw [List.length_set, sending.setLength]
      have count : (wm.set.set c.chunk.toNat true).count true =
          (wm.set.set c.chunk.toNat true).length :=
        (whole.trans (sending.total sendable)).trans length.symm
      have all := count_eq_length_iff.mp count
      have got : ∀ chunk < chunkCount m.data.length,
          Got (sentBy side labels) (pair side.other) c.sequence chunk := by
        intro chunk inside
        have bit := all chunk (by rw [length]; exact inside)
        rw [getD_set slot, Bool.or_eq_true, decide_eq_true_eq] at bit
        rcases bit with rfl | before
        · exact delivery.answered d member c arrives ack
        · exact delivery.confirmed _ wm chunk working before
      rw [sending.data]
      by_contra missing
      -- Without a push every chunk is in the entry, which is never complete.
      have bits : ∀ chunk < chunkCount m.data.length,
          entryBit (pair side.other).inWorking c.sequence chunk = true := by
        intro chunk inside
        obtain ⟨other, named, has⟩ := got chunk inside
        cases entry.symm.trans named
        exact has.resolve_left missing
      have positive : 0 < chunkCount m.data.length :=
        blockCount_pos udpChunkSize_pos sendable.nonempty
      cases found : (pair side.other).inWorking c.sequence with
      | none =>
          have first := bits 0 positive
          rw [entryBit, found] at first
          cases first
      | some gathered =>
          obtain ⟨other, named, gathering⟩ := delivery.gathering _ gathered found
          cases entry.symm.trans named
          have count := count_eq_length_iff.mpr fun chunk inside => by
            have bit := bits chunk (by rw [← gathering.setLength]; exact inside)
            rw [entryBit, found] at bit
            exact bit
          rw [gathering.setLength, ← gathering.total] at count
          have incomplete := gathering.incomplete
          rw [WorkingMessage.complete, decide_eq_true count] at incomplete
          cases incomplete
    · rw [validateChunk_part ack answers whole] at validated
      cases validated
      simp at retired
  · rw [not_exists] at answers
    rw [validateChunk_other ack answers] at validated
    cases validated
    rw [working] at retired
    cases retired

end Invariant

section Hello

/-- A receiver of that chunk, before and after it sends the ack. -/
def helloReceiver : UdpConnection Unit :=
  valueD {} (({} : UdpConnection Unit).handleRead loneHost ((), 6060) (wire helloChunk))

def helloAnswerer : UdpConnection Unit := valueD {} (helloReceiver.doSend loneHost)

theorem helloReceiver_eq :
    ({} : UdpConnection Unit).handleRead loneHost ((), 6060) (wire helloChunk) =
      .ok helloReceiver :=
  ok_valueD (by decide +kernel)

theorem helloAnswerer_eq : helloReceiver.doSend loneHost = .ok helloAnswerer :=
  ok_valueD (by decide +kernel)

theorem helloAnswerer_datagrams :
    helloAnswerer.datagrams = [{ address := (), port := 6060, bytes := wire helloAck }] := by
  decide +kernel

def helloPair : Side → UdpConnection Unit
  | .left => helloSender
  | .right => helloAnswerer

private theorem PairRun.handled {Address : Type} {ip : IpAddresses Address}
    {labels : List (Side × Handler Address)} {pair : Pair Address} (run : PairRun ip labels pair)
    (side : Side) (handler : Handler Address) {after : UdpConnection Address}
    (allowed : handler.Allowed ip (pair side))
    (reads : ∀ source datagram, handler = .handleRead source datagram →
      ∃ d ∈ (pair side.other).datagrams, d.bytes = datagram)
    (success : handler.run ip (pair side) = .ok after) :
    PairRun ip (labels ++ [(side, handler)]) (Function.update pair side after) :=
  run.step (.handler allowed reads success)

theorem helloPair_run : ∃ labels, PairRun loneHost labels helloPair := by
  have added : PairRun loneHost [(.left, .addToWorkingSet hello)] _ :=
    .single rfl (.handler ⟨hello_sendable, by decide⟩ nofun
      (addToWorkingSet_eq .start hello_sendable (by decide)))
  have sent := added.handled .left .doSend trivial nofun helloSender_eq
  have taken := sent.handled .right (.handleRead ((), 6060) (wire helloChunk))
    (show _ ≤ _ by decide)
    (by
      rintro _ _ ⟨⟩
      exact ⟨⟨(), 6060, wire helloChunk⟩, by
        simp [Side.other, helloSender_datagrams], rfl⟩)
    helloReceiver_eq
  have answered := taken.handled .right .doSend trivial nofun helloAnswerer_eq
  obtain ⟨pair, run, same⟩ : ∃ pair, PairRun loneHost _ pair ∧ pair = helloPair :=
    ⟨_, answered, funext fun side => by cases side <;> simp [helloPair]⟩
  exact ⟨_, same ▸ run⟩

/-- The ack of `hello`'s chunk retires the message. -/
theorem retired_hello_pushed : ∃ em ∈ (helloPair .right).inQueue, em.data = hello.data := by
  obtain ⟨labels, run⟩ := helloPair_run
  have member : (⟨(), 6060, wire helloAck⟩ : Datagram Unit) ∈ (helloPair .right).datagrams := by
    simp [helloPair, helloAnswerer_datagrams]
  have validated : (helloPair .left).validateChunk (received helloAck) =
      .ok (valueD {} ((helloPair .left).validateChunk (received helloAck))) :=
    ok_valueD (by decide +kernel)
  exact @retired_message_pushed _ _ _ _ run .left _ member _ (arrives_wire (by decide)) rfl _
    helloSender_working _ validated (by decide +kernel)

end Hello

end Firestr.Network
