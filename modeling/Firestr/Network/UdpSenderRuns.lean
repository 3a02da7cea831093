import Firestr.Library.Runs
import Firestr.Network.UdpFlight

/-! Runs of one connection, in any order of its handlers: what holds between
two handlers, and when a handler cannot stop the process. -/

set_option autoImplicit false

namespace Firestr.Network

open Firestr.Util Firestr.Library.Blocks Firestr.Library.BitSet Firestr.Library.Runs

variable {Address : Type} (ip : IpAddresses Address)

/-- A step of a connection by a handler that meets `condition`. -/
def HandlerStepIf (condition : UdpConnection Address → Handler Address → Prop)
    (s : UdpConnection Address) (handler : Handler Address) (next : UdpConnection Address) : Prop :=
  condition s handler ∧ handler.run ip s = .ok next

/-- The runs of a new connection by handlers that meet `condition`. -/
abbrev HandlerRun (condition : UdpConnection Address → Handler Address → Prop) :
    List (Handler Address) → UdpConnection Address → Prop :=
  Run (fun s => s = {}) (HandlerStepIf ip condition)

/-- The messages that the handlers of a run added, in order. -/
def addedMessages (handlers : List (Handler Address)) : List EndpointMessage :=
  handlers.flatMap Handler.messages

section Runs

variable {ip} {handlers : List (Handler Address)} {s : UdpConnection Address}
  {condition : UdpConnection Address → Handler Address → Prop}

theorem senderBase_of_run (allowed : ∀ s handler, condition s handler → handler.Allowed ip s)
    (run : HandlerRun ip condition handlers s) : SenderBase ip (addedMessages handlers) s := by
  refine run.invariant (fun handlers s => SenderBase ip (addedMessages handlers) s) ?_ ?_
  · rintro _ rfl
    exact .start
  · intro handlers s handler next _ base stepped
    have known := allowed _ _ stepped.1
    rw [addedMessages, List.flatMap_append, List.flatMap_singleton]
    exact base.step handler known (handlerStep_of_run base handler known stepped.2)

theorem flight_of_run (allowed : ∀ s handler, condition s handler → handler.Allowed ip s)
    (guarded : ∀ log s handler, SenderBase ip log s → condition s handler → handler.Guarded s)
    (run : HandlerRun ip condition handlers s) : Flight s := by
  refine run.invariant (fun _ s => Flight s) ?_ ?_
  · rintro _ rfl sequence wm entry
    cases entry
  · intro handlers s handler next earlier flight stepped
    have base := senderBase_of_run allowed earlier
    exact flight.step base (guarded _ _ _ base stepped.1)
      (handlerStep_of_run base _ (allowed _ _ stepped.1) stepped.2)

end Runs

/-- The ack in the datagram, if any, answers a chunk whose datagram has been
given to the socket. -/
def AnswersSentChunk (s : UdpConnection Address) (datagram : Bytes) : Prop :=
  ∀ c, Arrives datagram c → c.type = .ack →
    ∃ d ∈ s.datagrams, ∃ chunk, Arrives d.bytes chunk ∧ chunk.type ≠ .ack ∧
      chunk.sequence = c.sequence ∧ chunk.totalChunks = c.totalChunks ∧ chunk.chunk = c.chunk

/-- The handlers of a connection whose peers only answer what it sent. -/
def Handler.Honest (s : UdpConnection Address) (handler : Handler Address) : Prop :=
  handler.Allowed ip s ∧
    match handler with
    | .handleRead _ datagram => AnswersSentChunk s datagram
    | _ => True

/-- The bits and counters of a working message. -/
structure SenderCounters (wm : WorkingMessage) : Prop where
  queued : wm.queued = 0
  sent : ∀ chunk, wm.sent.getD chunk false = decide (chunk < wm.nextSend)
  subset : ∀ chunk, wm.set.getD chunk false = true → wm.sent.getD chunk false = true
  inFlight : wm.robust = true → wm.inFlight =
    (List.range wm.proto.totalChunks.toNat).countP fun chunk =>
      wm.sent.getD chunk false && !wm.set.getD chunk false
  window : wm.robust = true → wm.inFlight ≤ maxFlight

/-- What holds of the sending half between two handlers. -/
structure SenderInvariant (s : UdpConnection Address) : Prop where
  listed : ∀ sequence, sequence ∈ s.messageRing.map (·.wm) ↔ (s.outWorking sequence).isSome
  distinct : (s.messageRing.map (·.wm)).Nodup
  onlyAcks : ∀ c ∈ s.outQueue, c.type = .ack
  counters : ∀ sequence wm, s.outWorking sequence = some wm →
    wm.proto.sequence = sequence ∧ SenderCounters wm

section Honest

variable {ip} {log : List EndpointMessage} {handlers : List (Handler Address)}
  {s : UdpConnection Address}

theorem AnswersSentChunk.sentAck (base : SenderBase ip log s) {datagram : Bytes}
    (honest : AnswersSentChunk s datagram) : SentAck s datagram := by
  intro c wm arrives ack answers
  obtain ⟨d, member, chunk, sent, data?, sequence, -, number⟩ := honest c arrives ack
  obtain ⟨m, n, -, -, same, below⟩ := base.chunk_of_datagram member sent data?
  obtain ⟨other, entry, sending⟩ := base.working _ _ answers.working
  rw [sending.sent, getD_sentBits, ← number, same]
  exact decide_eq_true (below wm (sequence ▸ answers.working))

theorem Handler.Honest.guarded {handler : Handler Address} (base : SenderBase ip log s)
    (honest : handler.Honest ip s) : handler.Guarded s := by
  cases handler with
  | handleRead source datagram => exact honest.2.sentAck base
  | _ => trivial

theorem Sending.counters {m : EndpointMessage} {sequence : UInt64} {wm : WorkingMessage}
    (sending : Sending m sequence wm) (sendable : Sendable ip m) (confirmed : Confirmed wm) :
    SenderCounters wm := by
  have sent : ∀ chunk, wm.sent.getD chunk false = decide (chunk < wm.nextSend) := fun chunk => by
    rw [sending.sent, getD_sentBits]
  have subset : ∀ chunk, wm.set.getD chunk false = true → wm.sent.getD chunk false = true :=
    fun chunk set => by rw [sent]; exact decide_eq_true (confirmed.confirmed chunk set)
  refine ⟨sending.queued, sent, subset, fun robust => ?_, confirmed.window⟩
  have total := sending.total sendable
  have parts := countP_sub subset (List.range wm.proto.totalChunks.toNat)
  have sentLength : wm.sent.length = wm.proto.totalChunks.toNat := by
    rw [sending.sent, length_sentBits sending.bounded, total]
  rw [countP_range sentLength, countP_range (sending.setLength.trans total.symm), sending.sent,
    count_sentBits, ← sending.sent] at parts
  have flight := confirmed.inFlight robust
  omega

/-- In every run with honest acks the bits, counters and lists of the sending
half agree between two handlers, and no handler violates a contract. -/
theorem sender_invariant (run : HandlerRun ip (Handler.Honest ip) handlers s) :
    SenderInvariant s ∧
      ∀ handler : Handler Address, handler.Honest ip s → ∃ next, handler.run ip s = .ok next := by
  have base := senderBase_of_run (fun _ _ honest => honest.1) run
  have flight := flight_of_run (fun _ _ honest => honest.1)
    (fun _ _ _ base honest => honest.guarded base) run
  constructor
  · refine ⟨base.listed, base.distinct, fun c member => (base.acks c member).1, ?_⟩
    intro sequence wm working
    obtain ⟨m, entry, sending⟩ := base.working _ _ working
    exact ⟨by rw [sending.proto, prototypeOf_sequence],
      sending.counters (base.sendable_of_numbered entry) (flight _ _ working)⟩
  · intro handler honest
    exact run_total base flight _ honest.1 (honest.guarded base)

end Honest

def loneHost : IpAddresses Unit where
  fromString text := if text = "10.0.0.1" then some () else none
  toString _ := "10.0.0.1"
  fromString_toString _ := by simp

def hello : EndpointMessage :=
  { ep := { protocol := udp, address := "10.0.0.1", port := 6060 }
    data := ascii "hello"
    robust := true }

theorem hello_sendable : Sendable loneHost hello where
  nonempty := by decide
  counted := by decide
  resolved := by decide

theorem hello_run : HandlerRun loneHost (Handler.Honest loneHost) [.addToWorkingSet hello]
    (({} : UdpConnection Unit).added hello) :=
  .single rfl
    ⟨⟨⟨hello_sendable, by decide⟩, trivial⟩,
      addToWorkingSet_eq .start hello_sendable (by decide)⟩

/-- The only chunk of `hello`. -/
def helloChunk : MessageChunk := chunkOf 0 (prototypeOf 1 hello) hello.data

/-- The sender of `hello` after its chunk is sent. -/
def helloSender : UdpConnection Unit :=
  valueD {} ((({} : UdpConnection Unit).added hello).doSend loneHost)

theorem helloSender_eq :
    (({} : UdpConnection Unit).added hello).doSend loneHost = .ok helloSender :=
  ok_valueD (by decide +kernel)

theorem helloSender_datagrams :
    helloSender.datagrams = [{ address := (), port := 6060, bytes := wire helloChunk }] := by
  decide +kernel

theorem helloSender_working :
    helloSender.outWorking 1 = some (freshMessage 1 hello).advance := by
  decide +kernel

section Letter

/-- A message of two chunks. -/
def letter : EndpointMessage := { hello with data := List.replicate 500 46 }

def letterChunk (n : Nat) : MessageChunk := chunkOf n (prototypeOf 1 letter) letter.data

/-- The datagram that answers the first chunk of `letter`. -/
def letterAck : Bytes := wire (ackFor hello.ep (letterChunk 0))

def letterAdded : UdpConnection Unit :=
  valueD {} (({} : UdpConnection Unit).addToWorkingSet letter)

/-- The sender of `letter` after its first chunk is sent, and after both are. -/
def letterBegun : UdpConnection Unit := valueD {} (letterAdded.doSend loneHost)

def letterSent : UdpConnection Unit := valueD {} (letterBegun.handleWrite loneHost)

/-- The sender of `letter` after the first chunk is answered, and after a tick. -/
def letterAnswered : UdpConnection Unit :=
  valueD {} (letterSent.handleRead loneHost ((), 6060) letterAck)

def letterTicked : UdpConnection Unit := valueD {} letterAnswered.resend

def letterHandlers : List (Handler Unit) :=
  [.addToWorkingSet letter, .doSend, .handleWrite, .handleRead ((), 6060) letterAck, .resend]

theorem letter_honest : AnswersSentChunk letterSent letterAck := by
  intro c arrives ack
  have sent : letterSent.datagrams.map (·.bytes) = [wire (letterChunk 0), wire (letterChunk 1)] := by
    decide +kernel
  have member : wire (letterChunk 0) ∈ letterSent.datagrams.map (·.bytes) := by
    rw [sent]
    exact List.mem_cons_self
  obtain ⟨d, sent, bytes⟩ := List.mem_map.mp member
  have arrived : Arrives (wire (letterChunk 0)) (received (letterChunk 0)) :=
    arrives_wire (by decide +kernel)
  cases arrives.unique (arrives_wire (by decide +kernel))
  exact ⟨d, sent, received (letterChunk 0), bytes ▸ arrived, by decide +kernel, rfl, rfl, rfl⟩

private theorem handled {handlers : List (Handler Unit)} {s next : UdpConnection Unit}
    (run : HandlerRun loneHost (Handler.Honest loneHost) handlers s) {handler : Handler Unit}
    (honest : handler.Honest loneHost s) (success : handler.run loneHost s = .ok next) :
    HandlerRun loneHost (Handler.Honest loneHost) (handlers ++ [handler]) next :=
  run.step ⟨honest, success⟩

theorem letter_run : HandlerRun loneHost (Handler.Honest loneHost) letterHandlers letterTicked := by
  have sendable : Sendable loneHost letter := ⟨by decide +kernel, by decide +kernel, by decide⟩
  have added : HandlerRun loneHost (Handler.Honest loneHost) [.addToWorkingSet letter]
      letterAdded :=
    .single rfl ⟨⟨⟨sendable, by decide⟩, trivial⟩, ok_valueD (by decide +kernel)⟩
  have begun : HandlerRun loneHost (Handler.Honest loneHost) _ letterBegun :=
    @handled _ _ _ added .doSend ⟨trivial, trivial⟩ (ok_valueD (by decide +kernel))
  have sent : HandlerRun loneHost (Handler.Honest loneHost) _ letterSent :=
    @handled _ _ _ begun .handleWrite ⟨trivial, trivial⟩ (ok_valueD (by decide +kernel))
  have small : letterAck.length ≤ maxUdpBuffSize := by decide +kernel
  have answered : HandlerRun loneHost (Handler.Honest loneHost) _ letterAnswered :=
    @handled _ _ _ sent (.handleRead ((), 6060) letterAck) ⟨small, letter_honest⟩
      (ok_valueD (by decide +kernel))
  exact @handled _ _ _ answered .resend ⟨trivial, trivial⟩ (ok_valueD (by decide +kernel))

end Letter

theorem sender_invariant_letter : SenderInvariant letterTicked ∧
    (letterTicked.outWorking 1).map (fun wm => (wm.sent, wm.set, wm.inFlight)) =
      some ([true, true], [true, false], 1) :=
  ⟨(sender_invariant letter_run).1, by decide +kernel⟩

/-- What a connection is given when `send` and its caller `udp_queue::send`
accepted its messages and no peer confirms a chunk before it is sent. -/
def Handler.Unforged (s : UdpConnection Address) : Handler Address → Prop
  | .addToWorkingSet m => UdpConnection.accepts m = true ∧
      (ip.fromString m.ep.address).isSome ∧ s.sequence.toNat + 1 < 2 ^ 64
  | .handleRead _ datagram => datagram.length ≤ maxUdpBuffSize ∧ SentAck s datagram
  | _ => True

section Unforged

variable {ip} {handlers : List (Handler Address)} {s : UdpConnection Address}

/-- A handler that ended was allowed: `create_prototype` ends the process on a
message with too many chunks. -/
theorem Handler.Unforged.allowed {handler : Handler Address} {next : UdpConnection Address}
    (unforged : handler.Unforged ip s) (success : handler.run ip s = .ok next) :
    handler.Allowed ip s := by
  cases handler with
  | addToWorkingSet m =>
      obtain ⟨accepted, resolved, room⟩ := unforged
      obtain ⟨nonempty, counted⟩ := counted_of_addToWorkingSet accepted success
      exact ⟨⟨nonempty, counted, resolved⟩, room⟩
  | handleRead source datagram => exact unforged.1
  | _ => trivial

/-- As long as every ack that confirms a chunk for the first time names a sent
chunk, no datagram stops the process, and no send does. -/
theorem datagrams_handled (run : HandlerRun ip (Handler.Unforged ip) handlers s) :
    (∀ source datagram, datagram.length ≤ maxUdpBuffSize → SentAck s datagram →
      ∃ next, s.handleRead ip source datagram = .ok next) ∧
      (∃ next, s.doSend ip = .ok next) ∧ (∃ next, s.handleWrite ip = .ok next) ∧
      ∃ next, s.resend = .ok next := by
  have ended : HandlerRun ip
      (fun s handler => handler.Allowed ip s ∧ handler.Guarded s) handlers s := by
    refine run.weaken fun s handler next stepped => ⟨⟨stepped.1.allowed stepped.2, ?_⟩, stepped.2⟩
    cases handler with
    | handleRead source datagram => exact stepped.1.2
    | _ => trivial
  have base := senderBase_of_run (fun _ _ met => met.1) ended
  have flight := flight_of_run (fun _ _ met => met.1) (fun _ _ _ _ met => met.2) ended
  exact ⟨fun source datagram small sent =>
      run_total base flight (.handleRead source datagram) small sent,
    run_total base flight .doSend trivial trivial,
    run_total base flight .handleWrite trivial trivial,
    run_total base flight .resend trivial trivial⟩

end Unforged

/-- The ack of `hello`'s only chunk. -/
def helloAck : MessageChunk :=
  { type := .ack, sequence := 1, totalChunks := 1, chunk := 0 }

/-- Before the chunk is sent, its ack ends the process. -/
theorem forged_ack_stops_process :
    HandlerRun loneHost (Handler.Allowed loneHost) [.addToWorkingSet hello]
        (({} : UdpConnection Unit).added hello) ∧
      (wire helloAck).length ≤ maxUdpBuffSize ∧
      (({} : UdpConnection Unit).added hello).handleRead loneHost ((), 6060) (wire helloAck) =
        .error (.raised .check "wm.sent.count() == wm.proto.total_chunks") := by
  refine ⟨hello_run.weaken fun _ _ _ stepped => ⟨stepped.1.1, stepped.2⟩, by decide, ?_⟩
  rw [handleRead_ack (by decide) (arrives_wire (by decide)) rfl]
  rfl

/-- After the chunk is sent, its ack is handled, and retires the message. -/
theorem datagrams_handled_hello : ∃ next,
    helloSender.handleRead loneHost ((), 6060) (wire helloAck) = .ok next ∧
      next.outWorking 1 = none := by
  have added : HandlerRun loneHost (Handler.Unforged loneHost) [.addToWorkingSet hello]
      (({} : UdpConnection Unit).added hello) :=
    .single rfl
      ⟨⟨by decide, by decide, by decide⟩, addToWorkingSet_eq .start hello_sendable (by decide)⟩
  have sent : HandlerRun loneHost (Handler.Unforged loneHost) [.addToWorkingSet hello, .doSend]
      helloSender := added.step ⟨trivial, helloSender_eq⟩
  have confirms : SentAck helloSender (wire helloAck) := by
    intro c wm arrives ack answers
    cases arrives.unique (arrives_wire (by decide))
    cases helloSender_working.symm.trans answers.working
    decide +kernel
  obtain ⟨next, success⟩ := (datagrams_handled sent).1 ((), 6060) (wire helloAck) (by decide) confirms
  have retired : ((valueD {} (helloSender.handleRead loneHost ((), 6060) (wire helloAck))).outWorking 1) =
      none := by decide +kernel
  rw [success] at retired
  exact ⟨next, success, retired⟩

end Firestr.Network
