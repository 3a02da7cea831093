import Firestr.Network.UdpPump

/-! The one `_out_buffer` of a connection and the writes that share it. A
started write may read the buffer until its handler runs, and every `do_send`
with something to send encodes into the buffer first. -/

set_option autoImplicit false

namespace Firestr.Network

open Firestr.Util Firestr.Library.Runs

variable {Address : Type} (ip : IpAddresses Address)

/-- A pump with its started writes whose handler has not run, oldest first, and
what each write that was put on the wire has read from the buffer. -/
structure Writer (Address : Type) where
  pump : Pump Address := {}
  writes : List (Datagram Address) := []
  transmitted : List (Datagram Address × Bytes) := []

inductive WriterEvent (Address : Type) where
  | pumps (event : PumpEvent Address)
  | written (index : Nat)
  | transmits (write : Datagram Address)

/-- The writes that a step to `next` has started. -/
def Writer.started (w : Writer Address) (next : Pump Address) : List (Datagram Address) :=
  next.connection.datagrams.drop w.pump.connection.datagrams.length

/-- A step of the pump starts the writes it adds. The handlers of writes run in
any order. A write reads the buffer, and anything if the buffer was resized. -/
inductive WriterStep (w : Writer Address) : WriterEvent Address → Writer Address → Prop where
  | pumps {event : PumpEvent Address} {next : Pump Address} :
      event ≠ .written → PumpStep ip w.pump event next →
      WriterStep w (.pumps event)
        { w with pump := next, writes := w.writes ++ w.started next }
  | written {index : Nat} {next : Pump Address} :
      index < w.writes.length → PumpStep ip w.pump .written next →
      WriterStep w (.written index)
        { w with pump := next, writes := w.writes.eraseIdx index ++ w.started next }
  | transmits {write : Datagram Address} {bytes : Bytes} :
      write ∈ w.writes →
      (w.pump.connection.outBuffer.length = write.bytes.length →
        bytes = w.pump.connection.outBuffer) →
      WriterStep w (.transmits write)
        { w with transmitted := w.transmitted ++ [(write, bytes)] }

abbrev WriterRun : List (WriterEvent Address) → Writer Address → Prop :=
  Run (fun w => w = {}) (WriterStep ip)

/-- A `do_send` with something to send, posted or run by the handler of a
write, finds no other write outstanding. -/
def Writer.Alone (w : Writer Address) : WriterEvent Address → Prop
  | .pumps .runs =>
    w.pump.connection.posted.head? = some .doSend → Work w.pump.connection → w.writes = []
  | .written _ => Work w.pump.connection → w.writes.length ≤ 1
  | _ => True

/-- The buffer still holds the bytes of every outstanding write, and every
datagram on the wire is the encoding of a chunk, the one its write was started for. -/
structure Writer.BufferKept (w : Writer Address) : Prop where
  intact : ∀ write ∈ w.writes, w.pump.connection.outBuffer = write.bytes
  encoded : ∀ sent ∈ w.transmitted,
    sent.2 = sent.1.bytes ∧ ∃ c, sent.2 = wire c

/-- A handler that starts no write leaves the buffer alone. -/
structure Still (s next : UdpConnection Address) : Prop where
  outBuffer : next.outBuffer = s.outBuffer
  outstanding : next.outstanding = s.outstanding
  datagrams : next.datagrams = s.datagrams

/-- A `do_send` starts `write`. -/
structure Starts (s next : UdpConnection Address) (write : Datagram Address) : Prop where
  work : Work s
  outBuffer : next.outBuffer = write.bytes
  outstanding : next.outstanding = s.outstanding + 1
  datagrams : next.datagrams = s.datagrams ++ [write]

section Handlers

variable {ip} {log : List EndpointMessage} {s next : UdpConnection Address}

/-- A `do_send` starts a write exactly when there is work. -/
theorem starts_of_doSend (base : SenderBase ip log s) (sent : DoSend ip s next) :
    Still s next ∧ ¬ Work s ∨ ∃ write, Starts s next write := by
  cases sent with
  | idle queue idle => exact .inl ⟨⟨rfl, rfl, rfl⟩, not_work_of_idle base queue idle⟩
  | @ack c rest address queue found =>
      have member : c ∈ s.outQueue := by
        rw [queue]
        exact List.mem_cons_self
      have work : Work s := .inl ⟨c, member, (base.acks c member).1⟩
      exact .inr ⟨_, work, rfl, rfl, rfl⟩
  | @fresh _ sequence wm _ _ working window =>
      have work : Work s := by
        refine .inr (.inl ⟨sequence, wm, working, window.1, fun robust => ?_⟩)
        have room := window.2
        rw [if_pos robust] at room
        exact room
      exact .inr ⟨_, work, rfl, rfl, rfl⟩
  | @last _ sequence wm _ _ working quick final =>
      have work : Work s := by
        refine .inr (.inl ⟨sequence, wm, working, by omega, fun robust => ?_⟩)
        rw [quick] at robust
        cases robust
      exact .inr ⟨_, work, rfl, rfl, rfl⟩
  | @resend _ index r wm id rest _ _ found resends =>
      have work : Work s := by
        refine .inr (.inr ⟨r, List.mem_of_getElem? found, ?_⟩)
        rw [resends]
        exact List.cons_ne_nil _ _
      exact .inr ⟨_, work, rfl, rfl, rfl⟩

theorem still_of_handlerStep {handler : Handler Address} (step : HandlerStep ip s handler next)
    (doSend : handler ≠ .doSend) (handleWrite : handler ≠ .handleWrite) : Still s next := by
  cases step with
  | add => exact ⟨rfl, rfl, rfl⟩
  | doSend => exact absurd rfl doSend
  | handleWrite => exact absurd rfl handleWrite
  | resend => exact ⟨rfl, rfl, rfl⟩
  | noise => exact ⟨rfl, rfl, rfl⟩
  | chunk => exact ⟨rfl, rfl, rfl⟩
  | stale => exact ⟨rfl, rfl, rfl⟩
  | part => exact ⟨rfl, rfl, rfl⟩
  | whole => exact ⟨rfl, rfl, rfl⟩

end Handlers

section Pump

variable {ip} {log : List EndpointMessage} {p next : Pump Address}

theorem starts_of_pumpStep (pumping : Pumping ip log p) {event : PumpEvent Address}
    (step : PumpStep ip p event next) (unwritten : event ≠ .written) :
    Still p.connection next.connection ∧
        (event = .runs → p.connection.posted.head? = some .doSend → ¬ Work p.connection) ∨
      event = .runs ∧ p.connection.posted.head? = some .doSend ∧
        ∃ write, Starts p.connection next.connection write := by
  cases step with
  | sendPosts => exact .inl ⟨⟨rfl, rfl, rfl⟩, fun runs => by cases runs⟩
  | sendReturns => exact .inl ⟨⟨rfl, rfl, rfl⟩, fun runs => by cases runs⟩
  | @runs posted rest after queue room success =>
      have base : SenderBase ip log { p.connection with posted := rest } :=
        pumping.base.frame rfl rfl rfl (fun _ member => member) rfl
      rw [queue]
      cases posted with
      | addToWorkingSet m =>
          have sendable : Sendable ip m :=
            pumping.sendable m (by rw [queue]; exact List.mem_cons_self)
          have allowed : Handler.Allowed ip { p.connection with posted := rest }
              (.addToWorkingSet m) := ⟨sendable, room m rfl⟩
          have step := handlerStep_of_run base _ allowed success
          have still := still_of_handlerStep step (by simp) (by simp)
          exact .inl ⟨⟨still.outBuffer, still.outstanding, still.datagrams⟩,
            fun _ posted => by cases posted⟩
      | doSend =>
          have step := handlerStep_of_run base .doSend trivial success
          cases step with
          | doSend sent =>
              rcases starts_of_doSend base sent with ⟨still, idle⟩ | ⟨write, starts⟩
              · exact .inl ⟨⟨still.outBuffer, still.outstanding, still.datagrams⟩,
                  fun _ _ => idle⟩
              · refine .inr ⟨rfl, rfl, write, ?_⟩
                exact ⟨starts.work, starts.outBuffer, starts.outstanding, starts.datagrams⟩
      | resend =>
          have step := handlerStep_of_run base .resend trivial success
          have still := still_of_handlerStep step (by simp) (by simp)
          exact .inl ⟨⟨still.outBuffer, still.outstanding, still.datagrams⟩,
            fun _ posted => by cases posted⟩
  | written => exact absurd rfl unwritten
  | @reads source datagram after small success =>
      have step := handlerStep_of_run pumping.base (.handleRead source datagram) small success
      exact .inl ⟨still_of_handlerStep step (by simp) (by simp), fun runs => by cases runs⟩
  | ticks => exact .inl ⟨⟨rfl, rfl, rfl⟩, fun runs => by cases runs⟩

theorem starts_of_written (pumping : Pumping ip log p) (step : PumpStep ip p .written next) :
    Still { p.connection with outstanding := p.connection.outstanding - 1 } next.connection ∧
        ¬ Work p.connection ∨
      ∃ write, Starts { p.connection with outstanding := p.connection.outstanding - 1 }
        next.connection write := by
  cases step with
  | @written after outstanding success =>
      have written : SenderBase ip log
          { p.connection with outstanding := p.connection.outstanding - 1 } :=
        pumping.base.frame rfl rfl rfl (fun _ member => member) rfl
      have step := handlerStep_of_run pumping.base .handleWrite trivial success
      cases step with
      | handleWrite sent => exact starts_of_doSend written sent

end Pump

/-- What holds of a writer between two steps when every `do_send` with work was
alone. -/
structure Buffered (log : List EndpointMessage) (w : Writer Address) : Prop where
  pumping : Pumping ip log w.pump
  counted : w.writes.length = w.pump.connection.outstanding
  single : w.writes.length ≤ 1
  started : ∀ write ∈ w.writes, write ∈ w.pump.connection.datagrams
  kept : w.BufferKept

section Buffered

variable {ip} {log : List EndpointMessage} {w next : Writer Address}

theorem Buffered.start : Buffered ip [] ({} : Writer Address) where
  pumping := .start
  counted := rfl
  single := Nat.zero_le _
  started write member := by cases member
  kept := ⟨fun write member => (by cases member), fun sent member => (by cases member)⟩

theorem Pumping.encoded {p : Pump Address} (pumping : Pumping ip log p)
    {write : Datagram Address} (member : write ∈ p.connection.datagrams) :
    ∃ c, write.bytes = wire c := by
  rcases pumping.base.datagrams write member with ⟨c, -, -, bytes⟩ | ⟨_, m, n, sent, -⟩
  · exact ⟨c, bytes⟩
  · exact ⟨_, sent.bytes⟩

theorem Writer.started_still {after : Pump Address}
    (same : after.connection.datagrams = w.pump.connection.datagrams) : w.started after = [] := by
  rw [Writer.started, same]
  exact List.drop_length ..

theorem Writer.started_append {after : Pump Address} {write : Datagram Address}
    (more : after.connection.datagrams = w.pump.connection.datagrams ++ [write]) :
    w.started after = [write] := by
  rw [Writer.started, more]
  exact List.drop_left ..

private theorem Buffered.still (buffered : Buffered ip log w) {later : List EndpointMessage}
    {after : Pump Address} (pumping : Pumping ip later after)
    (still : Still w.pump.connection after.connection) :
    Buffered ip later { w with pump := after, writes := w.writes ++ w.started after } := by
  rw [Writer.started_still still.datagrams, List.append_nil]
  exact {
    pumping := pumping
    counted := buffered.counted.trans still.outstanding.symm
    single := buffered.single
    started := fun write member => still.datagrams ▸ buffered.started write member
    kept := ⟨fun write member => still.outBuffer.trans (buffered.kept.intact write member),
      buffered.kept.encoded⟩ }

private theorem Buffered.alone (buffered : Buffered ip log w) {later : List EndpointMessage}
    {after : Pump Address} (pumping : Pumping ip later after) {write : Datagram Address}
    (outBuffer : after.connection.outBuffer = write.bytes)
    (outstanding : after.connection.outstanding = 1)
    (datagrams : after.connection.datagrams = w.pump.connection.datagrams ++ [write]) :
    Buffered ip later { w with pump := after, writes := [write] } where
  pumping := pumping
  counted := outstanding.symm
  single := le_rfl
  started other member := by
    cases List.mem_singleton.mp member
    change write ∈ after.connection.datagrams
    rw [datagrams]
    exact List.mem_append_right _ member
  kept := by
    refine ⟨fun other member => ?_, buffered.kept.encoded⟩
    cases List.mem_singleton.mp member
    exact outBuffer

theorem Buffered.step (buffered : Buffered ip log w) {event : WriterEvent Address}
    (step : WriterStep ip w event next) (alone : w.Alone event) :
    ∃ later, Buffered ip later next := by
  cases step with
  | @pumps event after unwritten step =>
      obtain ⟨later, pumping⟩ := buffered.pumping.step step
      rcases starts_of_pumpStep buffered.pumping step unwritten with
        ⟨still, -⟩ | ⟨rfl, posted, write, starts⟩
      · exact ⟨_, buffered.still pumping still⟩
      · have none? : w.writes = [] := alone posted starts.work
        have counted : w.pump.connection.outstanding = 0 := by
          rw [← buffered.counted, none?]
          rfl
        have outstanding := starts.outstanding
        rw [counted] at outstanding
        rw [none?, Writer.started_append starts.datagrams, List.nil_append]
        exact ⟨_, buffered.alone pumping starts.outBuffer outstanding starts.datagrams⟩
  | @written index after inside step =>
      obtain ⟨later, pumping⟩ := buffered.pumping.step step
      have single : w.writes.length = 1 := le_antisymm buffered.single (by omega)
      have ended : w.writes.eraseIdx index = [] := by
        refine List.eq_nil_of_length_eq_zero ?_
        rw [List.length_eraseIdx_of_lt inside, single]
      have counted : w.pump.connection.outstanding = 1 := by rw [← buffered.counted, single]
      rcases starts_of_written buffered.pumping step with ⟨still, -⟩ | ⟨write, starts⟩
      · have outstanding := still.outstanding
        change after.connection.outstanding = w.pump.connection.outstanding - 1 at outstanding
        rw [ended, Writer.started_still still.datagrams]
        exact ⟨_, {
          pumping := pumping
          counted := by
            change 0 = after.connection.outstanding
            omega
          single := Nat.zero_le _
          started := fun write member => (by cases member)
          kept := ⟨fun write member => (by cases member), buffered.kept.encoded⟩ }⟩
      · have outstanding := starts.outstanding
        change after.connection.outstanding = w.pump.connection.outstanding - 1 + 1 at outstanding
        rw [ended, Writer.started_append starts.datagrams, List.nil_append]
        exact ⟨_, buffered.alone pumping starts.outBuffer (by omega) starts.datagrams⟩
  | @transmits write bytes member reads =>
      refine ⟨log, buffered.pumping, buffered.counted, buffered.single, buffered.started,
        buffered.kept.intact, fun sent transmitted => ?_⟩
      rcases List.mem_append.mp transmitted with earlier | last
      · exact buffered.kept.encoded sent earlier
      · cases List.mem_singleton.mp last
        have same := buffered.kept.intact write member
        have read : bytes = write.bytes := (reads (by rw [same])).trans same
        obtain ⟨c, encoded⟩ := buffered.pumping.encoded (buffered.started write member)
        exact ⟨read, c, read.trans encoded⟩

/-- In every run in which each `do_send` with something to send is alone, the
buffer is kept for every outstanding write, and every datagram on the wire is
the encoding of the chunk its write was started for. -/
theorem buffer_kept_of_alone {events : List (WriterEvent Address)}
    (run : Run (fun w => w = {}) (fun w event next => WriterStep ip w event next ∧ w.Alone event)
      events w) : w.BufferKept := by
  have buffered : ∃ log, Buffered ip log w := by
    refine run.invariant (fun _ w => ∃ log, Buffered ip log w) ?_ ?_
    · rintro _ rfl
      exact ⟨[], .start⟩
    · rintro events w event next - ⟨log, buffered⟩ ⟨step, alone⟩
      exact buffered.step step alone
  obtain ⟨log, buffered⟩ := buffered
  exact buffered.kept

end Buffered

section TwoAcks

/-- The datagram of the only chunk of `hello` under a sequence number. -/
def helloDatagram (sequence : UInt64) : Bytes :=
  wire (chunkOf 0 (prototypeOf sequence hello) hello.data)

/-- The write of the ack for that datagram. -/
def ackWrite (sequence : UInt64) : Datagram Unit where
  address := ()
  port := 6060
  bytes := wire (ackFor hello.ep (chunkOf 0 (prototypeOf sequence hello) hello.data))

/-- A connection after it has read one message, and another. -/
def oneRead : UdpConnection Unit :=
  valueD {} (({} : UdpConnection Unit).handleRead loneHost ((), 6060) (helloDatagram 1))

def twoRead : UdpConnection Unit :=
  valueD {} (oneRead.handleRead loneHost ((), 6060) (helloDatagram 2))

/-- That connection after the two `do_send`s that the acks have posted. -/
def oneAcked : UdpConnection Unit :=
  valueD {} (UdpConnection.doSend loneHost { twoRead with posted := [.doSend] })

def twoAcked : UdpConnection Unit :=
  valueD {} (UdpConnection.doSend loneHost { oneAcked with posted := [] })

private theorem reads_step {s next : UdpConnection Unit} {sequence : UInt64}
    (small : (helloDatagram sequence).length ≤ maxUdpBuffSize)
    (success : s.handleRead loneHost ((), 6060) (helloDatagram sequence) = .ok next) :
    PumpStep loneHost { connection := s } (.reads ((), 6060) (helloDatagram sequence))
      { connection := next } :=
  .reads small success

private theorem runs_step {s next : UdpConnection Unit} {rest : List Posted}
    (posted : s.posted = .doSend :: rest)
    (success : UdpConnection.doSend loneHost { s with posted := rest } = .ok next) :
    PumpStep loneHost { connection := s } .runs { connection := next } := by
  refine .runs posted ?_ success
  intro m first
  cases first

private theorem oneRead_run : WriterRun loneHost [.pumps (.reads ((), 6060) (helloDatagram 1))]
    { pump := { connection := oneRead } } :=
  .single rfl (.pumps (by simp) (reads_step (by decide) (ok_valueD (by decide +kernel))))

/-- Two messages are read, and both acks are sent before the handler of the
first write: the datagram of the first ack carries the second one. -/
theorem two_acks_share_buffer : ∃ w, WriterRun loneHost
    [.pumps (.reads ((), 6060) (helloDatagram 1)), .pumps (.reads ((), 6060) (helloDatagram 2)),
      .pumps .runs, .pumps .runs, .transmits (ackWrite 1)] w ∧
    w.transmitted = [(ackWrite 1, (ackWrite 2).bytes)] ∧ ¬ w.BufferKept := by
  have secondRead : PumpStep loneHost { connection := oneRead }
      (.reads ((), 6060) (helloDatagram 2)) { connection := twoRead } :=
    reads_step (by decide) (ok_valueD (by decide +kernel))
  have firstSend : PumpStep loneHost { connection := twoRead } .runs { connection := oneAcked } :=
    @runs_step _ _ [.doSend] (by decide +kernel) (ok_valueD (by decide +kernel))
  have secondSend : PumpStep loneHost { connection := oneAcked } .runs
      { connection := twoAcked } :=
    @runs_step _ _ [] (by decide +kernel) (ok_valueD (by decide +kernel))
  have sent := ((oneRead_run.step (.pumps (by simp) secondRead)).step
    (.pumps (by simp) firstSend)).step (.pumps (by simp) secondSend)
  refine ⟨_, sent.step (@WriterStep.transmits _ _ _ (ackWrite 1) (ackWrite 2).bytes ?_ ?_),
    rfl, fun kept => ?_⟩
  · decide +kernel
  · intro _
    decide +kernel
  · have mixed := (kept.encoded (ackWrite 1, (ackWrite 2).bytes) List.mem_cons_self).1
    exact absurd mixed (by decide +kernel)

/-- One message is read, and its ack is sent. -/
theorem buffer_kept_oneAck : ∃ w : Writer Unit,
    w.transmitted = [(ackWrite 1, (ackWrite 1).bytes)] ∧ w.BufferKept := by
  have firstRead : PumpStep loneHost {} (.reads ((), 6060) (helloDatagram 1))
      { connection := oneRead } :=
    reads_step (by decide) (ok_valueD (by decide +kernel))
  have firstSend : PumpStep loneHost { connection := oneRead } .runs
      { connection := valueD {} (UdpConnection.doSend loneHost { oneRead with posted := [] }) } :=
    @runs_step _ _ [] (by decide +kernel) (ok_valueD (by decide +kernel))
  have read : Run (fun w => w = {})
      (fun w event next => WriterStep loneHost w event next ∧ w.Alone event) _ _ :=
    .single rfl ⟨.pumps (by simp) firstRead, trivial⟩
  have sent := read.step ⟨.pumps (by simp) firstSend, fun _ _ => rfl⟩
  refine ⟨_, ?_, buffer_kept_of_alone
    (sent.step ⟨@WriterStep.transmits _ _ _ (ackWrite 1) (ackWrite 1).bytes ?_ ?_, trivial⟩)⟩
  · rfl
  · decide +kernel
  · intro _
    decide +kernel

end TwoAcks

end Firestr.Network
