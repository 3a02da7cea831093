import Firestr.Network.TcpReader
import Firestr.Util.MencodeProperties

/-! However the bytes of the frames come in, the messages come out. -/

set_option autoImplicit false

namespace Firestr.Network

open Firestr.Library.Decimal Firestr.Library.Runs Firestr.Util

variable {t next : TcpReader} {payloads : List Bytes} {p b remaining : Bytes}

section Frames

theorem encodeTcpWire_eq (p : Bytes) :
    encodeTcpWire p = 33 :: (numeral p.length ++ 58 :: p) := by
  unfold encodeTcpWire encodeB
  rw [List.append_assoc]
  rfl

theorem tcpStream_cons (p : Bytes) (rest : List Bytes) :
    tcpStream (p :: rest) = (33 :: numeral p.length) ++ 58 :: (p ++ tcpStream rest) := by
  unfold tcpStream
  rw [List.flatMap_cons, encodeTcpWire_eq]
  simp

theorem tcpMessages_append (done rest : List Bytes) :
    tcpMessages (done ++ rest) = tcpMessages done ++ tcpMessages rest := List.filter_append ..

theorem exists_of_mark_mem {buffer text rest : Bytes} {mark : UInt8} (clear : mark ∉ text)
    (whole : buffer ++ remaining = text ++ mark :: rest) (there : mark ∈ buffer) :
    ∃ b, buffer = text ++ mark :: b ∧ b ++ remaining = rest := by
  rcases List.append_eq_append_iff.mp whole with ⟨more, rfl, -⟩ | ⟨more, rfl, split⟩
  · exact absurd (List.mem_append_left _ there) clear
  · cases more with
    | nil => exact absurd (by simpa using there) clear
    | cons c more =>
        obtain ⟨rfl, rfl⟩ := List.cons.inj split
        exact ⟨more, rfl, rfl⟩

theorem clear_header (n : Nat) : 58 ∉ (33 : UInt8) :: numeral n := by
  have digits : (58 : UInt8) ∉ numeral n := not_mem_numeral (by decide)
  simpa using digits

end Frames

section Handlers

/-- The connection after it has read the payload `p` and left `b` in its buffer. -/
def TcpReader.took (t : TcpReader) (p b : Bytes) : TcpReader :=
  { t with
    inBuffer := b
    reading := .header
    sent := if p = keepAliveMsg then t.sent ++ [keepAliveAckMsg] else t.sent
    alive := t.alive || decide (p = keepAliveAckMsg)
    inQueue := t.inQueue ++ tcpMessages [p] }

theorem handleBody_eq (connected : t.state = .connected) (isOpen : t.isOpen = true)
    (some? : p ≠ []) (buffer : t.inBuffer = p ++ b) :
    t.handleBody false p.length = .ok (t.took p b) := by
  have positive : 0 < p.length := List.length_pos_iff.mpr some?
  have enough : ¬ (p ++ b).length < p.length := by simp
  have kept : keepAliveMsg ≠ keepAliveAckMsg := by decide
  unfold TcpReader.handleBody
  simp only [positive, decide_true, require_true, ok_bind, connected, reduceCtorEq, if_false,
    isOpen, Bool.not_true, Bool.false_eq_true, buffer, enough, Stream.read_append, pure_ok]
  by_cases keep : p = keepAliveMsg
  · simp [keep, TcpReader.took, TcpReader.startRead, isOpen, connected, tcpMessages, kept]
  · by_cases ack : p = keepAliveAckMsg
    · simp [ack, TcpReader.took, TcpReader.startRead, isOpen, connected, tcpMessages, kept.symm]
    · simp [keep, ack, TcpReader.took, TcpReader.startRead, isOpen, connected, tcpMessages]

theorem handleHeader_eq (connected : t.state = .connected) (isOpen : t.isOpen = true) {n : Nat}
    (positive : 0 < n) (small : n < 2 ^ 64)
    (bounded : t.inBuffer.length < 2 ^ 64) (buffer : t.inBuffer = (33 :: numeral n) ++ 58 :: b) :
    t.handleHeader false =
      if b.length ≥ n then { t with inBuffer := b }.handleBody false n
      else .ok { t with
        inBuffer := b
        reading := .body n (n - b.length) 0 } := by
  have length : t.inBuffer.length = (numeral n).length + b.length + 2 := by
    rw [buffer]
    simp
    omega
  obtain ⟨c, rest, shape⟩ : ∃ c rest, numeral n ++ 58 :: b = c :: rest := by
    cases digits : numeral n with
    | nil => exact ⟨_, _, rfl⟩
    | cons c more => exact ⟨_, _, rfl⟩
  have mark : (58 : UInt8) ∉ numeral n := not_mem_numeral (by decide)
  have clear : (33 : UInt8) ∉ numeral n := not_mem_numeral (by decide)
  have start (i : Stream) :
      getUntilLoop 33 (t.inBuffer.length + 2) (some 33) i [] = .ok (some 33, i, []) := by
    rw [getUntilLoop, if_neg (by simp)]
  obtain ⟨after, number⟩ := getUntilLoop_eq 2 (t.inBuffer.length + 2) mark
    (by omega) shape.symm []
  have opening : Stream.get { rest := t.inBuffer } =
      (some 33, { rest := c :: rest, position := 1 }) := by
    rw [buffer, List.cons_append, shape, Stream.get_cons]
  have consumed : (b.length == subSize (subSize t.inBuffer.length
      (1 + ([] ++ numeral n).length)) (1 + ([] : Bytes).length)) = true := by
    have first : subSize t.inBuffer.length (1 + (numeral n).length) = b.length + 1 := by
      rw [subSize_of_le (by omega) bounded]
      omega
    rw [List.nil_append, first, List.length_nil, subSize_of_le (by omega) (by omega)]
    simp
  have size : (valueD 0 (sizeOfText ([] ++ numeral n))).toNat = n := by
    rw [List.nil_append, sizeOfText_numeral small]
    exact UInt64.toNat_ofNat_of_lt' small
  unfold TcpReader.handleHeader
  simp only [connected, reduceCtorEq, if_false, isOpen, Bool.not_true, Bool.false_eq_true, opening,
    start, ok_bind, Stream.good_at, Stream.get_cons, number, consumed, check_true, size,
    positive.ne', pure_ok]

end Handlers

section Runs

/-- What the reader waits for: the next frame, or the rest of a payload. -/
inductive TcpReader.Awaits (t : TcpReader) (remaining : Bytes) : List Bytes → Prop where
  | header {rest : List Bytes} :
      t.reading = .header → t.inBuffer ++ remaining = tcpStream rest → Awaits t remaining rest
  | body {p : Bytes} {rest : List Bytes} {atLeast transferred : Nat} :
      t.reading = .body p.length atLeast transferred →
      t.inBuffer ++ remaining = p ++ tcpStream rest →
      t.inBuffer.length + atLeast = p.length + transferred → Awaits t remaining (p :: rest)

/-- The reader has taken some of the payloads, and the others are in its buffer
or remain to come in. -/
structure TcpReader.Reads (payloads : List Bytes) (remaining : Bytes) (t : TcpReader) : Prop where
  connected : t.state = .connected
  isOpen : t.isOpen = true
  bounded : t.inBuffer.length < 2 ^ 64
  split : ∃ done rest, payloads = done ++ rest ∧ t.inQueue = tcpMessages done ∧
    t.Awaits remaining rest

/-- Payloads that can be framed. -/
structure Framed (payloads : List Bytes) : Prop where
  nonempty : ∀ p ∈ payloads, p ≠ []
  small : ∀ p ∈ payloads, p.length < 2 ^ 64

theorem TcpReader.Reads.arrive {chunk : Bytes} (reads : t.Reads payloads (chunk ++ remaining))
    (room : t.inBuffer.length + chunk.length < 2 ^ 64) :
    (t.arrive chunk).Reads payloads remaining := by
  obtain ⟨done, rest, whole, queued, awaits⟩ := reads.split
  refine ⟨reads.connected, reads.isOpen, ?_, done, rest, whole, queued, ?_⟩
  · rw [TcpReader.arrive, List.length_append]
    exact room
  · cases awaits with
    | header reading content =>
        refine .header ?_ ((List.append_assoc ..).trans content)
        rw [TcpReader.arrive, reading]
    | @body p rest atLeast transferred reading content counted =>
        refine @TcpReader.Awaits.body _ _ p rest atLeast (transferred + chunk.length) ?_
          ((List.append_assoc ..).trans content) ?_
        · rw [TcpReader.arrive, reading]
        · rw [TcpReader.arrive, List.length_append]
          omega

theorem exists_of_length_le {buffer rest : Bytes} (whole : buffer ++ remaining = p ++ rest)
    (enough : p.length ≤ buffer.length) : ∃ b, buffer = p ++ b ∧ b ++ remaining = rest := by
  obtain ⟨b, rfl⟩ := List.prefix_of_prefix_length_le ⟨rest, whole.symm⟩ ⟨remaining, rfl⟩ enough
  rw [List.append_assoc] at whole
  exact ⟨b, rfl, List.append_cancel_left whole⟩

private theorem reads_took {done rest : List Bytes} (reads : t.Reads payloads remaining)
    (whole : payloads = done ++ p :: rest) (queued : t.inQueue = tcpMessages done)
    (content : b ++ remaining = tcpStream rest) (shorter : b.length ≤ t.inBuffer.length) :
    (t.took p b).Reads payloads remaining := by
  refine ⟨reads.connected, reads.isOpen, shorter.trans_lt reads.bounded, done ++ [p], rest,
    by rw [whole]; simp, ?_, .header rfl content⟩
  rw [TcpReader.took, queued, tcpMessages_append]

/-- The handler of a complete read takes something from the buffer. -/
theorem TcpReader.Reads.complete (reads : t.Reads payloads remaining) (framed : Framed payloads)
    (ready : t.Ready) :
    ∃ next, t.complete = .ok next ∧ next.Reads payloads remaining ∧
      next.inBuffer.length < t.inBuffer.length := by
  obtain ⟨done, rest, whole, queued, awaits⟩ := reads.split
  cases awaits with
  | header reading content =>
      have there : 58 ∈ t.inBuffer := by
        rw [TcpReader.Ready, reading] at ready
        exact ready
      cases rest with
      | nil =>
          have empty : t.inBuffer = [] := (List.append_eq_nil_iff.mp content).1
          rw [empty] at there
          cases there
      | cons p rest =>
          have member : p ∈ payloads := by rw [whole]; simp
          have positive : 0 < p.length := List.length_pos_iff.mpr (framed.nonempty p member)
          rw [tcpStream_cons] at content
          obtain ⟨b, buffer, content⟩ := exists_of_mark_mem (clear_header _) content there
          have shorter : b.length < t.inBuffer.length := by rw [buffer]; simp; omega
          have handled := @handleHeader_eq { t with reading := .none } b reads.connected
            reads.isOpen p.length positive (framed.small p member) reads.bounded buffer
          rw [TcpReader.complete, reading]
          simp only [handled]
          split
          · rename_i enough
            obtain ⟨c, rfl, behind⟩ := exists_of_length_le content enough
            have body : { t with reading := .none, inBuffer := p ++ c }.handleBody false p.length =
                .ok (t.took p c) :=
              handleBody_eq reads.connected reads.isOpen (framed.nonempty p member) rfl
            have less : c.length ≤ t.inBuffer.length := by
              rw [List.length_append] at shorter
              omega
            refine ⟨_, body, reads_took reads whole queued behind less, ?_⟩
            change c.length < t.inBuffer.length
            rw [List.length_append] at shorter
            omega
          · rename_i more
            refine ⟨_, rfl, ⟨reads.connected, reads.isOpen, shorter.trans reads.bounded, done,
              p :: rest, whole, queued, .body rfl content ?_⟩, shorter⟩
            change b.length + (p.length - b.length) = p.length + 0
            omega
  | @body p rest atLeast transferred reading content counted =>
      have member : p ∈ payloads := by rw [whole]; simp
      have enough : atLeast ≤ transferred := by
        rw [TcpReader.Ready, reading] at ready
        exact ready
      have positive : 0 < p.length := List.length_pos_iff.mpr (framed.nonempty p member)
      obtain ⟨b, buffer, content⟩ := exists_of_length_le content (by omega)
      have body : { t with reading := .none }.handleBody false p.length = .ok (t.took p b) :=
        handleBody_eq reads.connected reads.isOpen (framed.nonempty p member) buffer
      have shorter : b.length < t.inBuffer.length := by
        rw [buffer, List.length_append]
        omega
      rw [TcpReader.complete, reading]
      exact ⟨_, body, reads_took reads whole queued content shorter.le, shorter⟩

theorem arrived_append (events later : List ReaderEvent) :
    arrived (events ++ later) = arrived events ++ arrived later := by
  induction events with
  | nil => rfl
  | cons event events ih =>
      cases event with
      | arrive chunk => rw [List.cons_append, arrived, ih, arrived, List.append_assoc]
      | complete => exact ih

theorem reads_of_run {events : List ReaderEvent} (framed : Framed payloads)
    (run : ReaderRun events t) :
    ∀ remaining, arrived events ++ remaining = tcpStream payloads → t.Reads payloads remaining := by
  refine run.invariant (fun events t =>
    ∀ remaining, arrived events ++ remaining = tcpStream payloads → t.Reads payloads remaining) ?_ ?_
  · rintro _ rfl remaining whole
    exact ⟨rfl, rfl, by decide, [], payloads, rfl, rfl, .header rfl whole⟩
  · intro events t event next _ earlier step remaining whole
    rw [arrived_append, List.append_assoc] at whole
    cases step with
    | @arrive chunk reading room =>
        rw [arrived, arrived, List.append_nil] at whole
        exact (earlier _ whole).arrive room
    | complete ready success =>
        obtain ⟨last, handled, reads, -⟩ := (earlier _ whole).complete framed ready
        cases handled.symm.trans success
        exact reads

theorem TcpReader.Reads.prefix_messages (reads : t.Reads payloads remaining) :
    t.inQueue <+: tcpMessages payloads := by
  obtain ⟨done, rest, rfl, queued, -⟩ := reads.split
  rw [queued, tcpMessages_append]
  exact List.prefix_append ..

theorem TcpReader.Reads.all_messages (reads : t.Reads payloads []) (waiting : ¬ t.Ready) :
    t.inQueue = tcpMessages payloads := by
  obtain ⟨done, rest, rfl, queued, awaits⟩ := reads.split
  rw [TcpReader.Ready] at waiting
  cases awaits with
  | header reading content =>
      rw [reading] at waiting
      cases rest with
      | nil => rw [queued, List.append_nil]
      | cons p rest =>
          rw [List.append_nil, tcpStream_cons] at content
          rw [content] at waiting
          exact absurd (by simp) waiting
  | body reading content counted =>
      rw [reading] at waiting
      rw [List.append_nil] at content
      have length := congrArg List.length content
      rw [List.length_append] at length
      exact absurd (by omega) waiting

/-- The handlers come to an end. -/
theorem TcpReader.Reads.drains {events : List ReaderEvent} (framed : Framed payloads)
    (run : ReaderRun events t) (reads : t.Reads payloads remaining) :
    ∃ n next, ReaderRun (events ++ List.replicate n .complete) next ∧
      next.Reads payloads remaining ∧ ¬ next.Ready := by
  induction size : t.inBuffer.length using Nat.strong_induction_on generalizing events t with
  | _ size ih =>
      by_cases ready : t.Ready
      · obtain ⟨between, handled, reads, shorter⟩ := reads.complete framed ready
        obtain ⟨n, next, rest, reads, waiting⟩ := ih _ (by omega)
          (run.step (.complete ready handled)) reads rfl
        refine ⟨n + 1, next, ?_, reads, waiting⟩
        rw [List.replicate_succ, List.append_cons]
        exact rest
      · refine ⟨0, t, ?_, reads, ready⟩
        rw [List.replicate_zero, List.append_nil]
        exact run

/-- However the frames of the payloads are cut into reads, the reader pushes
the messages among them in their order, each once, and no check of its handlers
fails. Once all bytes have come in, its handlers come to an end, and where they
have, it has pushed all messages. -/
theorem reader_delivers {events : List ReaderEvent} (framed : Framed payloads)
    (run : ReaderRun events t) (before : arrived events <+: tcpStream payloads) :
    t.inQueue <+: tcpMessages payloads ∧ (t.Ready → ∃ next, t.complete = .ok next) ∧
      (arrived events = tcpStream payloads →
        (¬ t.Ready → t.inQueue = tcpMessages payloads) ∧
        ∃ n next, ReaderRun (events ++ List.replicate n .complete) next ∧ ¬ next.Ready ∧
          next.inQueue = tcpMessages payloads) := by
  obtain ⟨remaining, whole⟩ := before
  have reads := reads_of_run framed run remaining whole
  refine ⟨reads.prefix_messages, fun ready => ?_, fun all => ?_⟩
  · obtain ⟨next, handled, -⟩ := reads.complete framed ready
    exact ⟨next, handled⟩
  · have last := reads_of_run framed run [] ((List.append_nil _).trans all)
    refine ⟨last.all_messages, ?_⟩
    obtain ⟨n, next, run, drained, waiting⟩ := last.drains framed run
    exact ⟨n, next, run, waiting, drained.all_messages waiting⟩

/-- A reader that has read an acknowledgement, and then gets the rest of a frame. -/
def betweenFrames : TcpReader :=
  let t := (TcpReader.startRead {}).arrive (ascii "!2:%a!")
  (valueD t t.complete).arrive (ascii "2:hi")

theorem betweenFrames_run : ReaderRun
    [.arrive (ascii "!2:%a!"), .complete, .arrive (ascii "2:hi")] betweenFrames := by
  have first : ReaderRun [.arrive (ascii "!2:%a!")] _ :=
    .single rfl (.arrive (by decide) (by decide))
  have ready : ((TcpReader.startRead {}).arrive (ascii "!2:%a!")).Ready := by
    change 58 ∈ ascii "!2:%a!"
    decide
  exact (first.step (.complete ready (ok_valueD (by decide +kernel)))).step
    (.arrive (by decide +kernel) (by decide +kernel))

theorem reader_delivers_hi : betweenFrames.inQueue <+: [ascii "hi"] ∧
    ∃ n next, ReaderRun ([.arrive (ascii "!2:%a!"), .complete, .arrive (ascii "2:hi")] ++
      List.replicate n .complete) next ∧ next.inQueue = [ascii "hi"] := by
  have framed : Framed [keepAliveAckMsg, ascii "hi"] := ⟨by decide, by decide⟩
  have all : arrived [.arrive (ascii "!2:%a!"), .complete, .arrive (ascii "2:hi")] =
      tcpStream [keepAliveAckMsg, ascii "hi"] := by decide +kernel
  have hi : tcpMessages [keepAliveAckMsg, ascii "hi"] = [ascii "hi"] := by decide
  obtain ⟨begun, -, last⟩ := reader_delivers framed betweenFrames_run ⟨[], by rw [all]; simp⟩
  obtain ⟨-, n, next, run, -, queued⟩ := last all
  rw [hi] at begun queued
  exact ⟨begun, n, next, run, queued⟩

end Runs

end Firestr.Network
