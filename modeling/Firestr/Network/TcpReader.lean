import Firestr.Library.Runs
import Firestr.Util.Mencode

/-! What a TCP connection reads. A message is framed by its length, and bytes
that have come in but are not used yet stay in one buffer, from one handler to
the next. -/

set_option autoImplicit false

namespace Firestr.Network

open Firestr.Library.Runs Firestr.Util

def keepAliveMsg : Bytes := ascii "%k"

def keepAliveAckMsg : Bytes := ascii "%a"

def encodeTcpWire (data : Bytes) : Bytes := ascii "!" ++ encodeB data

inductive ConState where
  | connecting
  | connected
  | disconnected
  deriving DecidableEq, Repr

/-- The read that is outstanding: `async_read_until` of a `:`, or `async_read`
with `transfer_at_least`, and what it has transferred so far. -/
inductive Reading where
  | none
  | header
  | body (size atLeast transferred : Nat)
  deriving DecidableEq, Repr

/-- What of a `tcp_connection` its reads use: with the messages that it has
pushed on `_in_queue`, and those that it has given to its own `send`. -/
structure TcpReader where
  state : ConState := .connected
  isOpen : Bool := true
  inBuffer : Bytes := []
  reading : Reading := .none
  alive : Bool := false
  inQueue : List Bytes := []
  sent : List Bytes := []

namespace TcpReader

def close (t : TcpReader) : TcpReader := { t with state := .disconnected }

def startRead (t : TcpReader) : TcpReader :=
  if !t.isOpen then t.close else { t with reading := .header }

def handleBody (error : Bool) (size : Nat) (t : TcpReader) : Outcome TcpReader := do
  require (decide (size > 0)) "size > 0"
  if t.state = .disconnected then pure t
  else if error then pure t.close
  else if !t.isOpen then pure t.close
  else if t.inBuffer.length < size then
    pure { t with reading := .body size (size - t.inBuffer.length) 0 }
  else
    let (data, i) := Stream.read { rest := t.inBuffer } size
    let t := { t with inBuffer := i.rest }
    let t :=
      if data = keepAliveMsg then { t with sent := t.sent ++ [keepAliveAckMsg] }
      else if data = keepAliveAckMsg then { t with alive := true }
      else { t with inQueue := t.inQueue ++ [data] }
    pure t.startRead

def handleHeader (error : Bool) (t : TcpReader) : Outcome TcpReader := do
  if t.state = .disconnected then pure t
  else if error then pure t.close
  else if !t.isOpen then pure t.close
  else do
    let oSize := t.inBuffer.length
    let (c, i) := Stream.get { rest := t.inBuffer }
    let (_, i, skipped) ← getUntilLoop 33 (oSize + 2) c i []
    let garbage := 1 + skipped.length
    if !i.good then pure { t with inBuffer := i.rest }.startRead
    else do
      let (c, i) := i.get
      let (_, i, sizeBuf) ← getUntilLoop 58 (oSize + 2) c i []
      let rc := 1 + sizeBuf.length
      if !i.good then pure { t with inBuffer := i.rest }.startRead
      else do
        check (i.rest.length == subSize (subSize oSize rc) garbage)
          "_in_buffer.size() == o_size - rc - garbage"
        let t := { t with inBuffer := i.rest }
        let size := (valueD 0 (sizeOfText sizeBuf)).toNat
        if size = 0 then pure t.startRead
        else if t.inBuffer.length ≥ size then t.handleBody false size
        else pure { t with reading := .body size (size - t.inBuffer.length) 0 }

/-- Bytes that the outstanding read puts into the buffer. -/
def arrive (t : TcpReader) (chunk : Bytes) : TcpReader :=
  { t with
    inBuffer := t.inBuffer ++ chunk
    reading :=
      match t.reading with
      | .body size atLeast transferred => .body size atLeast (transferred + chunk.length)
      | reading => reading }

/-- The outstanding read is complete. -/
def Ready (t : TcpReader) : Prop :=
  match t.reading with
  | .none => False
  | .header => 58 ∈ t.inBuffer
  | .body _ atLeast transferred => atLeast ≤ transferred

/-- The handler of the outstanding read. -/
def complete (t : TcpReader) : Outcome TcpReader :=
  match t.reading with
  | .none => pure t
  | .header => { t with reading := .none }.handleHeader false
  | .body size _ _ => { t with reading := .none }.handleBody false size

end TcpReader

inductive ReaderEvent where
  | arrive (chunk : Bytes)
  | complete

/-- A read puts bytes into the buffer, within its `max_size`, also when it is
complete already and its handler has not run yet. -/
inductive ReaderStep (t : TcpReader) : ReaderEvent → TcpReader → Prop where
  | arrive {chunk : Bytes} :
      t.reading ≠ .none → t.inBuffer.length + chunk.length < 2 ^ 64 →
      ReaderStep t (.arrive chunk) (t.arrive chunk)
  | complete {next : TcpReader} :
      t.Ready → t.complete = .ok next → ReaderStep t .complete next

abbrev ReaderRun : List ReaderEvent → TcpReader → Prop :=
  Run (fun t => t = TcpReader.startRead {}) ReaderStep

def arrived : List ReaderEvent → Bytes
  | [] => []
  | .arrive chunk :: events => chunk ++ arrived events
  | .complete :: events => arrived events

def tcpStream (payloads : List Bytes) : Bytes := payloads.flatMap encodeTcpWire

def tcpMessages (payloads : List Bytes) : List Bytes :=
  payloads.filter fun p => decide (p ≠ keepAliveMsg ∧ p ≠ keepAliveAckMsg)

end Firestr.Network
