import Mathlib.Logic.Function.Basic
import Firestr.Network.TcpReader

/-! What a TCP connection writes. Threads push messages on `_out_queue`, and
the io thread writes them one after another. Here every test and every change
of shared state is a step of its own. -/

set_option autoImplicit false

namespace Firestr.Network

open Firestr.Library.Runs Firestr.Util

/-- Where a thread stands in `send`: it has pushed its message, or it has seen
that the connection is connected as well. -/
inductive SendStage where
  | idle
  | pushed
  | connected
  deriving DecidableEq, Repr

/-- Where the io thread stands in its handlers. -/
inductive IoStage where
  | idle
  /-- `handle_connect` has seen the state `connecting`. -/
  | accepted
  /-- `handle_connect` has set the state and has not tested the queue. -/
  | connected
  /-- `do_send` begins. -/
  | doSend (force : Bool)
  /-- `do_send` has seen a message. -/
  | tested (force : Bool)
  /-- `do_send` has passed its tests. -/
  | write (force : Bool)
  /-- `handle_write` begins. -/
  | handleWrite
  /-- `handle_write` has removed the message. -/
  | popped
  /-- `handle_write` has seen the queue empty. -/
  | finish
  /-- `handle_write` is back from `do_send`. -/
  | ensure
  deriving DecidableEq, Repr

/-- What of a `tcp_connection` its writes use: with the outstanding operations,
where each thread stands, and what was pushed and written so far. -/
structure TcpWriter (Thread : Type) where
  state : ConState := .disconnected
  outQueue : List Bytes := []
  outBuffer : Bytes := []
  writing : Bool := false
  connects : Nat := 0
  posted : Nat := 0
  outstanding : Nat := 0
  stage : Thread → SendStage := fun _ => .idle
  io : IoStage := .idle
  pushed : List Bytes := []
  written : List Bytes := []

variable {Thread : Type} [DecidableEq Thread]

namespace TcpWriter

def new (con : Bool) : TcpWriter Thread :=
  { state := if con then .connected else .disconnected }

def moved (s : TcpWriter Thread) (i : Thread) (stage : SendStage) : TcpWriter Thread :=
  { s with stage := Function.update s.stage i stage }

/-- `send` pushes its message. -/
def push (s : TcpWriter Thread) (i : Thread) (b : Bytes) : TcpWriter Thread :=
  { s with
    outQueue := s.outQueue ++ [b]
    pushed := s.pushed ++ [b] }.moved i .pushed

/-- `send` tests `is_connected`. -/
def test (s : TcpWriter Thread) (i : Thread) : TcpWriter Thread :=
  s.moved i (if s.state = .connected then .connected else .idle)

/-- `send` posts a `do_send`. -/
def post (s : TcpWriter Thread) (i : Thread) : TcpWriter Thread :=
  { s with posted := s.posted + 1 }.moved i .idle

def connect (s : TcpWriter Thread) : TcpWriter Thread :=
  if s.state ≠ .disconnected then s
  else { s with
    state := .connecting
    connects := s.connects + 1 }

/-- `close` and `do_close`. -/
def close (s : TcpWriter Thread) : TcpWriter Thread :=
  { s with
    state := .disconnected
    writing := false }

/-- `handle_connect` begins. -/
def handleConnect (error : Bool) (s : TcpWriter Thread) : TcpWriter Thread :=
  let s := { s with connects := s.connects - 1 }
  if s.state ≠ .connecting then s
  else if error then s.close
  else { s with io := .accepted }

/-- The io thread takes a posted `do_send`. -/
def runPosted (s : TcpWriter Thread) : TcpWriter Thread :=
  { s with
    posted := s.posted - 1
    io := .doSend false }

/-- The outstanding write ends, and `handle_write` begins. -/
def wrote (s : TcpWriter Thread) : TcpWriter Thread :=
  { s with
    outstanding := s.outstanding - 1
    io := .handleWrite }

/-- `do_send` returns, to `handle_write` when it was forced. -/
def sendReturns (s : TcpWriter Thread) (force : Bool) : TcpWriter Thread :=
  { s with io := if force then .ensure else .idle }

/-- The next step of the handler that the io thread is in. -/
def ioStep (s : TcpWriter Thread) : Outcome (TcpWriter Thread) :=
  match s.io with
  | .idle => pure s
  | .accepted =>
    pure { s with
      state := .connected
      io := .connected }
  | .connected => pure { s with io := if s.outQueue.isEmpty then .idle else .doSend false }
  | .doSend force =>
    if s.state = .disconnected then pure (s.sendReturns force)
    else if s.outQueue.isEmpty then pure (s.sendReturns force)
    else pure { s with io := .tested force }
  | .tested force =>
    if !force && s.writing then pure (s.sendReturns force)
    else pure { s with io := .write force }
  | .write force =>
    match s.outQueue with
    | [] => .error (.raised .require "!(_out_queue.empty())")
    | b :: _ =>
      pure ({ s with
        writing := true
        outBuffer := encodeTcpWire b
        written := s.written ++ [encodeTcpWire b]
        outstanding := s.outstanding + 1 }.sendReturns force)
  | .handleWrite =>
    if s.state = .disconnected then do
      check (!s.writing) "!(_writing)"
      pure { s with io := .idle }
    else
      match s.outQueue with
      | [] => .error (.raised .require "!(_out_queue.empty())")
      | _ :: rest =>
        pure { s with
          outQueue := rest
          io := .popped }
  | .popped => pure { s with io := if s.outQueue.isEmpty then .finish else .doSend true }
  | .finish =>
    pure { s with
      writing := false
      io := .idle }
  | .ensure => do
    Util.ensure s.writing "_writing"
    pure { s with io := .idle }

end TcpWriter

inductive SendingEvent (Thread : Type) where
  | push (i : Thread) (b : Bytes)
  | test (i : Thread)
  | post (i : Thread)
  | connect
  | close
  | handleConnect (error : Bool)
  | runPosted
  | wrote
  | ioStep

/-- A step of a thread in `send`, a connection attempt or its end, or a step of
the io thread. A connection that is connected is not closed. -/
inductive SendingStep (s : TcpWriter Thread) : SendingEvent Thread → TcpWriter Thread → Prop where
  | push {i : Thread} {b : Bytes} : s.stage i = .idle → SendingStep s (.push i b) (s.push i b)
  | test {i : Thread} : s.stage i = .pushed → SendingStep s (.test i) (s.test i)
  | post {i : Thread} : s.stage i = .connected → SendingStep s (.post i) (s.post i)
  | connect : SendingStep s .connect s.connect
  | close : s.state ≠ .connected → SendingStep s .close s.close
  | handleConnect {error : Bool} :
      s.io = .idle → 0 < s.connects →
      SendingStep s (.handleConnect error) (s.handleConnect error)
  | runPosted : s.io = .idle → 0 < s.posted → SendingStep s .runPosted s.runPosted
  | wrote : s.io = .idle → 0 < s.outstanding → SendingStep s .wrote s.wrote
  | ioStep {next : TcpWriter Thread} :
      s.io ≠ .idle → s.ioStep = .ok next → SendingStep s .ioStep next

abbrev SendingRun : List (SendingEvent Thread) → TcpWriter Thread → Prop :=
  Run (fun s => ∃ con, s = TcpWriter.new con) SendingStep

end Firestr.Network
