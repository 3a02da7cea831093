import Firestr.Network.TcpReader

/-! A listening TCP queue and `connection_manager::receive`. A message and the
connection it came in on travel through two queues, which `handle_body` fills
under a lock and `receive` empties without it. -/

set_option autoImplicit false

namespace Firestr.Network

open Firestr.Library.Runs Firestr.Util

variable {Conn : Type} [DecidableEq Conn]

/-- `tcp_queue` with its connections: the one whose `handle_body` is between
its two pushes, the message that `receive` has popped, which messages came in
where, and what was received from where. -/
structure TcpQueue (Conn : Type) where
  connections : Conn → TcpReader := fun _ => TcpReader.startRead {}
  inQueue : List Bytes := []
  lastInSocket : List Conn := []
  pushing : Option Conn := none
  receiving : Option Bytes := none
  failed : Option Fault := none
  came : List (Conn × Bytes) := []
  received : List (Conn × Bytes) := []

namespace TcpQueue

def put (s : TcpQueue Conn) (c : Conn) (t : TcpReader) : TcpQueue Conn :=
  { s with connections := Function.update s.connections c t }

/-- `handle_body` pushes its message on `_in_queue`. -/
def pushMessage (s : TcpQueue Conn) (c : Conn) (b : Bytes) : TcpQueue Conn :=
  { s with
    inQueue := s.inQueue ++ [b]
    pushing := some c
    came := s.came ++ [(c, b)] }

/-- And then its connection on `_last_in_socket`. -/
def pushSocket (s : TcpQueue Conn) (c : Conn) : TcpQueue Conn :=
  { s with
    lastInSocket := s.lastInSocket ++ [c]
    pushing := none }

/-- `tcp_queue::receive`, which does not wait. -/
def receive (s : TcpQueue Conn) : TcpQueue Conn :=
  match s.inQueue with
  | [] => s
  | b :: rest =>
    { s with
      inQueue := rest
      receiving := some b }

/-- `get_socket`, and the check of the socket for the message `b`. -/
def getSocket (s : TcpQueue Conn) (b : Bytes) : TcpQueue Conn :=
  match s.lastInSocket with
  | [] => { s with failed := some (.raised .check "s") }
  | c :: rest =>
    { s with
      lastInSocket := rest
      receiving := none
      received := s.received ++ [(c, b)] }

end TcpQueue

inductive QueueEvent (Conn : Type) where
  | arrive (c : Conn) (chunk : Bytes)
  | handles (c : Conn)
  | pushMessage (c : Conn) (b : Bytes)
  | pushSocket (c : Conn)
  | receive
  | getSocket (b : Bytes)

/-- Bytes come in, a handler runs that pushes no message, or one that pushes
one, under the lock until it has pushed its connection, or `receive` goes on.
A failed check ends the process. -/
inductive QueueStep (s : TcpQueue Conn) : QueueEvent Conn → TcpQueue Conn → Prop where
  | arrive {c : Conn} {chunk : Bytes} {t : TcpReader} :
      s.failed = none → ReaderStep (s.connections c) (.arrive chunk) t →
      QueueStep s (.arrive c chunk) (s.put c t)
  | handles {c : Conn} {t : TcpReader} :
      s.failed = none → s.pushing = none → ReaderStep (s.connections c) .complete t →
      t.inQueue = (s.connections c).inQueue → QueueStep s (.handles c) (s.put c t)
  | pushMessage {c : Conn} {b : Bytes} {t : TcpReader} :
      s.failed = none → s.pushing = none → ReaderStep (s.connections c) .complete t →
      t.inQueue = (s.connections c).inQueue ++ [b] →
      QueueStep s (.pushMessage c b) ((s.put c t).pushMessage c b)
  | pushSocket {c : Conn} :
      s.failed = none → s.pushing = some c → QueueStep s (.pushSocket c) (s.pushSocket c)
  | receive : s.failed = none → s.receiving = none → QueueStep s .receive s.receive
  | getSocket {b : Bytes} :
      s.failed = none → s.receiving = some b → QueueStep s (.getSocket b) (s.getSocket b)

abbrev QueueRun : List (QueueEvent Conn) → TcpQueue Conn → Prop :=
  Run (fun s => s = {}) QueueStep

/-- `get_socket` does not run while a `handle_body` is between its two pushes
and the message of the first has been popped already. -/
def TcpQueue.Timely (s : TcpQueue Conn) : QueueEvent Conn → Prop
  | .getSocket _ => s.pushing = none ∨ s.inQueue ≠ []
  | _ => True

section Pairing

variable {s next : TcpQueue Conn}

/-- Until a check fails, both queues hold what came in and was not received. -/
structure TcpQueue.Paired (s : TcpQueue Conn) : Prop where
  messages : s.came.map (·.2) = s.received.map (·.2) ++ (s.receiving.toList ++ s.inQueue)
  sockets : s.came.map (·.1) = s.received.map (·.1) ++ (s.lastInSocket ++ s.pushing.toList)

omit [DecidableEq Conn] in
theorem TcpQueue.Paired.prefix_came (paired : s.Paired) : s.received <+: s.came := by
  have messages : s.received.map (·.2) <+: s.came.map (·.2) := ⟨_, paired.messages.symm⟩
  have sockets : s.received.map (·.1) <+: s.came.map (·.1) := ⟨_, paired.sockets.symm⟩
  rw [List.prefix_iff_eq_take, List.length_map, ← List.map_take] at messages sockets
  rw [List.prefix_iff_eq_take]
  calc s.received
      = (s.received.map (·.1)).zip (s.received.map (·.2)) := List.zip_of_prod rfl rfl
    _ = ((s.came.take s.received.length).map (·.1)).zip
          ((s.came.take s.received.length).map (·.2)) := by rw [← sockets, ← messages]
    _ = s.came.take s.received.length := (List.zip_of_prod rfl rfl).symm

omit [DecidableEq Conn] in
/-- There is no socket for the popped message exactly when its own `handle_body`
has still to push it. -/
theorem TcpQueue.Paired.no_socket_iff (paired : s.Paired) {b : Bytes}
    (receiving : s.receiving = some b) :
    s.lastInSocket = [] ↔ ¬ s.Timely (.getSocket b) := by
  have messages := congrArg List.length paired.messages
  have sockets := congrArg List.length paired.sockets
  rw [receiving] at messages
  simp only [List.length_map, List.length_append, Option.toList_some, List.length_singleton]
    at messages sockets
  unfold TcpQueue.Timely
  rw [not_or, not_not, ← List.length_eq_zero_iff, ← List.length_eq_zero_iff]
  cases pushing : s.pushing with
  | none =>
      rw [pushing] at sockets
      simp only [Option.toList_none, List.length_nil] at sockets
      refine iff_of_false (fun none? => ?_) fun untimely => untimely.1 rfl
      omega
  | some c =>
      rw [pushing] at sockets
      simp only [Option.toList_some, List.length_singleton] at sockets
      constructor
      · exact fun none? => ⟨Option.some_ne_none c, by omega⟩
      · rintro ⟨-, none?⟩
        omega

theorem TcpQueue.Paired.step (paired : s.Paired) {event : QueueEvent Conn}
    (step : QueueStep s event next) : next.Paired := by
  obtain ⟨messages, sockets⟩ := paired
  cases step with
  | arrive => exact ⟨messages, sockets⟩
  | handles => exact ⟨messages, sockets⟩
  | @pushMessage c b t _ pushing =>
      constructor
      · change (s.came ++ [(c, b)]).map (·.2) = _ ++ (s.receiving.toList ++ (s.inQueue ++ [b]))
        rw [List.map_append, messages, List.append_assoc, List.append_assoc]
        rfl
      · change (s.came ++ [(c, b)]).map (·.1) = _ ++ (s.lastInSocket ++ [c])
        rw [pushing, Option.toList_none, List.append_nil] at sockets
        rw [List.map_append, sockets, List.append_assoc]
        rfl
  | @pushSocket c _ pushing =>
      refine ⟨messages, sockets.trans ?_⟩
      rw [pushing]
      change _ = s.received.map (·.1) ++ ((s.lastInSocket ++ [c]) ++ [])
      rw [List.append_nil]
      rfl
  | receive _ receiving =>
      unfold TcpQueue.receive
      cases queue : s.inQueue with
      | nil =>
          rw [queue] at messages
          exact ⟨by rw [queue]; exact messages, sockets⟩
      | cons b rest =>
          rw [receiving, queue] at messages
          exact ⟨messages, sockets⟩
  | @getSocket b _ receiving =>
      unfold TcpQueue.getSocket
      cases queue : s.lastInSocket with
      | nil => exact ⟨messages, by rw [queue] at sockets; exact sockets⟩
      | cons c rest =>
          rw [receiving] at messages
          rw [queue] at sockets
          constructor
          · change _ = (s.received ++ [(c, b)]).map (·.2) ++ ([] ++ s.inQueue)
            rw [messages, List.map_append, List.append_assoc]
            rfl
          · change _ = (s.received ++ [(c, b)]).map (·.1) ++ (rest ++ s.pushing.toList)
            rw [sockets, List.map_append, List.append_assoc]
            rfl

theorem TcpQueue.paired_of_run {events : List (QueueEvent Conn)} (run : QueueRun events s) :
    s.Paired := by
  refine run.invariant (fun _ s => s.Paired) ?_ fun _ _ _ _ _ paired step => paired.step step
  rintro _ rfl
  exact ⟨rfl, rfl⟩

/-- A check fails exactly in an untimely step. -/
theorem failed_iff (paired : s.Paired) {event : QueueEvent Conn}
    (step : QueueStep s event next) : next.failed = none ↔ s.Timely event := by
  cases step with
  | arrive fine | handles fine | pushMessage fine | pushSocket fine =>
      exact iff_of_true fine trivial
  | receive fine =>
      refine iff_of_true ?_ trivial
      unfold TcpQueue.receive
      cases s.inQueue <;> exact fine
  | @getSocket b fine receiving =>
      rw [← not_iff_not, ← paired.no_socket_iff receiving]
      unfold TcpQueue.getSocket
      cases s.lastInSocket with
      | nil => exact iff_of_true (by simp) rfl
      | cons c rest => exact iff_of_false (not_not.mpr fine) (List.cons_ne_nil _ _)

theorem not_failed_of_step {event : QueueEvent Conn} (step : QueueStep s event next) :
    s.failed = none := by
  cases step <;> assumption

/-- In every run each message is received with the connection it came in on, and
the check of the socket never fails, exactly when every `get_socket` is timely. -/
theorem keeps_sender_iff {events : List (QueueEvent Conn)} (run : QueueRun events s) :
    (s.failed = none ∧ s.received <+: s.came) ↔
      Run (fun s => s = {}) (fun s event next => QueueStep s event next ∧ s.Timely event)
        events s := by
  constructor
  · rintro ⟨fine, -⟩
    induction run with
    | start started => exact .start started
    | step earlier step ih =>
        have timely := (failed_iff (TcpQueue.paired_of_run earlier) step).mp fine
        exact (ih (not_failed_of_step step)).step ⟨step, timely⟩
  · intro timely
    refine ⟨?_, (TcpQueue.paired_of_run run).prefix_came⟩
    have both : s.Paired ∧ s.failed = none := by
      refine timely.invariant (fun _ s => s.Paired ∧ s.failed = none) ?_ ?_
      · rintro _ rfl
        exact ⟨⟨rfl, rfl⟩, rfl⟩
      · rintro _ s event next _ ⟨paired, -⟩ ⟨step, timely⟩
        exact ⟨paired.step step, (failed_iff paired step).mpr timely⟩
    exact both.2

end Pairing

section OneMessage

/-- A connection with the frame of a message in its buffer. -/
def holdsHi : TcpReader := (TcpReader.startRead {}).arrive (ascii "!2:hi")

def withHi : TcpQueue Unit := ({} : TcpQueue Unit).put () holdsHi

/-- The queue after `receive` has popped the message `hi`, whose `handle_body`
has not pushed its connection. -/
def poppedEarly : TcpQueue Unit :=
  ((withHi.put () (valueD holdsHi holdsHi.complete)).pushMessage () (ascii "hi")).receive

private theorem arrives_hi : QueueStep {} (.arrive () (ascii "!2:hi")) withHi :=
  .arrive rfl (.arrive (by decide) (by decide))

private theorem pushes_hi : QueueStep withHi (.pushMessage () (ascii "hi"))
    ((withHi.put () (valueD holdsHi holdsHi.complete)).pushMessage () (ascii "hi")) := by
  have ready : holdsHi.Ready := by
    change 58 ∈ ascii "!2:hi"
    decide
  have handled : holdsHi.complete = .ok (valueD holdsHi holdsHi.complete) :=
    ok_valueD (by decide +kernel)
  exact .pushMessage rfl rfl (.complete ready handled) (by decide +kernel)

theorem poppedEarly_run :
    QueueRun [.arrive () (ascii "!2:hi"), .pushMessage () (ascii "hi"), .receive] poppedEarly := by
  have first : QueueRun [.arrive () (ascii "!2:hi")] withHi := .single rfl arrives_hi
  exact (first.step pushes_hi).step (.receive rfl rfl)

/-- When its connection is pushed in time, the message is received from there. -/
theorem keeps_sender_hi :
    ((poppedEarly.pushSocket ()).getSocket (ascii "hi")).failed = none ∧
      ((poppedEarly.pushSocket ()).getSocket (ascii "hi")).received <+: [((), ascii "hi")] := by
  have run := (poppedEarly_run.step (.pushSocket rfl rfl)).step (.getSocket rfl rfl)
  have first : Run (fun s => s = {}) (fun (s : TcpQueue Unit) event next =>
      QueueStep s event next ∧ s.Timely event) [.arrive () (ascii "!2:hi")] withHi :=
    .single rfl ⟨arrives_hi, trivial⟩
  have popped := (first.step ⟨pushes_hi, trivial⟩).step ⟨.receive rfl rfl, trivial⟩
  exact (keeps_sender_iff run).mpr
    ((popped.step ⟨.pushSocket rfl rfl, trivial⟩).step ⟨.getSocket rfl rfl, .inl rfl⟩)

/-- When it is not, there is no socket, and the check of it fails. -/
theorem get_socket_too_early :
    QueueRun [.arrive () (ascii "!2:hi"), .pushMessage () (ascii "hi"), .receive,
        .getSocket (ascii "hi")] (poppedEarly.getSocket (ascii "hi")) ∧
      (poppedEarly.getSocket (ascii "hi")).failed = some (.raised .check "s") :=
  ⟨poppedEarly_run.step (.getSocket rfl rfl), rfl⟩

end OneMessage

end Firestr.Network
