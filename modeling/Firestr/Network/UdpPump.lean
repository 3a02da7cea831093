import Firestr.Network.UdpSenderRuns

/-! The send pump: a connection together with its io service. The service runs
the posted handlers in the order they were posted, and the handler of a write
when the write is done; a `send` of another thread posts twice, and anything
can happen between its two posts. -/

set_option autoImplicit false

namespace Firestr.Network

open Firestr.Util Firestr.Library.Runs

variable {Address : Type} (ip : IpAddresses Address)

/-- A connection, and how many calls of `send` are between their two posts. -/
structure Pump (Address : Type) where
  connection : UdpConnection Address := {}
  sending : Nat := 0

/-- The connection after a handler is posted to its io service. -/
def UdpConnection.post (s : UdpConnection Address) (posted : Posted) : UdpConnection Address :=
  { s with posted := s.posted ++ [posted] }

inductive PumpEvent (Address : Type) where
  | sendPosts (m : EndpointMessage)
  | sendReturns
  | runs
  | written
  | reads (source : Address × UInt16) (datagram : Bytes)
  | ticks

/-- A step of the threads of a `udp_queue`: `send` posts `add_to_working_set`
and then `do_send`, the resend thread posts `resend`, and the run thread runs
one handler. -/
inductive PumpStep : Pump Address → PumpEvent Address → Pump Address → Prop where
  | sendPosts {p : Pump Address} {m : EndpointMessage} :
      UdpConnection.accepts m = true → Sendable ip m →
      PumpStep p (.sendPosts m)
        { connection := p.connection.post (.addToWorkingSet m), sending := p.sending + 1 }
  | sendReturns {p : Pump Address} {sending : Nat} : p.sending = sending + 1 →
      PumpStep p .sendReturns
        { connection := p.connection.post .doSend, sending := sending }
  | runs {p : Pump Address} {posted : Posted} {rest : List Posted}
      {next : UdpConnection Address} : p.connection.posted = posted :: rest →
      (∀ m, posted = .addToWorkingSet m → p.connection.sequence.toNat + 1 < 2 ^ 64) →
      posted.handler.run ip { p.connection with posted := rest } = .ok next →
      PumpStep p .runs { p with connection := next }
  | written {p : Pump Address} {next : UdpConnection Address} : 0 < p.connection.outstanding →
      p.connection.handleWrite ip = .ok next →
      PumpStep p .written { p with connection := next }
  | reads {p : Pump Address} {source : Address × UInt16} {datagram : Bytes}
      {next : UdpConnection Address} : datagram.length ≤ maxUdpBuffSize →
      p.connection.handleRead ip source datagram = .ok next →
      PumpStep p (.reads source datagram) { p with connection := next }
  | ticks {p : Pump Address} :
      PumpStep p .ticks { p with connection := p.connection.post .resend }

abbrev PumpRun : List (PumpEvent Address) → Pump Address → Prop :=
  Run (fun p => p = {}) (PumpStep ip)

/-- Work for `do_send`: an ack, a message with an unsent chunk and an open
window, or a queued resend. -/
def Work (s : UdpConnection Address) : Prop :=
  (∃ c ∈ s.outQueue, c.type = .ack) ∨
    (∃ sequence wm, s.outWorking sequence = some wm ∧
      wm.nextSend < wm.proto.totalChunks.toNat ∧
      (wm.robust = true → wm.inFlight + wm.queued < maxFlight)) ∨
    ∃ r ∈ s.messageRing, r.resends ≠ []

/-- A `do_send` is going to run: it is posted, a `send` is about to post it,
or a write that runs it when done is outstanding. -/
def Pump.Awake (p : Pump Address) : Prop :=
  .doSend ∈ p.connection.posted ∨ 0 < p.sending ∨ 0 < p.connection.outstanding

/-- A message that waits to be added has a `do_send` posted after it, or its
`send` has yet to post one. -/
def Followed (posted : List Posted) (sending : Nat) : Prop :=
  ∀ before m after, posted = before ++ .addToWorkingSet m :: after → .doSend ∈ after ∨ 0 < sending

/-- What holds of a pump between two steps. -/
structure Pumping (log : List EndpointMessage) (p : Pump Address) : Prop where
  base : SenderBase ip log p.connection
  sendable : ∀ m, .addToWorkingSet m ∈ p.connection.posted → Sendable ip m
  followed : Followed p.connection.posted p.sending
  awake : Work p.connection → p.Awake

section Followed

variable {posted : List Posted} {sending : Nat}

theorem Followed.tail {first : Posted} {rest : List Posted}
    (followed : Followed (first :: rest) sending) : Followed rest sending := by
  rintro before m after rfl
  exact followed (first :: before) m after rfl

theorem Followed.append (followed : Followed posted sending) {later : List Posted}
    (others : ∀ m, .addToWorkingSet m ∉ later) : Followed (posted ++ later) sending := by
  intro before m after split
  rcases List.append_eq_append_iff.mp split with ⟨middle, rfl, rest⟩ | ⟨middle, rfl, rest⟩
  · exact absurd (by rw [rest]; simp) (others m)
  · cases middle with
    | nil => exact absurd (by rw [← List.nil_append later, ← rest]; simp) (others m)
    | cons first middle =>
        rw [List.cons_append, List.cons.injEq] at rest
        obtain ⟨rfl, rfl⟩ := rest
        exact (followed before m middle rfl).imp_left (List.mem_append_left _)

theorem followed_append_doSend (posted : List Posted) (sending : Nat) :
    Followed (posted ++ [.doSend]) sending := by
  intro before m after split
  rcases List.append_eq_append_iff.mp split with ⟨middle, rfl, rest⟩ | ⟨middle, rfl, rest⟩
  · have member : Posted.addToWorkingSet m ∈ [Posted.doSend] := by rw [rest]; simp
    simp at member
  · cases middle with
    | nil => simp at rest
    | cons first middle =>
        rw [List.cons_append, List.cons.injEq] at rest
        obtain ⟨rfl, rfl⟩ := rest
        exact .inl (by simp)

end Followed

section Work

variable {ip} {log : List EndpointMessage} {s next : UdpConnection Address}

theorem not_work_of_idle (base : SenderBase ip log s) (queue : s.outQueue = [])
    (idle : RingIdle s) : ¬ Work s := by
  rintro (⟨c, member, -⟩ | ⟨sequence, wm, working, unsent, room⟩ | ⟨r, member, resends⟩)
  · rw [queue] at member
    cases member
  · obtain ⟨m, entry, sending⟩ := base.working _ _ working
    have listed := (base.listed sequence).mpr (by rw [working]; rfl)
    obtain ⟨r, member, rfl⟩ := List.mem_map.mp listed
    refine (idle r member).2 wm working ⟨unsent, ?_⟩
    by_cases robust : wm.robust = true
    · rw [if_pos robust]
      exact room robust
    · rw [if_neg robust, sending.queued]
      decide
  · exact resends (idle r member).1

theorem outstanding_of_doSend (base : SenderBase ip log s) (sent : DoSend ip s next)
    (work : Work next) : 0 < next.outstanding := by
  cases sent with
  | idle queue idle => exact absurd (show Work s from work) (not_work_of_idle base queue idle)
  | ack => exact Nat.succ_pos _
  | fresh => exact Nat.succ_pos _
  | last => exact Nat.succ_pos _
  | resend => exact Nat.succ_pos _

theorem posted_of_doSend (sent : DoSend ip s next) : next.posted = s.posted := by
  cases sent <;> rfl

theorem work_of_ticked {posts : Nat}
    (quiet : posts = 0 → ∀ r ∈ s.messageRing, resentItem s.outWorking r = r)
    (none? : posts = 0) (work : Work (s.ticked posts)) : Work s := by
  rcases work with ack | ⟨sequence, found, entry, unsent, room⟩ | ⟨item, member, resends⟩
  · exact .inl ack
  · obtain ⟨wm, working, ticked⟩ := Option.bind_eq_some_iff.mp entry
    split at ticked
    · cases ticked
    · cases ticked
      exact .inr (.inl ⟨sequence, wm, working, unsent, room⟩)
  · obtain ⟨r, kept, rfl⟩ := List.mem_map.mp member
    have inRing := List.mem_of_mem_filter kept
    rw [quiet none? r inRing] at resends
    exact .inr (.inr ⟨r, inRing, resends⟩)

theorem read_posts {source : Address × UInt16} {datagram : Bytes}
    (step : HandlerStep ip s (.handleRead source datagram) next) :
    next.outstanding = s.outstanding ∧
      (next.posted = s.posted ++ [.doSend] ∨ next.posted = s.posted ∧ (Work next → Work s)) := by
  cases step with
  | noise => exact ⟨rfl, .inr ⟨rfl, id⟩⟩
  | @chunk _ _ c arrives data? =>
      refine ⟨rfl, ?_⟩
      by_cases robust : c.type = .msg
      · exact .inl (if_pos robust)
      · refine .inr ⟨if_neg robust, fun work => ?_⟩
        have queue : (s.takeChunk (sourceEndpoint ip source) c).outQueue = s.outQueue :=
          if_neg robust
        rcases work with ⟨ack, member, typed⟩ | later
        · exact .inl ⟨ack, queue ▸ member, typed⟩
        · exact .inr later
  | stale => exact ⟨rfl, .inl rfl⟩
  | part => exact ⟨rfl, .inl rfl⟩
  | whole => exact ⟨rfl, .inl rfl⟩

end Work

section Pumping

variable {ip} {log : List EndpointMessage} {p next : Pump Address}

theorem Pumping.start : Pumping ip [] ({} : Pump Address) where
  base := .start
  sendable m member := by cases member
  followed before m after split := by simp at split
  awake work := by
    rcases work with ⟨c, member, -⟩ | ⟨sequence, wm, entry, -⟩ | ⟨r, member, -⟩
    · cases member
    · cases entry
    · cases member

theorem Pumping.runs (pumping : Pumping ip log p) {posted : Posted} {rest : List Posted}
    {after : UdpConnection Address} (queue : p.connection.posted = posted :: rest)
    (room : ∀ m, posted = .addToWorkingSet m → p.connection.sequence.toNat + 1 < 2 ^ 64)
    (success : posted.handler.run ip { p.connection with posted := rest } = .ok after) :
    ∃ later, Pumping ip (log ++ later) { p with connection := after } := by
  have base : SenderBase ip log { p.connection with posted := rest } :=
    pumping.base.frame rfl rfl rfl (fun _ member => member) rfl
  have followed : Followed rest p.sending := (queue ▸ pumping.followed).tail
  have sendable : ∀ m, .addToWorkingSet m ∈ rest → Sendable ip m := fun m member =>
    pumping.sendable m (by rw [queue]; exact .tail _ member)
  cases posted with
  | addToWorkingSet m =>
      have first : Sendable ip m := pumping.sendable m (by rw [queue]; exact List.mem_cons_self)
      have allowed : Handler.Allowed ip { p.connection with posted := rest }
          (.addToWorkingSet m) := ⟨first, room m rfl⟩
      have step := handlerStep_of_run base _ allowed success
      have kept := base.step _ allowed step
      cases step
      exact ⟨[m], kept, sendable, followed, fun _ =>
        (pumping.followed [] m rest queue).imp_right .inl⟩
  | doSend =>
      have step := handlerStep_of_run base .doSend trivial success
      have kept := base.step .doSend trivial step
      cases step with
      | doSend sent =>
          have posted : after.posted = rest := posted_of_doSend sent
          refine ⟨[], kept, fun m member => sendable m ?_, ?_, fun work =>
            .inr (.inr (outstanding_of_doSend base sent work))⟩
          · exact posted ▸ member
          · exact posted.symm ▸ followed
  | resend =>
      have step := handlerStep_of_run base .resend trivial success
      have kept := base.step .resend trivial step
      cases step with
      | @resend posts quiet =>
          refine ⟨[], kept, fun m member => ?_, followed.append ?_, fun work => ?_⟩
          · rcases List.mem_append.mp member with earlier | sends
            · exact sendable m earlier
            · exact absurd (List.eq_of_mem_replicate sends) (by simp)
          · intro m sends
            exact absurd (List.eq_of_mem_replicate sends) (by simp)
          · by_cases none? : posts = 0
            · rcases pumping.awake (work_of_ticked quiet none? work) with send | later
              · refine .inl (List.mem_append_left _ ?_)
                rw [queue] at send
                simpa using send
              · exact .inr later
            · exact .inl (List.mem_append_right _ (List.mem_replicate.mpr ⟨none?, rfl⟩))

theorem Pumping.step (pumping : Pumping ip log p) {event : PumpEvent Address}
    (step : PumpStep ip p event next) : ∃ later, Pumping ip (log ++ later) next := by
  have posting : ∀ posted, SenderBase ip (log ++ []) (p.connection.post posted) := by
    intro posted
    rw [List.append_nil]
    exact pumping.base.frame rfl rfl rfl (fun _ member => member) rfl
  cases step with
  | @sendPosts m accepted first =>
      refine ⟨[], posting _, fun other member => ?_, fun before other after split => ?_, fun _ => ?_⟩
      · rcases List.mem_append.mp member with earlier | here
        · exact pumping.sendable other earlier
        · cases List.mem_singleton.mp here
          exact first
      · exact .inr (Nat.succ_pos _)
      · exact .inr (.inl (Nat.succ_pos _))
  | @sendReturns sending entered =>
      refine ⟨[], posting _, fun other member => ?_, followed_append_doSend _ _, fun _ => ?_⟩
      · rcases List.mem_append.mp member with earlier | here
        · exact pumping.sendable other earlier
        · cases List.mem_singleton.mp here
      · exact .inl (List.mem_append_right _ List.mem_cons_self)
  | runs queue room success => exact pumping.runs queue room success
  | @written after outstanding success =>
      have step := handlerStep_of_run pumping.base .handleWrite trivial success
      have kept := pumping.base.step .handleWrite trivial step
      cases step with
      | handleWrite sent =>
          have written : SenderBase ip log
              { p.connection with outstanding := p.connection.outstanding - 1 } :=
            pumping.base.frame rfl rfl rfl (fun _ member => member) rfl
          have posted : after.posted = p.connection.posted := (posted_of_doSend sent).trans rfl
          refine ⟨[], kept, fun m member => pumping.sendable m ?_, ?_, fun work =>
            .inr (.inr (outstanding_of_doSend written sent work))⟩
          · exact posted ▸ member
          · exact posted.symm ▸ pumping.followed
  | @reads source datagram after small success =>
      have step := handlerStep_of_run pumping.base (.handleRead source datagram) small
        success
      have kept := pumping.base.step (.handleRead source datagram) small step
      obtain ⟨writes, posted | ⟨posted, quiet⟩⟩ := read_posts step
      · refine ⟨[], kept, fun m member => pumping.sendable m ?_, ?_, fun _ => .inl ?_⟩
        · replace member : Posted.addToWorkingSet m ∈ after.posted := member
          rw [posted] at member
          simpa using member
        · change Followed after.posted p.sending
          rw [posted]
          exact followed_append_doSend _ _
        · change Posted.doSend ∈ after.posted
          rw [posted]
          simp
      · refine ⟨[], kept, fun m member => pumping.sendable m ?_, ?_, fun work => ?_⟩
        · exact posted ▸ member
        · exact posted.symm ▸ pumping.followed
        · rcases pumping.awake (quiet work) with send | sending | writing
          · exact .inl (posted.symm ▸ send)
          · exact .inr (.inl sending)
          · exact .inr (.inr (writes.symm ▸ writing))
  | ticks =>
      refine ⟨[], posting _, fun other member => ?_, pumping.followed.append (by simp), ?_⟩
      · rcases List.mem_append.mp member with earlier | here
        · exact pumping.sendable other earlier
        · cases List.mem_singleton.mp here
      · intro work
        exact (pumping.awake work).imp_left (List.mem_append_left _)

/-- The pump never stalls: after every run, work means that a `do_send` is
posted, is about to be posted by a `send`, or follows an outstanding write. -/
theorem pump_awake {events : List (PumpEvent Address)} (run : PumpRun ip events p)
    (work : Work p.connection) : p.Awake := by
  have pumping : ∃ log, Pumping ip log p := by
    refine run.invariant (fun _ p => ∃ log, Pumping ip log p) ?_ ?_
    · rintro _ rfl
      exact ⟨[], .start⟩
    · rintro events p event next - ⟨log, pumping⟩ step
      obtain ⟨later, stepped⟩ := pumping.step step
      exact ⟨log ++ later, stepped⟩
  obtain ⟨log, pumping⟩ := pumping
  exact pumping.awake work

end Pumping

/-- Between the two posts of its `send`, with `hello` already added. -/
theorem pump_awake_hello :
    Pump.Awake { connection := ({} : UdpConnection Unit).added hello, sending := 1 } := by
  have run : PumpRun loneHost ([] ++ [.sendPosts hello] ++ [.runs])
      { connection := ({} : UdpConnection Unit).added hello, sending := 1 } :=
    .step (.step (.start rfl) (.sendPosts (by decide) hello_sendable))
      (.runs rfl (fun _ _ => by decide) (addToWorkingSet_eq .start hello_sendable (by decide)))
  exact pump_awake run
    (.inr (.inl ⟨1, freshMessage 1 hello, rfl, by decide, fun _ => by decide⟩))

end Firestr.Network
