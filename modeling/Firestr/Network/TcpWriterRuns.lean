import Firestr.Network.TcpWriter

/-! The chain of writes. One write is outstanding at a time, and no message is
left behind in the queue. -/

set_option autoImplicit false

namespace Firestr.Network

open Firestr.Library.Runs Firestr.Util

variable {Thread : Type} {s next : TcpWriter Thread} {done : List Bytes}

/-- The first message of the queue has been given to `async_write`. -/
def TcpWriter.Flies (s : TcpWriter Thread) (done : List Bytes) : Prop :=
  s.writing = true ∧
    ∃ b rest, s.outQueue = b :: rest ∧ s.written = (done ++ [b]).map encodeTcpWire

/-- No message of the queue has been given to `async_write`. -/
def TcpWriter.Rests (s : TcpWriter Thread) (done : List Bytes) (writing : Bool) : Prop :=
  s.writing = writing ∧ s.outstanding = 0 ∧ s.written = done.map encodeTcpWire

/-- A write is outstanding, or `_writing` is off. -/
def TcpWriter.Steady (s : TcpWriter Thread) (done : List Bytes) : Prop :=
  (s.Flies done ∧ s.outstanding = 1) ∨ s.Rests done false

/-- What holds where the io thread stands, when `done` has been written. -/
def TcpWriter.Chained (s : TcpWriter Thread) (done : List Bytes) : Prop :=
  match s.io with
  | .idle | .accepted | .connected | .doSend false => s.Steady done
  | .tested false => s.Steady done ∧ s.outQueue ≠ []
  | .write false => s.Rests done false ∧ s.outQueue ≠ []
  | .handleWrite => s.Flies done ∧ s.outstanding = 0
  | .popped | .finish => s.Rests done true
  | .doSend true | .tested true | .write true => s.Rests done true ∧ s.outQueue ≠ []
  | .ensure => s.Flies done ∧ s.outstanding = 1

/-- A write is outstanding, a `do_send` is posted, runs or will be posted, or
the handler that runs has still to test the queue. -/
def TcpWriter.Awake (s : TcpWriter Thread) : Prop :=
  0 < s.outstanding ∨ 0 < s.posted ∨ (∃ i, s.stage i ≠ .idle) ∨
    match s.io with
    | .connected | .doSend _ | .tested _ | .write _ | .handleWrite | .popped => True
    | .idle | .accepted | .finish | .ensure => False

/-- A step of the io thread, or the next step of a thread that has pushed its message. -/
def SendingEvent.CarriesOn : SendingEvent Thread → Prop
  | .test _ | .post _ | .runPosted | .wrote | .ioStep => True
  | .push .. | .connect | .close | .handleConnect _ => False

/-- How far the io thread is from an empty queue: each message counts as much as
all steps between two of them. -/
def TcpWriter.distance (s : TcpWriter Thread) : Nat :=
  12 * s.outQueue.length +
    match s.io with
    | .popped => 11
    | .doSend true => 10
    | .accepted | .tested true => 9
    | .connected | .write true => 8
    | .finish => 7
    | .idle => if s.outstanding = 0 then 6 else 2
    | .doSend false => 5
    | .tested false => 4
    | .write false | .ensure => 3
    | .handleWrite => 0

structure TcpWriter.Valid (s : TcpWriter Thread) : Prop where
  chained : ∃ done, s.pushed = done ++ s.outQueue ∧ s.Chained done
  quiet : s.state ≠ .connected →
    (s.io = .idle ∨ s.io = .accepted) ∧ s.writing = false ∧ s.posted = 0 ∧
      ∀ i, s.stage i ≠ .connected
  awake : s.state = .connected → s.outQueue ≠ [] → s.Awake

section Steps

/-- A step that leaves the written messages and the io thread alone, and may
push messages, keeps the chain. -/
theorem TcpWriter.Chained.frame (chained : s.Chained done) {more : List Bytes}
    (queue : next.outQueue = s.outQueue ++ more) (writing : next.writing = s.writing)
    (outstanding : next.outstanding = s.outstanding) (io : next.io = s.io)
    (written : next.written = s.written) : next.Chained done := by
  have flies : s.Flies done → next.Flies done := by
    rintro ⟨on, b, rest, shape, sent⟩
    exact ⟨writing.trans on, b, rest ++ more, by rw [queue, shape, List.cons_append],
      written.trans sent⟩
  have rests : ∀ {on : Bool}, s.Rests done on → next.Rests done on := fun rests =>
    ⟨writing.trans rests.1, outstanding.trans rests.2.1, written.trans rests.2.2⟩
  have steady : s.Steady done → next.Steady done :=
    Or.imp (And.imp flies outstanding.trans) rests
  have some? : s.outQueue ≠ [] → next.outQueue ≠ [] := by
    intro some? none?
    rw [queue] at none?
    exact some? (List.append_eq_nil_iff.mp none?).1
  unfold TcpWriter.Chained at chained ⊢
  rw [io]
  split at chained
  · exact steady chained
  · exact steady chained
  · exact steady chained
  · exact steady chained
  · exact chained.imp steady some?
  · exact chained.imp rests some?
  · exact chained.imp flies outstanding.trans
  · exact rests chained
  · exact rests chained
  · exact chained.imp rests some?
  · exact chained.imp rests some?
  · exact chained.imp rests some?
  · exact chained.imp flies outstanding.trans

private theorem connected_of_io (valid : s.Valid) {io : IoStage} (here : s.io = io)
    (idle : io ≠ .idle) (accepted : io ≠ .accepted) : s.state = .connected := by
  by_contra other
  rcases (valid.quiet other).1 with same | same
  · exact idle (here.symm.trans same)
  · exact accepted (here.symm.trans same)

private theorem valid_at (connected : s.state = .connected)
    (whole : s.pushed = done ++ s.outQueue) (chained : s.Chained done)
    (awake : s.outQueue ≠ [] → s.Awake) : s.Valid :=
  ⟨⟨done, whole, chained⟩, fun other => absurd connected other, fun _ => awake⟩

private theorem TcpWriter.Valid.keeps (valid : s.Valid) (queue : next.outQueue = s.outQueue)
    (pushed : next.pushed = s.pushed) (writing : next.writing = s.writing)
    (outstanding : next.outstanding = s.outstanding) (io : next.io = s.io)
    (written : next.written = s.written) :
    ∃ done, next.pushed = done ++ next.outQueue ∧ next.Chained done := by
  obtain ⟨done, whole, chained⟩ := valid.chained
  refine ⟨done, by rw [pushed, queue, whole], ?_⟩
  exact @TcpWriter.Chained.frame _ s _ done chained [] (by rw [queue, List.append_nil]) writing
    outstanding io written

private theorem TcpWriter.Valid.connect (valid : s.Valid) : s.connect.Valid := by
  unfold TcpWriter.connect
  split
  · exact valid
  · rename_i closed
    have other : s.state ≠ .connected := by
      rw [not_not.mp closed]
      decide
    exact ⟨valid.keeps rfl rfl rfl rfl rfl rfl, fun _ => valid.quiet other, by simp⟩

private theorem TcpWriter.Valid.close (valid : s.Valid) (other : s.state ≠ .connected) :
    s.close.Valid := by
  obtain ⟨io, writing, rest⟩ := valid.quiet other
  exact ⟨valid.keeps rfl rfl writing.symm rfl rfl rfl, fun _ => ⟨io, rfl, rest⟩,
    by simp [TcpWriter.close]⟩

private theorem TcpWriter.Valid.handleConnect (valid : s.Valid) (idle : s.io = .idle)
    (error : Bool) : (s.handleConnect error).Valid := by
  have fewer : TcpWriter.Valid { s with connects := s.connects - 1 } :=
    ⟨valid.keeps rfl rfl rfl rfl rfl rfl, valid.quiet, valid.awake⟩
  unfold TcpWriter.handleConnect
  dsimp only
  split
  · exact fewer
  · rename_i waits
    have connecting : s.state = .connecting := not_not.mp waits
    have other : s.state ≠ .connected := by
      rw [connecting]
      decide
    split
    · exact fewer.close other
    · obtain ⟨done, whole, chained⟩ := valid.chained
      unfold TcpWriter.Chained at chained
      rw [idle] at chained
      exact ⟨⟨done, whole, chained⟩, fun _ => ⟨.inr rfl, (valid.quiet other).2⟩,
        fun connected => absurd connected other⟩

private theorem TcpWriter.Valid.runPosted (valid : s.Valid) (idle : s.io = .idle)
    (posted : 0 < s.posted) : s.runPosted.Valid := by
  obtain ⟨done, whole, chained⟩ := valid.chained
  unfold TcpWriter.Chained at chained
  rw [idle] at chained
  refine ⟨⟨done, whole, chained⟩, fun other => ?_, fun _ _ => .inr (.inr (.inr trivial))⟩
  exact absurd (valid.quiet other).2.2.1 posted.ne'

private theorem TcpWriter.Valid.wrote (valid : s.Valid) (idle : s.io = .idle)
    (outstanding : 0 < s.outstanding) : s.wrote.Valid := by
  obtain ⟨done, whole, chained⟩ := valid.chained
  unfold TcpWriter.Chained at chained
  rw [idle] at chained
  rcases chained with ⟨flies, one⟩ | rests
  · refine ⟨⟨done, whole, flies, ?_⟩, fun other => ?_, fun _ _ => .inr (.inr (.inr trivial))⟩
    · change s.outstanding - 1 = 0
      rw [one]
    · exact absurd flies.1 (by rw [(valid.quiet other).2.1]; decide)
  · exact absurd rests.2.1 outstanding.ne'

/-- No handler meets a fault on its way. -/
theorem TcpWriter.Valid.ioStep (valid : s.Valid) :
    ∃ next, s.ioStep = .ok next ∧ next.Valid := by
  obtain ⟨done, whole, chained⟩ := valid.chained
  have running : ∀ {io : IoStage}, s.io = io → io ≠ .idle → io ≠ .accepted →
      s.state = .connected := fun here => connected_of_io valid here
  unfold TcpWriter.Chained at chained
  unfold TcpWriter.ioStep
  cases io : s.io with
  | idle => exact ⟨s, rfl, valid⟩
  | accepted =>
      rw [io] at chained
      exact ⟨_, rfl, valid_at rfl whole chained fun _ => .inr (.inr (.inr trivial))⟩
  | connected =>
      have connected := running io (by decide) (by decide)
      rw [io] at chained
      refine ⟨_, rfl, ?_⟩
      split
      · rename_i none?
        exact valid_at connected whole chained fun some? => absurd (List.isEmpty_iff.mp none?) some?
      · exact valid_at connected whole chained fun _ => .inr (.inr (.inr trivial))
  | doSend force =>
      have connected := running io (by simp) (by simp)
      rw [io] at chained
      dsimp only
      rw [if_neg (by rw [connected]; decide)]
      split
      · rename_i none?
        have empty := List.isEmpty_iff.mp none?
        cases force with
        | false => exact ⟨_, rfl, valid_at connected whole chained fun some? => absurd empty some?⟩
        | true => exact absurd empty chained.2
      · rename_i some?
        have left : s.outQueue ≠ [] := fun empty => some? (by rw [empty]; rfl)
        refine ⟨_, rfl, ?_⟩
        cases force with
        | false =>
            exact valid_at connected whole ⟨chained, left⟩ fun _ => .inr (.inr (.inr trivial))
        | true => exact valid_at connected whole chained fun _ => .inr (.inr (.inr trivial))
  | tested force =>
      have connected := running io (by simp) (by simp)
      rw [io] at chained
      dsimp only
      cases force with
      | false =>
          obtain ⟨⟨flies, one⟩ | rests, left⟩ := chained
          · rw [flies.1]
            refine ⟨_, rfl, valid_at connected whole (.inl ⟨flies, one⟩) fun _ => .inl ?_⟩
            exact one.symm ▸ Nat.one_pos
          · rw [rests.1]
            exact ⟨_, rfl, valid_at connected whole ⟨⟨rfl, rests.2⟩, left⟩ fun _ =>
              .inr (.inr (.inr trivial))⟩
      | true => exact ⟨_, rfl, valid_at connected whole chained fun _ => .inr (.inr (.inr trivial))⟩
  | write force =>
      have connected := running io (by simp) (by simp)
      rw [io] at chained
      have rests : ∃ on, s.Rests done on ∧ s.outQueue ≠ [] := by
        cases force with
        | false => exact ⟨_, chained⟩
        | true => exact ⟨_, chained⟩
      obtain ⟨on, ⟨-, none?, written⟩, left⟩ := rests
      obtain ⟨b, rest, queue⟩ := List.exists_cons_of_ne_nil left
      have sent : s.written ++ [encodeTcpWire b] = (done ++ [b]).map encodeTcpWire := by
        rw [written, List.map_append, List.map_singleton]
      have one : s.outstanding + 1 = 1 := by rw [none?]
      rw [queue] at whole ⊢
      refine ⟨_, rfl, ?_⟩
      cases force with
      | false =>
          exact valid_at connected whole (.inl ⟨⟨rfl, b, rest, rfl, sent⟩, one⟩)
            fun _ => .inl (Nat.succ_pos _)
      | true =>
          exact valid_at connected whole ⟨⟨rfl, b, rest, rfl, sent⟩, one⟩
            fun _ => .inl (Nat.succ_pos _)
  | handleWrite =>
      have connected := running io (by decide) (by decide)
      rw [io] at chained
      obtain ⟨⟨on, b, rest, queue, written⟩, none?⟩ := chained
      dsimp only
      rw [if_neg (by rw [connected]; decide), queue]
      refine ⟨_, rfl, @valid_at _ _ (done ++ [b]) connected ?_ ⟨on, none?, written⟩
        fun _ => .inr (.inr (.inr trivial))⟩
      change s.pushed = done ++ [b] ++ rest
      rw [whole, queue, List.append_assoc, List.singleton_append]
  | popped =>
      have connected := running io (by decide) (by decide)
      rw [io] at chained
      refine ⟨_, rfl, ?_⟩
      split
      · rename_i none?
        exact valid_at connected whole chained fun some? => absurd (List.isEmpty_iff.mp none?) some?
      · rename_i some?
        have left : s.outQueue ≠ [] := fun empty => some? (by rw [empty]; rfl)
        exact valid_at connected whole ⟨chained, left⟩ fun _ => .inr (.inr (.inr trivial))
  | finish =>
      have connected := running io (by decide) (by decide)
      rw [io] at chained
      refine ⟨_, rfl, valid_at connected whole (.inr ⟨rfl, chained.2⟩) fun some? => ?_⟩
      -- A message that came after the test was pushed by a thread that has still to post.
      have awake := valid.awake connected some?
      unfold TcpWriter.Awake at awake
      rw [io] at awake
      exact awake
  | ensure =>
      have connected := running io (by decide) (by decide)
      rw [io] at chained
      obtain ⟨flies, one⟩ := chained
      dsimp only
      rw [flies.1]
      refine ⟨_, rfl, valid_at connected whole (.inl ⟨⟨rfl, flies.2⟩, one⟩) fun _ => .inl ?_⟩
      exact one.symm ▸ Nat.one_pos

/-- While a message waits, each step of a handler comes closer to an empty queue. -/
theorem TcpWriter.Valid.ioStep_closer (valid : s.Valid) (connected : s.state = .connected)
    (left : s.outQueue ≠ []) (busy : s.io ≠ .idle) :
    ∃ next, s.ioStep = .ok next ∧ next.state = .connected ∧ next.pushed = s.pushed ∧
      next.distance < s.distance := by
  obtain ⟨done, -, chained⟩ := valid.chained
  obtain ⟨b, rest, queue⟩ := List.exists_cons_of_ne_nil left
  have some? : s.outQueue.isEmpty = false := by rw [queue]; rfl
  have alive : s.state ≠ .disconnected := by rw [connected]; decide
  unfold TcpWriter.Chained at chained
  unfold TcpWriter.ioStep
  cases io : s.io with
  | idle => exact absurd io busy
  | accepted =>
      refine ⟨_, rfl, rfl, rfl, ?_⟩
      simp [TcpWriter.distance, io]
  | connected =>
      refine ⟨_, rfl, connected, rfl, ?_⟩
      simp [TcpWriter.distance, io, some?]
  | doSend force =>
      dsimp only
      rw [if_neg alive, some?, if_neg Bool.false_ne_true]
      refine ⟨_, rfl, connected, rfl, ?_⟩
      cases force <;> simp [TcpWriter.distance, io]
  | tested force =>
      rw [io] at chained
      dsimp only
      cases force with
      | true =>
          refine ⟨_, rfl, connected, rfl, ?_⟩
          simp [TcpWriter.distance, io]
      | false =>
          obtain ⟨⟨flies, one⟩ | rests, -⟩ := chained
          · rw [flies.1]
            refine ⟨_, rfl, connected, rfl, ?_⟩
            simp [TcpWriter.distance, TcpWriter.sendReturns, io, one]
          · rw [rests.1]
            refine ⟨_, rfl, connected, rfl, ?_⟩
            simp [TcpWriter.distance, io]
  | write force =>
      rw [queue]
      refine ⟨_, rfl, connected, rfl, ?_⟩
      cases force <;> simp [TcpWriter.distance, TcpWriter.sendReturns, io, queue]
  | handleWrite =>
      dsimp only
      rw [if_neg alive, queue]
      refine ⟨_, rfl, connected, rfl, ?_⟩
      simp only [TcpWriter.distance, io, queue, List.length_cons]
      omega
  | popped =>
      refine ⟨_, rfl, connected, rfl, ?_⟩
      simp [TcpWriter.distance, io, some?]
  | finish =>
      refine ⟨_, rfl, connected, rfl, ?_⟩
      simp only [TcpWriter.distance, io]
      split <;> omega
  | ensure =>
      rw [io] at chained
      obtain ⟨flies, one⟩ := chained
      dsimp only
      rw [flies.1]
      refine ⟨_, rfl, connected, rfl, ?_⟩
      simp [TcpWriter.distance, io, one]

variable [DecidableEq Thread]

private theorem TcpWriter.Valid.push (valid : s.Valid) (i : Thread) (b : Bytes) :
    (s.push i b).Valid := by
  obtain ⟨done, whole, chained⟩ := valid.chained
  refine ⟨⟨done, ?_, @TcpWriter.Chained.frame _ s _ done chained [b] rfl rfl rfl rfl rfl⟩, fun other => ?_,
    fun _ _ => .inr (.inr (.inl ⟨i, ?_⟩))⟩
  · change s.pushed ++ [b] = done ++ (s.outQueue ++ [b])
    rw [whole, List.append_assoc]
  · obtain ⟨io, writing, posted, stages⟩ := valid.quiet other
    refine ⟨io, writing, posted, fun j => ?_⟩
    change Function.update s.stage i .pushed j ≠ .connected
    rw [Function.update_apply]
    split
    · decide
    · exact stages j
  · change Function.update s.stage i .pushed i ≠ .idle
    rw [Function.update_self]
    decide

private theorem TcpWriter.Valid.test (valid : s.Valid) (i : Thread) : (s.test i).Valid := by
  refine ⟨valid.keeps rfl rfl rfl rfl rfl rfl, fun other => ?_, fun connected _ => ?_⟩
  · obtain ⟨io, writing, posted, stages⟩ := valid.quiet other
    refine ⟨io, writing, posted, fun j => ?_⟩
    change Function.update s.stage i (if s.state = .connected then .connected else .idle) j ≠ _
    rw [Function.update_apply, if_neg (show s.state ≠ .connected from other)]
    split
    · decide
    · exact stages j
  · refine .inr (.inr (.inl ⟨i, ?_⟩))
    change Function.update s.stage i (if s.state = .connected then .connected else .idle) i ≠ _
    rw [Function.update_self, if_pos (show s.state = .connected from connected)]
    decide

private theorem TcpWriter.Valid.post (valid : s.Valid) {i : Thread}
    (stage : s.stage i = .connected) : (s.post i).Valid := by
  refine ⟨valid.keeps rfl rfl rfl rfl rfl rfl, fun other => ?_, fun _ _ => ?_⟩
  · exact absurd stage ((valid.quiet other).2.2.2 i)
  · exact .inr (.inl (Nat.succ_pos _))

end Steps

section Runs

theorem TcpWriter.Chained.flies_or_rests (chained : s.Chained done) :
    (s.Flies done ∧ s.outstanding ≤ 1) ∨ ∃ on, s.Rests done on := by
  have steady : s.Steady done → (s.Flies done ∧ s.outstanding ≤ 1) ∨ ∃ on, s.Rests done on :=
    Or.imp (And.imp id Eq.le) fun rests => ⟨false, rests⟩
  unfold TcpWriter.Chained at chained
  split at chained
  · exact steady chained
  · exact steady chained
  · exact steady chained
  · exact steady chained
  · exact steady chained.1
  · exact .inr ⟨_, chained.1⟩
  · exact .inl ⟨chained.1, chained.2.le.trans (Nat.zero_le _)⟩
  · exact .inr ⟨_, chained⟩
  · exact .inr ⟨_, chained⟩
  · exact .inr ⟨_, chained.1⟩
  · exact .inr ⟨_, chained.1⟩
  · exact .inr ⟨_, chained.1⟩
  · exact .inl ⟨chained.1, chained.2.le⟩

/-- What is written are the messages that were pushed, up to the one that waits
after the last. -/
theorem TcpWriter.Valid.sent (valid : s.Valid) :
    ∃ sent, s.written = sent.map encodeTcpWire ∧ sent <+: s.pushed ∧
      (s.outQueue = [] → sent = s.pushed) := by
  obtain ⟨done, whole, chained⟩ := valid.chained
  rcases chained.flies_or_rests with ⟨⟨-, b, rest, queue, written⟩, -⟩ | ⟨on, -, -, written⟩
  · refine ⟨done ++ [b], written, ⟨rest, ?_⟩, fun none? => ?_⟩
    · rw [whole, queue, List.append_assoc, List.singleton_append]
    · rw [queue] at none?
      cases none?
  · refine ⟨done, written, ⟨s.outQueue, whole.symm⟩, fun none? => ?_⟩
    rw [whole, none?, List.append_nil]

private theorem TcpWriter.Valid.new (con : Bool) : (TcpWriter.new con : TcpWriter Thread).Valid :=
  ⟨⟨[], rfl, .inr ⟨rfl, rfl, rfl⟩⟩, fun _ => ⟨.inl rfl, rfl, rfl, by simp [TcpWriter.new]⟩,
    fun _ some? => absurd rfl some?⟩

variable [DecidableEq Thread]

theorem TcpWriter.Valid.step (valid : s.Valid) {event : SendingEvent Thread}
    (step : SendingStep s event next) : next.Valid := by
  cases step with
  | push => exact valid.push _ _
  | test => exact valid.test _
  | post stage => exact valid.post stage
  | connect => exact valid.connect
  | close other => exact valid.close other
  | handleConnect idle => exact valid.handleConnect idle _
  | runPosted idle posted => exact valid.runPosted idle posted
  | wrote idle outstanding => exact valid.wrote idle outstanding
  | ioStep _ success =>
      obtain ⟨last, taken, kept⟩ := valid.ioStep
      cases taken.symm.trans success
      exact kept

theorem TcpWriter.Valid.run (valid : s.Valid) {events : List (SendingEvent Thread)}
    (run : Run (fun first => first = s) SendingStep events next) : next.Valid := by
  refine run.invariant (fun _ next => next.Valid) ?_ ?_
  · intro first same
    cases same
    exact valid
  · intro _ _ _ _ _ valid step
    exact valid.step step

/-- Steps that carry on lead from the first state to the second, and push nothing. -/
structure TcpWriter.CarriedOn (s next : TcpWriter Thread) : Prop where
  run : ∃ events, (∀ event ∈ events, event.CarriesOn) ∧
    Run (fun first => first = s) SendingStep events next
  connected : next.state = .connected
  pushed : next.pushed = s.pushed

theorem TcpWriter.CarriedOn.refl (connected : s.state = .connected) : s.CarriedOn s :=
  ⟨⟨[], nofun, .start rfl⟩, connected, rfl⟩

theorem TcpWriter.CarriedOn.step (carried : s.CarriedOn next) {event : SendingEvent Thread}
    {last : TcpWriter Thread} (step : SendingStep next event last) (carries : event.CarriesOn)
    (connected : last.state = .connected) (pushed : last.pushed = next.pushed) :
    s.CarriedOn last := by
  obtain ⟨⟨events, all, run⟩, -, same⟩ := carried
  refine ⟨⟨events ++ [event], ?_, run.step step⟩, connected, pushed.trans same⟩
  intro other member
  rcases List.mem_append.mp member with earlier | added
  · exact all other earlier
  · cases List.mem_singleton.mp added
    exact carries

theorem TcpWriter.CarriedOn.trans {last : TcpWriter Thread} (carried : s.CarriedOn next)
    (further : next.CarriedOn last) : s.CarriedOn last := by
  obtain ⟨⟨events, all, run⟩, -, same⟩ := carried
  obtain ⟨⟨more, others, rest⟩, connected, pushed⟩ := further
  refine ⟨⟨events ++ more, ?_, run.trans rest⟩, connected, pushed.trans same⟩
  intro event member
  exact (List.mem_append.mp member).elim (all event) (others event)

/-- A message that waits comes closer to being written: the handler that runs goes
on, the outstanding write ends, a posted `do_send` begins, or the thread that has
still to post one does. -/
theorem TcpWriter.Valid.closer (valid : s.Valid) (connected : s.state = .connected)
    (left : s.outQueue ≠ []) : ∃ next, s.CarriedOn next ∧ next.distance < s.distance := by
  have here := TcpWriter.CarriedOn.refl connected
  by_cases busy : s.io = .idle
  · by_cases none? : s.outstanding = 0
    · have posts : ∀ {t : TcpWriter Thread}, s.CarriedOn t → t.io = .idle → 0 < t.posted →
          t.outQueue = s.outQueue → ∃ next, s.CarriedOn next ∧ next.distance < s.distance := by
        intro t carried idle posted queue
        refine ⟨t.runPosted, carried.step (.runPosted idle posted) trivial carried.connected rfl, ?_⟩
        simp [TcpWriter.distance, TcpWriter.runPosted, busy, none?, queue]
      have tested : ∀ {t : TcpWriter Thread} (i : Thread), s.CarriedOn t → t.io = .idle →
          t.stage i = .connected → t.outQueue = s.outQueue →
          ∃ next, s.CarriedOn next ∧ next.distance < s.distance := by
        intro t i carried idle stage queue
        exact posts (carried.step (.post stage) trivial carried.connected rfl) idle
          (Nat.succ_pos _) queue
      rcases valid.awake connected left with some? | posted | ⟨i, active⟩ | io
      · exact absurd none? some?.ne'
      · exact posts here busy posted rfl
      · cases stage : s.stage i with
        | idle => exact absurd stage active
        | pushed =>
            refine tested i (here.step (.test stage) trivial connected rfl) busy ?_ rfl
            simp [TcpWriter.test, TcpWriter.moved, connected]
        | connected => exact tested i here busy stage rfl
      · rw [busy] at io
        exact io.elim
    · refine ⟨s.wrote, here.step (.wrote busy (Nat.pos_of_ne_zero none?)) trivial connected rfl, ?_⟩
      simp [TcpWriter.distance, TcpWriter.wrote, busy, none?]
  · obtain ⟨next, success, still, pushed, closer⟩ := valid.ioStep_closer connected left busy
    exact ⟨next, here.step (.ioStep busy success) trivial still pushed, closer⟩

/-- The messages that wait are written in finitely many steps. -/
theorem TcpWriter.Valid.drains (valid : s.Valid) (connected : s.state = .connected) :
    ∃ next, s.CarriedOn next ∧ next.outQueue = [] := by
  induction far : s.distance using Nat.strong_induction_on generalizing s with
  | _ far ih =>
      by_cases left : s.outQueue = []
      · exact ⟨s, .refl connected, left⟩
      · obtain ⟨between, carried, closer⟩ := valid.closer connected left
        obtain ⟨events, -, run⟩ := carried.run
        obtain ⟨next, further, empty⟩ :=
          ih _ (far ▸ closer) (valid.run run) carried.connected rfl
        exact ⟨next, carried.trans further, empty⟩

/-- In every run at most one write is outstanding, the messages are written in
the order they were pushed, each once, no handler meets a fault, and a message
that waits in the queue of a connected connection will be written: the io thread
and the threads that have pushed need finitely many steps to empty the queue, and
then all messages are written. -/
theorem write_chain {events : List (SendingEvent Thread)} (run : SendingRun events s) :
    s.outstanding ≤ 1 ∧
      (∃ sent, s.written = sent.map encodeTcpWire ∧ sent <+: s.pushed ∧
        (s.outQueue = [] → sent = s.pushed)) ∧
      (∃ next, s.ioStep = .ok next) ∧
      (s.state = .connected → s.outQueue ≠ [] → s.Awake) ∧
      (s.state = .connected → ∃ more next, (∀ event ∈ more, event.CarriesOn) ∧
        Run (fun first => first = s) SendingStep more next ∧
        next.outQueue = [] ∧ next.written = s.pushed.map encodeTcpWire) := by
  have valid : s.Valid := run.invariant (fun _ s => s.Valid)
    (fun s started => by obtain ⟨con, rfl⟩ := started; exact .new con)
    fun _ _ _ _ _ valid step => valid.step step
  obtain ⟨done, -, chained⟩ := valid.chained
  obtain ⟨next, taken, -⟩ := valid.ioStep
  refine ⟨?_, valid.sent, ⟨next, taken⟩, valid.awake, fun connected => ?_⟩
  · rcases chained.flies_or_rests with ⟨-, one⟩ | ⟨on, -, none?, -⟩
    · exact one
    · exact none?.le.trans (Nat.zero_le _)
  · obtain ⟨last, carried, empty⟩ := valid.drains connected
    obtain ⟨more, all, rest⟩ := carried.run
    obtain ⟨sent, written, -, whole⟩ := (valid.run rest).sent
    refine ⟨more, last, all, rest, empty, ?_⟩
    rw [written, whole empty, carried.pushed]

section Written

/-- An accepted connection after two threads have pushed a message each. -/
def bothPushed : TcpWriter Bool :=
  ((TcpWriter.new true).push false (ascii "hi")).push true (ascii "ho")

/-- The io thread has taken the `do_send` that the first thread has posted. -/
def hiTaken : TcpWriter Bool := ((bothPushed.test false).post false).runPosted

/-- The io thread has written the first message. -/
def hiWritten : TcpWriter Bool :=
  { hiTaken with
    io := .idle
    writing := true
    outBuffer := encodeTcpWire (ascii "hi")
    written := [encodeTcpWire (ascii "hi")]
    outstanding := 1 }

theorem hiWritten_run : SendingRun
    [.push false (ascii "hi"), .push true (ascii "ho"), .test false, .post false, .runPosted,
      .ioStep, .ioStep, .ioStep] hiWritten := by
  have first : SendingRun [.push false (ascii "hi")] _ := .single ⟨true, rfl⟩ (.push rfl)
  have pushed : SendingRun [.push false (ascii "hi"), .push true (ascii "ho")] bothPushed :=
    first.step (.push (by decide))
  have taken : SendingRun [.push false (ascii "hi"), .push true (ascii "ho"), .test false,
      .post false, .runPosted] hiTaken :=
    ((pushed.step (.test (by decide))).step (.post (by decide))).step
      (.runPosted rfl (by decide))
  exact ((taken.step (.ioStep (by decide) rfl)).step (.ioStep (by decide) rfl)).step
    (.ioStep (by decide) rfl)

/-- The message of the thread that has not posted is written too. -/
theorem write_chain_hi : hiWritten.outstanding ≤ 1 ∧ hiWritten.Awake ∧
    ∃ more next, (∀ event ∈ more, event.CarriesOn) ∧
      Run (fun first => first = hiWritten) SendingStep more next ∧ next.outQueue = [] ∧
      next.written = [encodeTcpWire (ascii "hi"), encodeTcpWire (ascii "ho")] := by
  obtain ⟨one, -, -, awake, drains⟩ := write_chain hiWritten_run
  exact ⟨one, awake rfl (by decide), drains rfl⟩

end Written

end Runs

end Firestr.Network
