import Firestr.Network.UdpOnce

/-! One connection that receives from many peers. Every peer numbers its own
messages from one, and the connection looks an entry up by number alone. -/

set_option autoImplicit false

namespace Firestr.Network

open Firestr.Util Firestr.Library.Blocks Firestr.Library.BitSet Firestr.Library.Runs

variable {Address : Type} (ip : IpAddresses Address)

/-- A datagram of a message that `send` accepts, under a sequence number: a
chunk that `nth_chunk` cuts, as `encode_udp_wire` writes it. -/
def CutFrom (m : EndpointMessage) (sequence : UInt64) (datagram : Bytes) : Prop :=
  UdpConnection.accepts m = true ∧ ∃ proto n ch buffer, createPrototype sequence m = .ok proto ∧
    nthChunk n proto m.data = .ok ch ∧ encodeUdpWire buffer ch = .ok datagram

theorem piece_of_cutFrom {m : EndpointMessage} {sequence : UInt64} {datagram : Bytes}
    (cut : CutFrom m sequence datagram) :
    ∃ c, Arrives datagram c ∧ datagram.length ≤ maxUdpBuffSize ∧ c.sequence = sequence ∧
      c.type ≠ .ack ∧ Piece m.data c := by
  obtain ⟨accepted, proto, n, ch, buffer, created, chunk, encoded⟩ := cut
  simp only [UdpConnection.accepts, Bool.and_eq_true, decide_eq_true_eq] at accepted
  obtain ⟨total, counted, -⟩ := bind_ok created
  obtain ⟨nonempty, counted⟩ := counted_of_totalChunks accepted.2 counted
  cases (createPrototype_eq sequence nonempty counted).symm.trans created
  have totals := toNat_totalChunks_prototypeOf sequence counted
  obtain ⟨_, required, -⟩ := bind_ok chunk
  have inside : n < (prototypeOf sequence m).totalChunks.toNat :=
    of_decide_eq_true (require_ok_iff.mp required)
  cases (nthChunk_eq totals inside).symm.trans chunk
  have fits := chunkOf_fits n (prototypeOf sequence m) m.data
  cases (encodeUdpWire_eq buffer (by omega)).symm.trans encoded
  have number : (UInt16.ofNat n).toNat = n :=
    UInt16.toNat_ofNat_of_lt' (lt_trans inside (prototypeOf sequence m).totalChunks.toNat_lt)
  refine ⟨_, arrives_wire fits, by rw [length_wire]; exact fits, rfl,
    prototypeOf_type_ne_ack sequence, counted, totals, ?_, ?_⟩
  · change (UInt16.ofNat n).toNat < _
    rw [number, ← totals]
    exact inside
  · change block udpChunkSize m.data n = block udpChunkSize m.data (UInt16.ofNat n).toNat
    rw [number]

abbrev Peer (Address : Type) := Address × UInt16

/-- A receiver, and the peer whose chunk began each of its entries. -/
structure Shared (Address : Type) where
  connection : UdpConnection Address := {}
  owner : UInt64 → Option (Peer Address) := fun _ => none

/-- The owners after `source` sent the chunk `c`. -/
def Shared.begin (s : Shared Address) (source : Peer Address) (c : MessageChunk) :
    UInt64 → Option (Peer Address) :=
  if (s.connection.inWorking c.sequence).isNone then
    Function.update s.owner c.sequence (some source)
  else s.owner

/-- A step of the receiver: a data chunk from a peer, or anything else that
carries no data chunk. -/
inductive SharedStep (sent : Peer Address → List EndpointMessage)
    (condition : Shared Address → Peer Address → MessageChunk → Prop) :
    Shared Address → Handler Address → Shared Address → Prop where
  | chunk {s : Shared Address} {source : Peer Address} {datagram : Bytes} {m : EndpointMessage}
      {sequence : UInt64} {c : MessageChunk} {next : UdpConnection Address} :
      numbered (sent source) sequence = some m → CutFrom m sequence datagram →
      Arrives datagram c → condition s source c →
      s.connection.handleRead ip source datagram = .ok next →
      SharedStep sent condition s (.handleRead source datagram)
        { connection := next, owner := s.begin source c }
  | other {s : Shared Address} {handler : Handler Address} {next : UdpConnection Address} :
      handler.Allowed ip s.connection →
      (∀ source datagram c, handler = .handleRead source datagram → Arrives datagram c →
        c.type = .ack) →
      handler.run ip s.connection = .ok next →
      SharedStep sent condition s handler { s with connection := next }

abbrev SharedRun (sent : Peer Address → List EndpointMessage)
    (condition : Shared Address → Peer Address → MessageChunk → Prop) :
    List (Handler Address) → Shared Address → Prop :=
  Run (fun s => s = {}) (SharedStep ip sent condition)

/-- An entry that would take the chunk was begun by the same peer. -/
def Unmixed (s : Shared Address) (source : Peer Address) (c : MessageChunk) : Prop :=
  ∀ wm, s.connection.inWorking c.sequence = some wm → wm.takes c = true →
    s.owner c.sequence = some source

/-- Every entry gathers one message of its owner, and what is pushed is a
message of the peer it names. -/
structure PeersInvariant (sent : Peer Address → List EndpointMessage) (s : Shared Address) :
    Prop where
  base : ∃ log, SenderBase ip log s.connection
  owned : ∀ sequence wm, s.connection.inWorking sequence = some wm →
    ∃ peer m, s.owner sequence = some peer ∧ numbered (sent peer) sequence = some m ∧
      Gathering m.data wm
  pushed : ∀ em ∈ s.connection.inQueue, ∃ peer, ∃ m ∈ sent peer,
    em.ep = sourceEndpoint ip peer ∧ em.data = m.data

section Peers

variable {ip} {sent : Peer Address → List EndpointMessage} {s next : Shared Address}

theorem Gathering.total_ne_zero {data : Bytes} {wm : WorkingMessage}
    (gathering : Gathering data wm) : wm.proto.totalChunks.toNat ≠ 0 := by
  intro none?
  have noBits : wm.set = [] := by
    rw [← List.length_eq_zero_iff, gathering.setLength, ← gathering.total, none?]
  have incomplete := gathering.incomplete
  rw [WorkingMessage.complete, noBits, none?] at incomplete
  cases incomplete

theorem insertion_refused {c : MessageChunk} {w : WorkingMessages} {wm : WorkingMessage}
    (some? : c.totalChunks.toNat ≠ 0) (working : w c.sequence = some wm)
    (counted : wm.proto.totalChunks.toNat ≠ 0) (refused : ¬ wm.takes c = true) :
    insertion c w = (false, w.put c.sequence wm, []) := by
  have entry : entryFor c w = wm := by
    rw [entryFor, working, Option.getD_some, if_neg counted]
  rw [insertion, if_neg some?, entry, if_neg refused]

private theorem begin_of_ne {source : Peer Address} {c : MessageChunk} {other : UInt64}
    (different : other ≠ c.sequence) : s.begin source c other = s.owner other := by
  rw [Shared.begin]
  split
  · exact Function.update_of_ne different ..
  · rfl

private theorem PeersInvariant.insertion (invariant : PeersInvariant ip sent s)
    {source : Peer Address} {m : EndpointMessage} {c : MessageChunk}
    (entry : numbered (sent source) c.sequence = some m) (piece : Piece m.data c)
    (unmixed : Unmixed s source c) :
    (∃ wm peer other, insertion c s.connection.inWorking =
        (false, s.connection.inWorking.put c.sequence wm, []) ∧
      s.begin source c c.sequence = some peer ∧
      numbered (sent peer) c.sequence = some other ∧ Gathering other.data wm) ∨
    insertion c s.connection.inWorking =
      (true, s.connection.inWorking.erase c.sequence, m.data) := by
  cases working : s.connection.inWorking c.sequence with
  | none =>
      have began : s.begin source c c.sequence = some source := by
        rw [Shared.begin, working, Option.isNone_none, if_pos rfl, Function.update_self]
      rcases insertion_piece (w := s.connection.inWorking) piece (by simp [working]) with
        ⟨wm, taken, gathering, -⟩ | ⟨taken, -⟩
      · exact .inl ⟨wm, source, m, taken, began, entry, gathering⟩
      · exact .inr taken
  | some found =>
      obtain ⟨peer, other, owned, named, gathering⟩ := invariant.owned _ found working
      have kept : s.begin source c c.sequence = s.owner c.sequence := by
        rw [Shared.begin, working]
        rfl
      by_cases takes : found.takes c = true
      · have owner := unmixed found working takes
        cases owned.symm.trans owner
        cases entry.symm.trans named
        rcases insertion_piece (w := s.connection.inWorking) piece (fun wm known => by
          cases working.symm.trans known
          exact gathering) with ⟨wm, taken, gathering, -⟩ | ⟨taken, -⟩
        · exact .inl ⟨wm, source, m, taken, kept.trans owner, entry, gathering⟩
        · exact .inr taken
      · have counted := gathering.total_ne_zero
        refine .inl ⟨found, peer, other, ?_, kept.trans owned, named, gathering⟩
        refine insertion_refused ?_ working counted takes
        rw [piece.total]
        exact Nat.ne_of_gt (blockCount_pos udpChunkSize_pos piece.nonempty)

private theorem PeersInvariant.chunk (invariant : PeersInvariant ip sent s) {source : Peer Address}
    {m : EndpointMessage} {c : MessageChunk}
    (entry : numbered (sent source) c.sequence = some m) (piece : Piece m.data c)
    (unmixed : Unmixed s source c) :
    PeersInvariant ip sent
      { connection := s.connection.takeChunk (sourceEndpoint ip source) c
        owner := s.begin source c } := by
  obtain ⟨log, base⟩ := invariant.base
  have others : ∀ {sequence wm}, sequence ≠ c.sequence →
      s.connection.inWorking sequence = some wm →
      ∃ peer m, s.begin source c sequence = some peer ∧ numbered (sent peer) sequence = some m ∧
        Gathering m.data wm := by
    intro sequence wm different working
    rw [begin_of_ne different]
    exact invariant.owned sequence wm working
  rcases invariant.insertion entry piece unmixed with
    ⟨wm, peer, other, taken, owned, named, gathering⟩ | taken
  · have entries : (s.connection.takeChunk (sourceEndpoint ip source) c).inWorking =
        s.connection.inWorking.put c.sequence wm := by
      rw [UdpConnection.takeChunk, taken]
    have queue : (s.connection.takeChunk (sourceEndpoint ip source) c).inQueue =
        s.connection.inQueue := by
      rw [UdpConnection.takeChunk, taken]
      rfl
    refine ⟨⟨log, base.takeChunk source c⟩, fun sequence found working => ?_, fun em member => ?_⟩
    · rw [entries] at working
      rcases (WorkingMessages.put_eq_some ..).mp working with ⟨rfl, rfl⟩ | ⟨different, working⟩
      · exact ⟨peer, other, owned, named, gathering⟩
      · exact others different working
    · rw [queue] at member
      exact invariant.pushed em member
  · have entries : (s.connection.takeChunk (sourceEndpoint ip source) c).inWorking =
        s.connection.inWorking.erase c.sequence := by
      rw [UdpConnection.takeChunk, taken]
    have queue : (s.connection.takeChunk (sourceEndpoint ip source) c).inQueue =
        s.connection.inQueue ++
          [{ ep := sourceEndpoint ip source, data := m.data, robust := c.type == .msg }] := by
      rw [UdpConnection.takeChunk, taken]
      rfl
    refine ⟨⟨log, base.takeChunk source c⟩, fun sequence found working => ?_, fun em member => ?_⟩
    · rw [entries] at working
      obtain ⟨different, working⟩ := (WorkingMessages.erase_eq_some ..).mp working
      exact others different working
    · rw [queue] at member
      rcases List.mem_append.mp member with earlier | last
      · exact invariant.pushed em earlier
      · rw [List.mem_singleton.mp last]
        exact ⟨source, m, numbered_mem entry, rfl, rfl⟩

theorem PeersInvariant.start : PeersInvariant ip sent {} where
  base := ⟨[], .start⟩
  owned _ _ working := by cases working
  pushed _ member := by cases member

theorem PeersInvariant.step (invariant : PeersInvariant ip sent s) {handler : Handler Address}
    (step : SharedStep ip sent Unmixed s handler next) : PeersInvariant ip sent next := by
  cases step with
  | @chunk source datagram m sequence c after entry cut arrives unmixed success =>
      obtain ⟨other, again, small, rfl, data?, piece⟩ := piece_of_cutFrom cut
      cases arrives.unique again
      cases (handleRead_data small arrives data?).symm.trans success
      exact invariant.chunk entry piece unmixed
  | other allowed acks success =>
      obtain ⟨log, base⟩ := invariant.base
      have stepped := handlerStep_of_run base _ allowed success
      rcases receiving_step stepped with ⟨-, entries, queue⟩ | ⟨c, ep, read, -⟩
      · refine ⟨⟨_, base.step _ allowed stepped⟩, ?_, ?_⟩
        · rw [entries]
          exact invariant.owned
        · rw [queue]
          exact invariant.pushed
      · obtain ⟨source, datagram, here, arrives, data?⟩ := dataRead_eq_some.mp read
        exact absurd (acks source datagram c here arrives) data?

/-- As long as no chunk joins a message that another peer began, every message
that is pushed is one its peer sent. -/
theorem unmixed_messages_pushed {handlers : List (Handler Address)}
    (run : SharedRun ip sent Unmixed handlers s) :
    ∀ em ∈ s.connection.inQueue, ∃ peer, ∃ m ∈ sent peer,
      em.ep = sourceEndpoint ip peer ∧ em.data = m.data := by
  have invariant : PeersInvariant ip sent s := by
    induction run with
    | start started => exact started ▸ .start
    | step _ stepped ih => exact ih.step stepped
  exact invariant.pushed

end Peers

section TwoHosts

def twoHosts : IpAddresses Bool where
  fromString text :=
    if text = "10.0.0.1" then some false else if text = "10.0.0.2" then some true else none
  toString host := if host then "10.0.0.2" else "10.0.0.1"
  fromString_toString host := by cases host <;> simp

def filledMessage (byte : UInt8) : EndpointMessage :=
  { ep := { protocol := udp, address := "10.0.0.3", port := 6060 }
    data := List.replicate 500 byte
    robust := true }

theorem length_filledMessage (byte : UInt8) : (filledMessage byte).data.length = 500 :=
  List.length_replicate

def hostByte (host : Bool) : UInt8 := if host then 1 else 0

def firstMessages (peer : Peer Bool) : List EndpointMessage := [filledMessage (hostByte peer.1)]

/-- The chunk `n` of the message of a host. -/
def firstChunk (host : Bool) (n : Nat) : MessageChunk :=
  chunkOf n (prototypeOf 1 (filledMessage (hostByte host))) (filledMessage (hostByte host)).data

private theorem firstChunk_step {condition : Shared Bool → Peer Bool → MessageChunk → Prop}
    (s : Shared Bool) (host : Bool) {n : Nat} (inside : n < 2)
    (met : condition s (host, 6060) (received (firstChunk host n))) :
    SharedStep twoHosts firstMessages condition s
      (.handleRead (host, 6060) (wire (firstChunk host n)))
      { connection := s.connection.takeChunk (sourceEndpoint twoHosts (host, 6060))
          (received (firstChunk host n))
        owner := s.begin (host, 6060) (received (firstChunk host n)) } := by
  have length := length_filledMessage (hostByte host)
  have nonempty : 0 < (filledMessage (hostByte host)).data.length := by omega
  have counted : (filledMessage (hostByte host)).data.length ≤ maxCountedSize := by
    rw [length]
    decide
  have accepted : UdpConnection.accepts (filledMessage (hostByte host)) = true := by
    rw [UdpConnection.accepts, length]
    rfl
  have total := toNat_totalChunks_prototypeOf 1 counted
  have chunks : (prototypeOf 1 (filledMessage (hostByte host))).totalChunks.toNat = 2 := by
    rw [total, length]
    rfl
  have fits := chunkOf_fits n (prototypeOf 1 (filledMessage (hostByte host)))
    (filledMessage (hostByte host)).data
  have arrives : Arrives (wire (firstChunk host n)) (received (firstChunk host n)) :=
    arrives_wire fits
  have encoded : encodeUdpWire [] (firstChunk host n) = .ok (wire (firstChunk host n)) :=
    encodeUdpWire_eq [] (le_trans (Nat.le_add_left ..) fits)
  refine .chunk (m := filledMessage (hostByte host)) rfl
    ⟨accepted, _, n, _, [], createPrototype_eq 1 nonempty counted,
      nthChunk_eq total (chunks ▸ inside), encoded⟩ arrives met (handleRead_data ?_ arrives (ne_of_beq_false rfl))
  rw [length_wire]
  exact fits

/-- Both chunks of a message from one host. -/
theorem unmixed_messages_first : ∃ s : Shared Bool, s.connection.inQueue.length = 1 ∧
    ∀ em ∈ s.connection.inQueue, ∃ peer, ∃ m ∈ firstMessages peer,
      em.ep = sourceEndpoint twoHosts peer ∧ em.data = m.data := by
  have first : SharedRun twoHosts firstMessages Unmixed [_] _ :=
    .single rfl (firstChunk_step {} false (n := 0) (by decide) nofun)
  have second := first.step (firstChunk_step _ false (n := 1) (by decide) fun _ _ _ => rfl)
  exact ⟨_, by decide +kernel, unmixed_messages_pushed second⟩

/-- The first chunk of one host and the second of the other make a message
that neither has sent. -/
theorem mixed_message_pushed : ∃ handlers s,
    SharedRun twoHosts firstMessages (fun _ _ _ => True) handlers s ∧
    ∃ em ∈ s.connection.inQueue, ∀ peer, ∀ m ∈ firstMessages peer, em.data ≠ m.data := by
  have first : SharedRun twoHosts firstMessages (fun _ _ _ => True) [_] _ :=
    .single rfl (firstChunk_step {} false (n := 0) (by decide) trivial)
  have second := first.step (firstChunk_step _ true (n := 1) (by decide) trivial)
  refine ⟨_, _, second, ⟨sourceEndpoint twoHosts (true, 6060),
    List.replicate 499 0 ++ [1], true⟩, by decide +kernel, ?_⟩
  have neither : ∀ host, List.replicate 499 0 ++ [1] ≠ (filledMessage (hostByte host)).data := by
    decide +kernel
  intro peer m member
  rw [List.mem_singleton.mp member]
  exact neither peer.1

end TwoHosts

end Firestr.Network
