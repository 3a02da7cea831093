import Firestr.Network.UdpSenderBase

/-! A resend tick: every working message ages by one tick, the chunks of the
old ones that no ack has confirmed are queued again, and the exhausted
messages are removed. -/

set_option autoImplicit false

namespace Firestr.Network

open Firestr.Util Firestr.Library.Blocks

variable {Address : Type} {ip : IpAddresses Address} {log : List EndpointMessage}
  {s : UdpConnection Address}

def WorkingMessage.tick (wm : WorkingMessage) : WorkingMessage :=
  { wm with ticks := wm.ticks + 1 }

/-- Whether a tick that leaves `wm` purges it. -/
def WorkingMessage.exhausted (wm : WorkingMessage) : Bool :=
  if wm.robust then decide (wm.ticks ≥ resendThreshold) else allSent wm

/-- The chunks that a tick which leaves `wm` queues again. -/
def WorkingMessage.dropped (wm : WorkingMessage) : List UInt16 :=
  if wm.robust && !decide (wm.ticks ≤ resendTickThreshold) &&
      decide (wm.set.count true ≠ wm.proto.totalChunks.toNat) then
    (resendChunks wm (List.range wm.proto.totalChunks.toNat) 0 0 []).2
  else []

section Dropped

variable {wm : WorkingMessage}

private theorem mem_resendChunks {id : UInt16} (chunks : List Nat) (cnt resentM : Nat)
    (ids : List UInt16) (member : id ∈ (resendChunks wm chunks cnt resentM ids).2) :
    id ∈ ids ∨ ∃ c ∈ chunks, id = UInt16.ofNat c ∧ wm.sent.getD c false = true := by
  induction chunks generalizing cnt resentM ids with
  | nil => exact .inl member
  | cons c rest ih =>
      have later : (∃ c ∈ rest, id = UInt16.ofNat c ∧ wm.sent.getD c false = true) →
          ∃ other ∈ c :: rest, id = UInt16.ofNat other ∧ wm.sent.getD other false = true :=
        fun ⟨other, inRest, same⟩ => ⟨other, .tail _ inRest, same⟩
      simp only [resendChunks] at member
      split at member
      · exact .inl member
      · split at member
        · exact (ih _ _ _ member).imp_right later
        · rename_i wanted
          split at member
          · exact .inl member
          · rcases ih _ _ _ member with earlier | inRest
            · rcases List.mem_append.mp earlier with earlier | here
              · exact .inl earlier
              · refine .inr ⟨c, List.mem_cons_self, by simpa using here, ?_⟩
                simp only [Bool.or_eq_true, Bool.not_eq_true', not_or] at wanted
                exact Bool.not_eq_false _ |>.mp wanted.2
            · exact .inr (later inRest)

theorem toNat_lt_of_mem_dropped {m : EndpointMessage} {sequence : UInt64}
    (sending : Sending m sequence wm) (sendable : Sendable ip m) {id : UInt16}
    (member : id ∈ wm.tick.dropped) : id.toNat < wm.nextSend := by
  rw [WorkingMessage.dropped] at member
  split at member
  · rcases mem_resendChunks _ _ _ _ member with impossible | ⟨c, -, rfl, sent⟩
    · cases impossible
    · have below : c < wm.nextSend := by
        rw [show wm.tick.sent = wm.sent from rfl, sending.sent, getD_sentBits] at sent
        exact of_decide_eq_true sent
      have bounded := lt_of_lt_of_le below sending.bounded
      rwa [UInt16.toNat_ofNat_of_lt' (lt_trans bounded (chunkCount_lt sendable.counted))]
  · cases member

end Dropped

/-- The ring item after a tick, before the exhausted messages are removed. -/
def resentItem (w : WorkingMessages) (r : MessageRingItem) : MessageRingItem :=
  { r with resends := r.resends ++ (w r.wm).elim [] fun wm => wm.tick.dropped }

theorem queueResends_eq (r : MessageRingItem) (ids : List UInt16) :
    s.queueResends r ids = ({ r with resends := r.resends ++ ids },
      { s with posted := s.posted ++ List.replicate ids.length .doSend }) := by
  induction ids generalizing s r with
  | nil => simp [UdpConnection.queueResends]
  | cons nth rest ih =>
      simp [UdpConnection.queueResends, UdpConnection.queueResend, UdpConnection.postSend, ih,
        List.replicate_succ]

/-- What the loop needs of the items it visits. -/
structure Pointed (w : WorkingMessages) (r : MessageRingItem) (wm : WorkingMessage) : Prop where
  working : w r.wm = some wm
  named : wm.proto.sequence = r.wm
  counted : 0 < wm.proto.totalChunks.toNat
  nonempty : 0 < wm.data.length

private theorem resendItem_eq (r : MessageRingItem) (wm : WorkingMessage)
    (working : s.outWorking r.wm = some wm) (counted : 0 < wm.proto.totalChunks.toNat)
    (nonempty : 0 < wm.data.length) :
    ∃ resentM, (if wm.robust && !decide (wm.ticks ≤ resendTickThreshold) then s.resendItem r
        else pure (0, r, s)) =
      .ok (resentM, { r with resends := r.resends ++ wm.dropped },
        { s with posted := s.posted ++ List.replicate wm.dropped.length .doSend }) := by
  by_cases old : (wm.robust && !decide (wm.ticks ≤ resendTickThreshold)) = true
  · by_cases complete : wm.set.count true = wm.proto.totalChunks.toNat
    · refine ⟨0, ?_⟩
      simp [old, UdpConnection.resendItem, UdpConnection.deref, working, counted, nonempty,
        complete, WorkingMessage.dropped]
    · refine ⟨(resendChunks wm (List.range wm.proto.totalChunks.toNat) 0 0 []).1, ?_⟩
      have dropped : wm.dropped =
          (resendChunks wm (List.range wm.proto.totalChunks.toNat) 0 0 []).2 := by
        rw [WorkingMessage.dropped, old, Bool.true_and, decide_eq_true complete, if_pos rfl]
      rw [if_pos old, dropped]
      simp [UdpConnection.resendItem, UdpConnection.deref, working, counted, nonempty, complete,
        queueResends_eq]
  · refine ⟨0, ?_⟩
    have dropped : wm.dropped = [] := by
      rw [WorkingMessage.dropped, Bool.not_eq_true _ |>.mp old]
      rfl
    simp [old, dropped]

private theorem resendLoop_unfolded {r : MessageRingItem} {wm : WorkingMessage}
    (pointed : Pointed s.outWorking r wm) (rest : List MessageRingItem) :
    s.resendLoop (r :: rest) = (do
      let ticked := { s with outWorking := s.outWorking.put r.wm wm.tick }
      let (resentM, r, next) ← (if wm.tick.robust && !decide (wm.tick.ticks ≤ resendTickThreshold)
        then ticked.resendItem r else pure (0, r, ticked))
      let (ring, resent, em, next) ← next.resendLoop rest
      pure (r :: ring, decide (resentM > 0) || resent,
        if wm.tick.exhausted then wm.proto.sequence :: em else em, next)) := by
  rw [UdpConnection.resendLoop, UdpConnection.deref, pointed.working]
  simp only [ok_bind, decide_eq_true (show wm.proto.totalChunks.toNat > 0 from pointed.counted),
    check_true]
  rfl

private theorem resendLoop_cons {r : MessageRingItem} {wm : WorkingMessage}
    (pointed : Pointed s.outWorking r wm) (rest : List MessageRingItem) :
    ∃ some?, s.resendLoop (r :: rest) = (do
      let (ring, resent, em, next) ← UdpConnection.resendLoop
        { s with
          outWorking := s.outWorking.put r.wm wm.tick
          posted := s.posted ++ List.replicate wm.tick.dropped.length .doSend } rest
      pure (resentItem s.outWorking r :: ring, some? || resent,
        if wm.tick.exhausted then r.wm :: em else em, next)) := by
  have unfolded := resendLoop_unfolded pointed rest
  obtain ⟨working, named, counted, nonempty⟩ := pointed
  have item : resentItem s.outWorking r =
      { r with resends := r.resends ++ wm.tick.dropped } := by
    rw [resentItem, working, Option.elim_some]
  obtain ⟨resentM, resent⟩ := resendItem_eq r wm.tick
    (s := { s with outWorking := s.outWorking.put r.wm wm.tick }) (by simp) counted nonempty
  refine ⟨decide (resentM > 0), ?_⟩
  rw [unfolded, item]
  simp only [resent, ok_bind, named]

/-- The working set after the loop has visited the messages `visited`. -/
def tickedIn (w : WorkingMessages) (visited : List UInt64) : WorkingMessages := fun sequence =>
  if sequence ∈ visited then (w sequence).map fun wm => wm.tick else w sequence

theorem tickedIn_of_mem {w : WorkingMessages} {visited : List UInt64} {sequence : UInt64}
    {wm : WorkingMessage} (member : sequence ∈ visited) (working : w sequence = some wm) :
    tickedIn w visited sequence = some wm.tick := by
  rw [tickedIn, if_pos member, working, Option.map_some]

def exhaustedIn (w : WorkingMessages) (sequence : UInt64) : Bool :=
  (w sequence).any fun wm => wm.tick.exhausted

/-- The loop ages every message it visits and posts a `do_send` for every
chunk it queues. -/
private theorem resendLoop_eq (ring : List MessageRingItem)
    (pointed : ∀ r ∈ ring, ∃ wm, Pointed s.outWorking r wm)
    (distinct : (ring.map (·.wm)).Nodup) :
    ∃ resent posts, s.resendLoop ring = .ok
        (ring.map (resentItem s.outWorking), resent,
          (ring.map (·.wm)).filter (exhaustedIn s.outWorking),
          { s with
            outWorking := tickedIn s.outWorking (ring.map (·.wm))
            posted := s.posted ++ List.replicate posts .doSend }) ∧
      (posts = 0 → ∀ r ∈ ring, resentItem s.outWorking r = r) := by
  induction ring generalizing s with
  | nil =>
      refine ⟨false, 0, ?_, by simp⟩
      have same : tickedIn s.outWorking [] = s.outWorking := by
        funext sequence
        simp [tickedIn]
      simp [UdpConnection.resendLoop, same]
  | cons r rest ih =>
      obtain ⟨wm, here⟩ := pointed r List.mem_cons_self
      rw [List.map_cons, List.nodup_cons] at distinct
      obtain ⟨some?, loop⟩ := resendLoop_cons here rest
      have others : ∀ key ∈ rest.map (·.wm),
          s.outWorking.put r.wm wm.tick key = s.outWorking key := by
        intro key inRest
        exact WorkingMessages.put_of_ne _ _ _ fun same => distinct.1 (same ▸ inRest)
      have otherItems : ∀ other ∈ rest,
          s.outWorking.put r.wm wm.tick other.wm = s.outWorking other.wm := fun other inRest =>
        others _ (List.mem_map_of_mem inRest)
      obtain ⟨resent, posts, later, quiet⟩ := ih
        (s := { s with
          outWorking := s.outWorking.put r.wm wm.tick
          posted := s.posted ++ List.replicate wm.tick.dropped.length .doSend })
        (fun other inRest => by
          obtain ⟨found, pointer⟩ := pointed other (.tail _ inRest)
          exact ⟨found, (otherItems other inRest).trans pointer.working, pointer.named,
            pointer.counted, pointer.nonempty⟩)
        distinct.2
      have sameItem : ∀ other ∈ rest, resentItem (s.outWorking.put r.wm wm.tick) other =
          resentItem s.outWorking other := fun other inRest => by
        rw [resentItem, resentItem, otherItems other inRest]
      have items : rest.map (resentItem (s.outWorking.put r.wm wm.tick)) =
          rest.map (resentItem s.outWorking) := List.map_congr_left sameItem
      have exhausted : (rest.map (·.wm)).filter (exhaustedIn (s.outWorking.put r.wm wm.tick)) =
          (rest.map (·.wm)).filter (exhaustedIn s.outWorking) :=
        List.filter_congr fun key inRest => by
          rw [exhaustedIn, exhaustedIn, others key inRest]
      have ticked : tickedIn (s.outWorking.put r.wm wm.tick) (rest.map (·.wm)) =
          tickedIn s.outWorking ((r :: rest).map (·.wm)) := by
        funext key
        rw [tickedIn, tickedIn, List.map_cons]
        by_cases same : key = r.wm
        · subst same
          simp [distinct.1, here.working]
        · by_cases inRest : key ∈ rest.map (·.wm)
          · rw [if_pos inRest, if_pos (.tail _ inRest), others key inRest]
          · rw [if_neg inRest, if_neg (by simp [same, inRest]),
              WorkingMessages.put_of_ne _ _ _ same]
      have first : exhaustedIn s.outWorking r.wm = wm.tick.exhausted := by
        rw [exhaustedIn, here.working, Option.any_some]
      refine ⟨some? || resent, wm.tick.dropped.length + posts, ?_, ?_⟩
      · rw [loop, later]
        simp only [ok_bind, pure_ok, items, exhausted, ticked, List.map_cons, List.filter_cons,
          first, List.append_assoc, List.replicate_append_replicate]
      · intro none?
        have unsent : wm.tick.dropped = [] := List.length_eq_zero_iff.mp (by omega)
        intro other member
        rcases List.mem_cons.mp member with rfl | inRest
        · simp [resentItem, here.working, unsent]
        · exact (sameItem other inRest).symm.trans (quiet (by omega) other inRest)

private theorem foldlM_cleanupMessage (em : List UInt64) (keyed : RingKeyed s)
    (distinct : em.Nodup) (listed : ∀ sequence ∈ em, sequence ∈ s.messageRing.map (·.wm)) :
    em.foldlM UdpConnection.cleanupMessage s = .ok { s with
      messageRing := s.messageRing.filter fun r => decide (r.wm ∉ em)
      outWorking := fun sequence => if sequence ∈ em then none else s.outWorking sequence } := by
  induction em generalizing s with
  | nil => simp
  | cons sequence rest ih =>
      rw [List.nodup_cons] at distinct
      have remaining : ∀ other ∈ rest, other ∈ (s.removed sequence).messageRing.map (·.wm) := by
        intro other inRest
        obtain ⟨r, inRing, rfl⟩ := List.mem_map.mp (listed other (.tail _ inRest))
        refine List.mem_map_of_mem (List.mem_filter.mpr ⟨inRing, ?_⟩)
        rw [bne_iff_ne]
        rintro rfl
        exact distinct.1 inRest
      rw [List.foldlM_cons, cleanupMessage_eq keyed (listed _ List.mem_cons_self), ok_bind,
        ih keyed.removed distinct.2 remaining]
      congr 1
      simp only [UdpConnection.removed, List.filter_filter, UdpConnection.mk.injEq, true_and,
        and_true]
      constructor
      · funext other
        rw [WorkingMessages.erase_apply]
        by_cases inRest : other ∈ rest <;> by_cases same : other = sequence <;>
          simp [inRest, same]
      · apply List.filter_congr
        intro r _
        by_cases inRest : r.wm ∈ rest <;> by_cases same : r.wm = sequence <;> simp [inRest, same]

def tickedWorking (w : WorkingMessages) : WorkingMessages := fun sequence =>
  (w sequence).bind fun wm => if wm.tick.exhausted then none else some wm.tick

def tickedRing (s : UdpConnection Address) : List MessageRingItem :=
  (s.messageRing.filter fun r => !exhaustedIn s.outWorking r.wm).map (resentItem s.outWorking)

/-- The connection after a resend tick that posts `posts` sends. -/
def UdpConnection.ticked (s : UdpConnection Address) (posts : Nat) : UdpConnection Address :=
  { s with
    outWorking := tickedWorking s.outWorking
    messageRing := tickedRing s
    posted := s.posted ++ List.replicate posts .doSend }

/-- A resend tick violates no contract. It posts a `do_send` if it queues a
chunk again. -/
theorem resend_eq (base : SenderBase ip log s) :
    ∃ posts, s.resend = .ok (s.ticked posts) ∧
      (posts = 0 → ∀ r ∈ s.messageRing, resentItem s.outWorking r = r) := by
  have pointed : ∀ r ∈ s.messageRing, ∃ wm, Pointed s.outWorking r wm := by
    intro r member
    obtain ⟨wm, m, working, -, sending, sendable⟩ := base.item member
    exact ⟨wm, working, by rw [sending.proto, prototypeOf_sequence],
      sending.total_pos sendable, by rw [sending.data]; exact sendable.nonempty⟩
  obtain ⟨resent, posts, loop, quiet⟩ := resendLoop_eq s.messageRing pointed base.distinct
  have keys : (s.messageRing.map (resentItem s.outWorking)).map (·.wm) =
      s.messageRing.map (·.wm) := by
    rw [List.map_map]
    rfl
  have mem_exhausted : ∀ r ∈ s.messageRing,
      (r.wm ∈ (s.messageRing.map (·.wm)).filter (exhaustedIn s.outWorking) ↔
        exhaustedIn s.outWorking r.wm = true) := by
    intro r member
    simp [List.mem_filter, List.mem_map_of_mem member]
  have keyed : RingKeyed { s with
      outWorking := tickedIn s.outWorking (s.messageRing.map (·.wm))
      posted := s.posted ++ List.replicate posts .doSend
      messageRing := s.messageRing.map (resentItem s.outWorking) } := by
    refine ⟨?_, keys ▸ base.distinct⟩
    intro item member
    obtain ⟨r, inRing, rfl⟩ := List.mem_map.mp member
    obtain ⟨wm, pointer⟩ := pointed r inRing
    exact ⟨wm.tick, @tickedIn_of_mem _ _ r.wm _ (List.mem_map_of_mem inRing)
      pointer.working, pointer.named⟩
  have cleaned := foldlM_cleanupMessage
    ((s.messageRing.map (·.wm)).filter (exhaustedIn s.outWorking)) keyed
    (base.distinct.filter _) (fun sequence member => keys ▸ (List.mem_filter.mp member).1)
  have working : (fun sequence =>
      if sequence ∈ (s.messageRing.map (·.wm)).filter (exhaustedIn s.outWorking) then none
      else tickedIn s.outWorking (s.messageRing.map (·.wm)) sequence) =
        tickedWorking s.outWorking := by
    funext sequence
    rw [tickedWorking]
    cases found : s.outWorking sequence with
    | none => simp [tickedIn, found]
    | some wm =>
        have listed := (base.listed sequence).mpr (by rw [found]; rfl)
        simp only [List.mem_filter, tickedIn_of_mem listed found, listed, true_and, exhaustedIn,
          found, Option.any_some, Option.bind_some]
  have ring : (s.messageRing.map (resentItem s.outWorking)).filter (fun r =>
      decide (r.wm ∉ (s.messageRing.map (·.wm)).filter (exhaustedIn s.outWorking))) =
        tickedRing s := by
    rw [List.filter_map, tickedRing]
    congr 1
    apply List.filter_congr
    intro r member
    simp only [Function.comp_apply, resentItem, mem_exhausted r member, decide_not,
      Bool.decide_eq_true]
  have result : s.resend =
      .ok (if resent then (s.ticked posts).postSend else s.ticked posts) := by
    simp only [UdpConnection.resend, loop, ok_bind, cleaned, working, ring, pure_ok]
    rfl
  cases resent with
  | false => exact ⟨posts, result, quiet⟩
  | true =>
      refine ⟨posts + 1, ?_, by omega⟩
      rw [result]
      simp [UdpConnection.ticked, UdpConnection.postSend, List.replicate_succ']

end Firestr.Network
