import Firestr.Gui.Chat

/-! Chats over whole runs. The clock of an app counts exactly what it has sent
and the causes of what it has shown, so a message is shown at most once, and
lost exactly when something it is a cause of comes before it. -/

set_option autoImplicit false

namespace Firestr.Gui

open Firestr.Library Firestr.Library.Runs Firestr.Library.VersionVector Firestr.User Firestr.Util

/-- Every clock of a group is right, under the id of its owner. -/
structure ChatGroup.Valid (g : ChatGroup) : Prop where
  named : ∀ i, (g.state i).clock.i = i
  states : ∀ i, (g.state i).clock.Formed
  sent : ∀ p ∈ g.sent, p.message.clock.Formed ∧ p.message.clock.i = p.message.fromId ∧
    p.message.hasClock = true
  ordered : g.system.Ordered
  once : ∀ i, (g.state i).shown.Nodup

namespace ChatApp

section Shown

variable {me : ChatApp}

@[simp] theorem shown_addText_received {c : UserInfo} {t : TextMessage} :
    (me.addText (.received c t)).shown = me.shown ++ [t] :=
  List.filterMap_append ..

theorem shown_addText {line : Line} (other : ∀ c t, line ≠ .received c t) :
    (me.addText line).shown = me.shown := by
  have none? : ChatApp.shown { me with text := [line] } = [] := by
    cases line with
    | received c t => exact absurd rfl (other c t)
    | _ => rfl
  refine (List.filterMap_append ..).trans ?_
  rw [shown] at none?
  rw [none?, List.append_nil]
  rfl

end Shown

/-- The message that an app sends with a text. -/
def nextText (me : ChatApp) (text : Bytes) : TextMessage where
  fromId := me.clock.i
  text := trim text
  clock := me.clock.increment
  hasClock := true

theorem sendMessage_cases {contacts : ContactList} {me next : ChatApp} {text : Bytes}
    {tm : Option TextMessage} (success : me.sendMessage contacts text = (tm, next)) :
    (tm = none ∧ next = me) ∨
      tm = some (me.nextText text) ∧ next.clock = me.clock.increment ∧ next.shown = me.shown := by
  unfold sendMessage at success
  dsimp only at success
  split at success
  · cases success
    exact .inl ⟨rfl, rfl⟩
  · cases success
    refine .inr ⟨rfl, ?_, ?_⟩
    · split <;> rfl
    · have mine : (me.addText (.mine (trim text))).shown = me.shown := shown_addText (by simp)
      split
      · exact (shown_addText (by simp)).trans mine
      · exact mine

def showed (me : ChatApp) (c : UserInfo) (t : TextMessage) : ChatApp :=
  { me with clock := me.clock.joined t.clock }.addText (.received c t)

section CheckMail

variable {contacts : ContactList} {me : ChatApp} {t : TextMessage}

/-- What `check_mail` does with a text message that has a clock: it shows the
message unless its clock is at most the own one. -/
theorem checkMail_text (indexed : contacts.Indexed) (mine : me.clock.Formed)
    (other : t.clock.Formed) (clock : t.hasClock = true) :
    (t.fromId ∉ contacts.ids ∧ me.checkMail contacts (.text t) = .ok me) ∨
      (t.clock.c.counts ≤ me.clock.c.counts ∧ me.checkMail contacts (.text t) = .ok me) ∨
      ¬ t.clock.c.counts ≤ me.clock.c.counts ∧
        ∃ c, me.checkMail contacts (.text t) = .ok (me.showed c t) := by
  by_cases member : t.fromId ∈ contacts.ids
  · right
    obtain ⟨c, -, -, found⟩ := indexed.byId_of_mem member
    have order := TrackedVClock.le_eq other.own mine.own
    by_cases below : t.clock.c.counts ≤ me.clock.c.counts
    · rw [(VClock.le_iff other.counted mine.counted).mpr below] at order
      exact .inl ⟨below, by simp [checkMail, found, clock, order]⟩
    · have above : t.clock.c.le me.clock.c = false :=
        Bool.eq_false_iff.mpr (mt (VClock.le_iff other.counted mine.counted).mp below)
      rw [above] at order
      refine .inr ⟨below, c, ?_⟩
      simp [checkMail, found, clock, order, TrackedVClock.add_eq mine.own other.own, showed]
  · exact .inl ⟨member, by simp [checkMail, indexed.byId_of_not_mem member]⟩

theorem checkMail_other {m : ChatMessage} {next : ChatApp} (other : ∀ t, m ≠ .text t)
    (success : me.checkMail contacts m = .ok next) :
    next.clock = me.clock ∧ next.shown = me.shown := by
  cases m with
  | text t => exact absurd rfl (other t)
  | joined id =>
      obtain ⟨-, -, success⟩ := bind_ok success
      obtain ⟨found, -, success⟩ := bind_ok success
      cases found with
      | none =>
          cases success
          exact ⟨rfl, rfl⟩
      | some c =>
          cases success
          exact ⟨rfl, shown_addText (by simp)⟩
  | other =>
      cases success
      exact ⟨rfl, rfl⟩

end CheckMail

end ChatApp

section Valid

variable {g next : ChatGroup}

theorem ChatGroup.Valid.start : ({} : ChatGroup).Valid where
  named _ := rfl
  states i := .new i
  sent p member := by cases member
  ordered := .start fun i j => by
    change (TrackedVClock.new i).c.counts j ≤ (TrackedVClock.new j).c.counts j
    rw [TrackedVClock.counts_new, TrackedVClock.counts_new, if_pos rfl]
    split <;> omega
  once _ := List.nodup_nil

theorem ChatGroup.put_state (i j : String) (me : ChatApp) :
    (g.put i me).state j = if j = i then me else g.state j :=
  Function.update_apply ..

theorem ChatGroup.put_self (i : String) : g.put i (g.state i) = g := by
  rw [ChatGroup.put, Function.update_eq_self]

theorem ChatGroup.system_put {i : String} {me : ChatApp} (clock : me.clock = (g.state i).clock)
    (shown : me.shown = (g.state i).shown) : (g.put i me).system = g.system := by
  simp only [ChatGroup.system, ChatGroup.put_state, Causality.System.mk.injEq]
  refine ⟨funext fun j => ?_, rfl, funext fun j => ?_⟩
  · split
    · rename_i here
      rw [here, clock]
    · rfl
  · split
    · rename_i here
      rw [here, shown]
    · rfl

theorem ChatGroup.system_send {i : String} {me : ChatApp} {text : Bytes}
    (named : (g.state i).clock.i = i) (room : (g.state i).clock.c.counts i + 1 < 2 ^ 63)
    (clock : me.clock = (g.state i).clock.increment) (shown : me.shown = (g.state i).shown) :
    ChatGroup.system { g.put i me with
        sent := g.sent ++ [{ message := (g.state i).nextText text, seen := g.system.known i }] } =
      g.system.posted i ((g.state i).nextText text) := by
  have counts : (g.state i).clock.increment.c.counts = tick (g.state i).clock.c.counts i := by
    rw [TrackedVClock.counts_increment (by rw [named]; exact room), named]
  simp only [ChatGroup.system, Causality.System.posted, Causality.System.mk.injEq]
  refine ⟨funext fun j => ?_, ?_, funext fun j => ?_⟩
  · rw [ChatGroup.put_state, Function.update_apply]
    split
    · rw [clock, counts]
    · rfl
  · rw [List.map_append]
    congr 1
    simp only [List.map_cons, List.map_nil, ChatApp.nextText, named, counts]
  · rw [ChatGroup.put_state]
    split
    · rename_i here
      rw [here, shown]
    · rfl

theorem ChatGroup.system_show {i : String} {c : UserInfo} {p : SentText} :
    (g.put i ((g.state i).showed c p.message)).system = g.system.took i
      { message := p.message
        owner := p.message.fromId
        stamp := p.message.clock.c.counts
        seen := p.seen } := by
  simp only [ChatGroup.system, Causality.System.took, Causality.System.mk.injEq]
  refine ⟨funext fun j => ?_, rfl, funext fun j => ?_⟩
  · rw [ChatGroup.put_state, Function.update_apply]
    split
    · exact VClock.counts_add ..
    · rfl
  · rw [ChatGroup.put_state, Function.update_apply]
    split
    · exact ChatApp.shown_addText_received
    · rfl

private theorem ChatGroup.Valid.put (valid : g.Valid) {i : String} {me : ChatApp}
    (named : me.clock.i = i) (formed : me.clock.Formed) (once : me.shown.Nodup)
    (ordered : (g.put i me).system.Ordered) : (g.put i me).Valid where
  named j := by
    rw [ChatGroup.put_state]
    split
    · rename_i here
      rw [here, named]
    · exact valid.named j
  states j := by
    rw [ChatGroup.put_state]
    split
    · exact formed
    · exact valid.states j
  sent := valid.sent
  ordered := ordered
  once j := by
    rw [ChatGroup.put_state]
    split
    · exact once
    · exact valid.once j

private theorem ChatGroup.Valid.fresh (valid : g.Valid) {i : String}
    (room : (g.state i).clock.c.counts i + 1 < 2 ^ 63) (text : Bytes) :
    ∀ p ∈ g.system.posts, p.message ≠ (g.state i).nextText text := by
  intro p member same
  obtain ⟨q, inside, rfl⟩ := List.mem_map.mp member
  have bounded : q.message.clock.c.counts i ≤ (g.state i).clock.c.counts i :=
    (valid.ordered.stampsCounted _ member).bounded i
  change q.message = _ at same
  rw [same, ChatApp.nextText, TrackedVClock.counts_increment (by rw [valid.named]; exact room),
    valid.named, tick_apply, if_pos rfl] at bounded
  omega

/-- A step of a chat is a step of the system, or one it does not see. -/
theorem ChatGroup.Valid.system_step (valid : g.Valid) {event : ChatEvent}
    (step : ChatStep g event next) :
    next.system = g.system ∨ Causality.Step g.system next.system := by
  cases step with
  | @send i contacts text tm me room success =>
      rcases ChatApp.sendMessage_cases success with ⟨rfl, rfl⟩ | ⟨rfl, clock, shown⟩
      · left
        change ChatGroup.system { g.put i (g.state i) with sent := g.sent ++ [] } = g.system
        rw [List.append_nil, ChatGroup.put_self]
      · right
        change Causality.Step g.system (ChatGroup.system { g.put i me with
            sent := g.sent ++ [{ message := (g.state i).nextText text, seen := _ }] })
        rw [ChatGroup.system_send (valid.named i) room clock shown]
        exact .post (valid.fresh room text)
  | @receive i contacts p me member different indexed success =>
      obtain ⟨other, -, clock⟩ := valid.sent p member
      change (g.put i me).system = g.system ∨ Causality.Step g.system (g.put i me).system
      rcases ChatApp.checkMail_text indexed (valid.states i) other clock with
        ⟨-, same⟩ | ⟨-, same⟩ | ⟨-, c, shows⟩
      · cases same.symm.trans success
        exact .inl (ChatGroup.system_put rfl rfl)
      · cases same.symm.trans success
        exact .inl (ChatGroup.system_put rfl rfl)
      · cases shows.symm.trans success
        rw [ChatGroup.system_show]
        exact .inr (.take (List.mem_map_of_mem member))
  | @other i contacts m me other success =>
      obtain ⟨clock, shown⟩ := ChatApp.checkMail_other other success
      exact .inl (ChatGroup.system_put clock shown)

private theorem ChatGroup.Valid.send (valid : g.Valid) {i : String} {me : ChatApp} {text : Bytes}
    (room : (g.state i).clock.c.counts i + 1 < 2 ^ 63)
    (clock : me.clock = (g.state i).clock.increment) (shown : me.shown = (g.state i).shown)
    (sends : next = { g.put i me with
      sent := g.sent ++
        [{ message := (g.state i).nextText text, seen := g.system.known i }] })
    (ordered : next.system.Ordered) : next.Valid := by
  subst sends
  have own : (g.state i).clock.c.counts (g.state i).clock.i + 1 < 2 ^ 63 := by
    rw [valid.named]
    exact room
  have formed := (valid.states i).increment own
  have named : me.clock.i = i := by
    rw [clock]
    exact valid.named i
  refine ⟨fun j => ?_, fun j => ?_, fun p member => ?_, ordered, fun j => ?_⟩
  · rw [ChatGroup.put_state]
    split
    · rename_i here
      rw [here, named]
    · exact valid.named j
  · rw [ChatGroup.put_state]
    split
    · rw [clock]
      exact formed
    · exact valid.states j
  · rcases List.mem_append.mp member with inside | last
    · exact valid.sent p inside
    · cases List.mem_singleton.mp last
      exact ⟨formed, rfl, rfl⟩
  · rw [ChatGroup.put_state]
    split
    · rw [shown]
      exact valid.once i
    · exact valid.once j

/-- A member counts a message of another one exactly when it has shown a
message that it is a cause of. -/
theorem ChatGroup.Valid.counts_iff (valid : g.Valid) {p : SentText} (member : p ∈ g.sent)
    {i : String} (different : p.message.fromId ≠ i) :
    p.message.clock.c.counts ≤ (g.state i).clock.c.counts ↔
      ∃ m ∈ (g.state i).shown, Causality.Cause g.system.posts p.message m :=
  (valid.ordered.clocks _ (List.mem_map_of_mem member) i).trans (or_iff_right different)

theorem ChatGroup.Valid.counts_of_shown (valid : g.Valid) {p : SentText} (member : p ∈ g.sent)
    {i : String} (different : p.message.fromId ≠ i) (shown : p.message ∈ (g.state i).shown) :
    p.message.clock.c.counts ≤ (g.state i).clock.c.counts :=
  (valid.counts_iff member different).mpr ⟨p.message, shown, .refl⟩

theorem ChatGroup.Valid.step (valid : g.Valid) {event : ChatEvent}
    (step : ChatStep g event next) : next.Valid := by
  have ordered : next.system.Ordered := by
    rcases valid.system_step step with same | moved
    · rw [same]
      exact valid.ordered
    · exact valid.ordered.step moved
  cases step with
  | @send i contacts text tm me room success =>
      rcases ChatApp.sendMessage_cases success with ⟨rfl, rfl⟩ | ⟨rfl, clock, shown⟩
      · have same : { g.put i (g.state i) with
            sent := g.sent ++ [] } = g := by
          rw [List.append_nil, ChatGroup.put_self]
        change ChatGroup.Valid { g.put i (g.state i) with
            sent := g.sent ++ [] }
        rw [same]
        exact valid
      · exact valid.send room clock shown rfl ordered
  | @receive i contacts p me member different indexed success =>
      have kept : (g.put i me).Valid := by
        obtain ⟨other, -, clock⟩ := valid.sent p member
        rcases ChatApp.checkMail_text indexed (valid.states i) other clock with
          ⟨-, same⟩ | ⟨-, same⟩ | ⟨above, c, shows⟩
        · cases same.symm.trans success
          exact valid.put (valid.named i) (valid.states i) (valid.once i) ordered
        · cases same.symm.trans success
          exact valid.put (valid.named i) (valid.states i) (valid.once i) ordered
        · cases shows.symm.trans success
          refine valid.put (valid.named i) ((valid.states i).joined other) ?_ ordered
          rw [ChatApp.showed, ChatApp.shown_addText_received]
          refine List.Nodup.append (valid.once i) (List.nodup_singleton _) ?_
          rw [List.disjoint_singleton]
          exact fun shown => above (valid.counts_of_shown member different shown)
      exact ⟨kept.named, kept.states, kept.sent, kept.ordered, kept.once⟩
  | @other i contacts m me other success =>
      obtain ⟨clock, shown⟩ := ChatApp.checkMail_other other success
      refine valid.put ?_ ?_ ?_ ordered
      · rw [clock]
        exact valid.named i
      · rw [clock]
        exact valid.states i
      · rw [shown]
        exact valid.once i

theorem ChatGroup.valid_of_run {events : List ChatEvent} (run : ChatRun events g) : g.Valid :=
  run.invariant (fun _ g => g.Valid) (fun _ started => started ▸ .start)
    fun _ _ _ _ _ valid step => valid.step step

/-- No receiver shows the same text message more than once. -/
theorem chat_shows_once {events : List ChatEvent} (run : ChatRun events g) (i : String) :
    (g.state i).shown.Nodup :=
  (ChatGroup.valid_of_run run).once i

/-- A message that is given to a member is lost exactly when it comes out of order. -/
theorem lost_of_receive (valid : g.Valid) {i : String} {contacts : ContactList} {t : TextMessage}
    (step : ChatStep g (.receive i contacts t) next) (together : t.fromId ∈ contacts.ids) :
    next.lost = g.lost ↔ g.InOrder (.receive i contacts t) := by
  cases step with
  | @receive _ _ p me member different indexed success =>
      obtain ⟨other, -, clock⟩ := valid.sent p member
      have kept : ∀ {lost : List (String × TextMessage)}, lost = [] ↔ g.lost ++ lost = g.lost :=
        List.append_right_eq_self.symm
      change g.lost ++ _ = g.lost ↔ p.message ∈ (g.state i).shown ∨ _
      rw [← kept]
      rcases ChatApp.checkMail_text indexed (valid.states i) other clock with
        ⟨missing, -⟩ | ⟨below, same⟩ | ⟨above, c, shows⟩
      · exact absurd together missing
      · cases same.symm.trans success
        obtain ⟨m, shown, cause⟩ := (valid.counts_iff member different).mp below
        by_cases before : p.message ∈ (g.state i).shown
        · rw [if_pos before]
          exact iff_of_true rfl (.inl before)
        · rw [if_neg before]
          refine iff_of_false (List.cons_ne_nil _ _) ?_
          rintro (again | unseen)
          · exact before again
          · exact unseen m shown cause
      · cases shows.symm.trans success
        have now : p.message ∈ ((g.state i).showed c p.message).shown := by
          rw [ChatApp.showed, ChatApp.shown_addText_received]
          exact List.mem_append_right _ List.mem_cons_self
        rw [if_pos now]
        refine iff_of_true rfl (.inr fun m shown cause => above ?_)
        exact (valid.counts_iff member different).mpr ⟨m, shown, cause⟩

theorem lost_of_other {event : ChatEvent} (step : ChatStep g event next)
    (quiet : ∀ i contacts t, event ≠ .receive i contacts t) : next.lost = g.lost := by
  cases step with
  | send => rfl
  | receive => exact absurd rfl (quiet _ _ _)
  | other => rfl

/-- A step loses nothing exactly when it is in order. -/
theorem lost_iff_inOrder (valid : g.Valid) {event : ChatEvent} (step : ChatStep g event next)
    (together : event.Together) : next.lost = g.lost ↔ g.InOrder event := by
  cases event with
  | send => exact iff_of_true (lost_of_other step (by simp)) trivial
  | receive i contacts t => exact lost_of_receive valid step together
  | other => exact iff_of_true (lost_of_other step (by simp)) trivial

theorem lost_grows {event : ChatEvent} (step : ChatStep g event next)
    (none? : next.lost = []) : g.lost = [] := by
  cases step with
  | send => exact none?
  | receive => exact (List.append_eq_nil_iff.mp none?).1
  | other => exact none?

/-- Of members that are all in each other's conversation none ever loses a
message exactly in the runs in which no message comes, unshown, after a message
it is a cause of has been shown. -/
theorem chat_loses_nothing_iff {events : List ChatEvent} (run : ChatRun events g)
    (together : ∀ event ∈ events, event.Together) :
    g.lost = [] ↔ Run (fun g => g = {}) (fun g event next => ChatStep g event next ∧
      g.InOrder event) events g := by
  constructor
  · intro none?
    induction run with
    | start started => exact .start started
    | @step labels state after event earlier step ih =>
        have before := lost_grows step none?
        have valid := ChatGroup.valid_of_run earlier
        have here := together event (List.mem_append_right _ List.mem_cons_self)
        have kept : after.lost = state.lost := none?.trans before.symm
        exact .step (ih (fun event member => together event (List.mem_append_left _ member)) before)
          ⟨step, (lost_iff_inOrder valid step here).mp kept⟩
  · intro ordered
    have both : g.Valid ∧ ((∀ event ∈ events, event.Together) → g.lost = []) := by
      refine ordered.invariant
        (fun events g => g.Valid ∧ ((∀ event ∈ events, event.Together) → g.lost = [])) ?_ ?_
      · rintro _ rfl
        exact ⟨.start, fun _ => rfl⟩
      · rintro events g event next - ⟨valid, kept⟩ ⟨step, inOrder⟩
        refine ⟨valid.step step, fun together => ?_⟩
        have here := together event (List.mem_append_right _ List.mem_cons_self)
        rw [(lost_iff_inOrder valid step here).mpr inOrder]
        exact kept fun event member => together event (List.mem_append_left _ member)
    exact both.2 together

end Valid

section TwoMessages

/-- The app after `send_message`. -/
def ChatApp.said (contacts : ContactList) (me : ChatApp) (text : Bytes) : ChatApp :=
  (me.sendMessage contacts text).2

theorem ChatApp.sendMessage_some {contacts : ContactList} {me : ChatApp} {text : Bytes}
    (some? : (trim text).isEmpty = false) :
    me.sendMessage contacts text = (some (me.nextText text), me.said contacts text) := by
  simp only [said, sendMessage, some?, Bool.false_eq_true, if_false]
  rfl

/-- The contacts of a conversation with one other user. -/
def onlyContact (id : String) : ContactList := ({} : ContactList).pushed { id := id }

/-- Two messages of `a`, and what it is after each of them. -/
def afterOne : ChatApp := (ChatApp.new "a").said (onlyContact "b") (ascii "one")

def afterTwo : ChatApp := afterOne.said (onlyContact "b") (ascii "two")

def one : SentText where
  message := (ChatApp.new "a").nextText (ascii "one")
  seen := []

def two : SentText where
  message := afterOne.nextText (ascii "two")
  seen := [one.message]

/-- `b` after it has got the second message. -/
def twoShown : ChatApp :=
  valueD (.new "b") ((ChatApp.new "b").checkMail (onlyContact "a") (.text two.message))

/-- `a` sends two messages, and `b` gets the second one first. -/
def newerFirst : List ChatEvent :=
  [.send "a" (onlyContact "b") (ascii "one"), .send "a" (onlyContact "b") (ascii "two"),
    .receive "b" (onlyContact "a") two.message, .receive "b" (onlyContact "a") one.message]

private theorem indexed_onlyContact (id : String) : (onlyContact id).Indexed :=
  PointerList.Indexed.start.pushed (by simp [PointerList.ids])

private theorem sent_run : ChatRun (newerFirst.take 2)
    { state := Function.update (Function.update ChatApp.new "a" afterOne) "a" afterTwo
      sent := [one, two] } := by
  have first : ChatRun [.send "a" (onlyContact "b") (ascii "one")]
      { state := Function.update ChatApp.new "a" afterOne
        sent := [one] } :=
    .single rfl (.send (by decide +kernel) (ChatApp.sendMessage_some (by decide)))
  exact first.step (.send (by decide +kernel) (ChatApp.sendMessage_some (by decide)))

private theorem newer_run : ChatRun (newerFirst.take 3)
    { state := Function.update (Function.update (Function.update ChatApp.new "a" afterOne)
        "a" afterTwo) "b" twoShown
      sent := [one, two] } :=
  sent_run.step (@ChatStep.receive _ "b" (onlyContact "a") two twoShown (by simp) (by decide)
    (indexed_onlyContact "a") (ok_valueD (by decide +kernel)))

/-- The first message of `a` comes after the second one, and is lost. -/
theorem chat_loses_reordered : ∃ g, ChatRun newerFirst g ∧
    (∀ event ∈ newerFirst, event.Together) ∧ g.lost = [("b", one.message)] := by
  have discarded : twoShown.checkMail (onlyContact "a") (.text one.message) =
      .ok (valueD twoShown (twoShown.checkMail (onlyContact "a") (.text one.message))) :=
    ok_valueD (by decide +kernel)
  refine ⟨_, newer_run.step (@ChatStep.receive _ "b" (onlyContact "a") one _ (by simp)
    (by decide) (indexed_onlyContact "a") discarded), ?_, ?_⟩
  · intro event member
    simp only [newerFirst, List.mem_cons, List.not_mem_nil, or_false] at member
    rcases member with rfl | rfl | rfl | rfl
    · exact trivial
    · exact trivial
    · exact List.mem_singleton.mpr rfl
    · exact List.mem_singleton.mpr rfl
  · decide +kernel

theorem chat_loses_nothing_twoShown : Run (fun g => g = {})
    (fun g event next => ChatStep g event next ∧ g.InOrder event) (newerFirst.take 3)
    { state := Function.update (Function.update (Function.update ChatApp.new "a" afterOne)
        "a" afterTwo) "b" twoShown
      sent := [one, two] } := by
  refine (chat_loses_nothing_iff newer_run fun event member => ?_).mp rfl
  simp only [newerFirst, List.take_succ_cons, List.take_zero, List.mem_cons, List.not_mem_nil,
    or_false] at member
  rcases member with rfl | rfl | rfl
  · exact trivial
  · exact trivial
  · exact List.mem_singleton.mpr rfl

theorem chat_shows_once_twoShown : (twoShown.shown).Nodup :=
  chat_shows_once newer_run "b"

end TwoMessages

end Firestr.Gui
