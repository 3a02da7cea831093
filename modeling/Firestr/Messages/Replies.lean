import Firestr.Messages.OfficeTree
import Firestr.Messages.Routing

/-! Whether the addresses that a message collects on its way lead back to the
mailbox that sent it. They do on a way up and then down the tree. On a way that
turns back from an office to its parent they do only when the parent is the
office that the message came from. -/

set_option autoImplicit false

namespace Firestr.Messages

open Firestr.Util

variable {Double : Type}

/-- `send_thread` with a message from the outbox of a mailbox: the mailbox signs
it, and the office sends it unless it was signed before. -/
def sendThread (sendOutside : Message Double → Bool) (o : Office) (above : List Office)
    (box : Bytes) (m : Message Double) : Except Relock (Sent Double) :=
  if (box :: m.metadata.fromAddress).length = 1 then
    send sendOutside o false (unlocked above)
      (m.addressed m.metadata.toAddress (box :: m.metadata.fromAddress))
  else .ok { returned := false }

/-- The message ends in the inbox of this mailbox of this office, and nowhere else. -/
def Reaches (result : Except Relock (Sent Double)) (o : Office) (above : List Office)
    (box : Bytes) : Prop :=
  ∃ m, result = .ok {
    returned := true
    deliveries := [.inbox o above box m] }

/-- From the office, the list leads down to a mailbox. -/
inductive LeadsDown : Office → Address → Prop where
  | here {o : Office} {toAddress : Address} {x : Bytes} :
      stripped o.address toAddress = [x] → x ∈ o.boxes → LeadsDown o toAddress
  | down {o sp : Office} {toAddress : Address} {head next : Bytes} {rest : Address} :
      stripped o.address toAddress = head :: next :: rest → o.child head = some sp →
      LeadsDown sp (next :: rest) → LeadsDown o toAddress

/-- The list leads up, past offices that it does not lead down from, and down. -/
inductive Straight : Office → List Office → Address → Prop where
  | down {o : Office} {above : List Office} {toAddress : Address} :
      LeadsDown o toAddress → Straight o above toAddress
  | up {o parent : Office} {higher : List Office} {toAddress : Address} {head next : Bytes}
      {rest : Address} : stripped o.address toAddress = head :: next :: rest →
      (∀ sp, o.child head = some sp → ¬Leads o sp (next :: rest)) →
      Straight parent higher (head :: next :: rest) → Straight o (parent :: higher) toAddress

/-- The list leads to an office right below, and from there back to a mailbox. -/
def TurnsAtOnce (o : Office) (toAddress : Address) : Prop :=
  ∃ head next rest sp x, stripped o.address toAddress = head :: next :: rest ∧
    o.child head = some sp ∧ stripped sp.address (next :: rest) = [o.address, x] ∧ x ∈ o.boxes

section Ways

variable {sendOutside : Message Double → Bool} {o od parent : Office}
  {above : List Office} {b : Bytes} {fromAddress : Address}

/-- Where a list that leads down ends, and what a message that follows it
collects on the way. -/
private theorem leadsDown_send (sendOutside : Message Double → Bool) {toAddress : Address}
    (leads : LeadsDown o toAddress) :
    ∃ od below d, Office.At o od below ∧ d ∈ od.boxes ∧
      ∀ (above : List (Office × Bool)) (m : Message Double), m.metadata.toAddress = toAddress →
        send sendOutside o false above m = .ok {
          returned := true
          deliveries := [.inbox od (below ++ above.map (·.1)) d
            (m.addressed [d] (below.map Office.address ++ m.metadata.fromAddress))] } := by
  induction leads with
  | @here o toAddress x one there =>
      refine ⟨o, [], x, .root, there, fun above m same => ?_⟩
      subst same
      rw [send_box one, if_pos there]
      rfl
  | @down o sp toAddress head next rest more found _ ih =>
      obtain ⟨od, below, d, place, there, delivers⟩ := ih
      have member := (Office.mem_offices_of_child found).1
      refine ⟨od, below ++ [o], d, place.down member, there, fun above m same => ?_⟩
      subst same
      have tried := delivers ((o, true) :: above)
        (m.addressed (next :: rest) (o.address :: m.metadata.fromAddress)) rfl
      rw [send_taken more ((tryChild_some found).trans tried)]
      simp only [List.map_cons, List.append_assoc, List.map_append, List.map_nil,
        List.cons_append, List.nil_append]
      rfl

/-- The list leads from an office of the way down back to its parent. -/
private inductive Turns : Office → Office → Address → Prop where
  | back {parent o : Office} {toAddress : Address} {x : Bytes} :
      stripped o.address toAddress = [parent.address, x] → x ∈ parent.boxes →
      Turns parent o toAddress
  | down {parent o sp : Office} {toAddress : Address} {head next : Bytes} {rest : Address} :
      stripped o.address toAddress = head :: next :: rest → o.child head = some sp →
      Turns o sp (next :: rest) → Turns parent o toAddress

private theorem leads_down_or_turns {toAddress : Address} (leads : Leads parent o toAddress) :
    LeadsDown o toAddress ∨ Turns parent o toAddress := by
  induction leads with
  | here one there => exact .inl (.here one there)
  | back more there => exact .inr (.back more there)
  | down more found _ ih =>
      cases ih with
      | inl leads => exact .inl (.down more found leads)
      | inr turns => exact .inr (.down more found turns)

private theorem back_send (distinct : parent.Distinct) (member : o ∈ parent.offices) {x : Bytes}
    (there : x ∈ parent.boxes) (above : List (Office × Bool)) (m : Message Double)
    (more : stripped o.address m.metadata.toAddress = [parent.address, x]) :
    send sendOutside o false ((parent, true) :: above) m = .ok {
      returned := true
      deliveries := [.inbox parent (above.map (·.1)) x
        (m.addressed [x] (o.address :: m.metadata.fromAddress))] } := by
  rw [send_further more (tryChild_none (distinct.child_parent member)), sendFurther]
  have own : stripped parent.address
      (m.addressed [parent.address, x] (o.address :: m.metadata.fromAddress)).metadata.toAddress =
        [x] :=
    stripped_cons (List.cons_ne_nil _ _)
  rw [send_box own, if_pos there]
  rfl

/-- Where a list that turns back ends, and what a message that follows it
collects: the address of the office that it turned back in comes first. -/
private theorem turns_send (sendOutside : Message Double → Bool) {toAddress : Address}
    (turns : Turns parent o toAddress) (distinct : parent.Distinct) (member : o ∈ parent.offices) :
    ∃ q c below x, Office.At parent q below ∧ c ∈ q.offices ∧
      (below = [] → x ∈ parent.boxes ∧ stripped o.address toAddress = [parent.address, x]) ∧
      ∀ (above : List (Office × Bool)) (m : Message Double) (signed : Address),
        m.metadata.toAddress = toAddress → m.metadata.fromAddress = parent.address :: signed →
        send sendOutside o false ((parent, true) :: above) m = .ok {
          returned := true
          deliveries := [.inbox q (below ++ above.map (·.1)) x
            (m.addressed [x] (c.address :: q.address :: (below.map Office.address ++ signed)))] } := by
  induction turns with
  | @back parent o toAddress x more there =>
      refine ⟨parent, o, [], x, .root, member, fun _ => ⟨there, more⟩, ?_⟩
      intro above m signed same signs
      subst same
      rw [back_send distinct member there above m more, signs]
      rfl
  | @down parent o sp toAddress head next rest more found _ ih =>
      have inside := (Office.mem_offices_of_child found).1
      obtain ⟨q, c, below, x, place, within, _, delivers⟩ := ih (distinct.lower member) inside
      refine ⟨q, c, below ++ [parent], x, place.down member, within, ?_, ?_⟩
      · intro none?
        exact absurd none? (List.append_ne_nil_of_right_ne_nil _ (List.cons_ne_nil _ _))
      · intro above m signed same signs
        subst same
        have tried := delivers ((parent, true) :: above)
          (m.addressed (next :: rest) (o.address :: m.metadata.fromAddress))
          m.metadata.fromAddress rfl rfl
        rw [send_taken more ((tryChild_some found).trans tried), signs]
        simp only [List.map_cons, List.append_assoc, List.map_append, List.map_nil,
          List.cons_append, List.nil_append]
        rfl

private theorem send_unled {frames : List (Office × Bool)} {m : Message Double}
    {sent : Sent Double} {head next : Bytes} {rest : Address}
    (more : stripped o.address m.metadata.toAddress = head :: next :: rest)
    (unled : ∀ sp, o.child head = some sp → ¬Leads o sp (next :: rest))
    (success : send sendOutside o false frames m = .ok sent) :
    sendFurther sendOutside frames
      (m.addressed (head :: next :: rest) (o.address :: m.metadata.fromAddress)) = .ok sent := by
  cases found : o.child head with
  | none => exact (send_further more (tryChild_none found)).symm.trans success
  | some sp =>
      have tries := @tryChild_some _ sendOutside o frames m head (next :: rest) sp found
      have below := @descent _ sendOutside _ o sp frames
        (m.addressed (next :: rest) (o.address :: m.metadata.fromAddress)) le_rfl
      cases below with
      | delivered leads _ => exact absurd leads (unled sp found)
      | declined _ _ declines =>
          exact (send_further more (tries.trans declines)).symm.trans success
      | relocked _ _ fails =>
          rw [send_route more, tries, fails] at success
          cases success

/-- The addresses lead from the office to the mailbox, whatever is locked above. -/
private structure Returns (sendOutside : Message Double → Bool) (o : Office) (above : List Office)
    (b : Bytes) (p : Office) (higher : List Office) (fromAddress : Address) : Prop where
  some? : fromAddress ≠ []
  kept : stripped p.address fromAddress = fromAddress
  delivers : ∀ (frames : List (Office × Bool)) (m : Message Double),
    frames.map (·.1) = higher → stripped p.address m.metadata.toAddress = fromAddress →
    Reaches (send sendOutside p false frames m) o above b

private theorem returns_here (there : b ∈ o.boxes) : Returns sendOutside o above b o above [b] := by
  refine ⟨List.cons_ne_nil _ _, stripped_of_length_le_one le_rfl, fun frames m same one => ?_⟩
  subst same
  rw [send_box one, if_pos there]
  exact ⟨_, rfl⟩

private theorem returns_up {p q : Office} {higher : List Office} (distinct : q.Distinct)
    (member : p ∈ q.offices) (returns : Returns sendOutside o above b p (q :: higher) fromAddress) :
    Returns sendOutside o above b q higher (p.address :: fromAddress) := by
  refine ⟨List.cons_ne_nil _ _, stripped_of_ne (distinct.address_ne member), ?_⟩
  intro frames m same whole
  obtain ⟨next, rest, more⟩ := List.exists_cons_of_ne_nil returns.some?
  subst more
  have found := distinct.child_eq member
  obtain ⟨m', success⟩ := returns.delivers ((q, true) :: frames)
    (m.addressed (next :: rest) (q.address :: m.metadata.fromAddress))
    (congrArg (q :: ·) same) returns.kept
  exact ⟨m', send_taken whole ((tryChild_some found).trans success)⟩

private theorem unlocked_offices (above : List Office) : (unlocked above).map (·.1) = above := by
  rw [unlocked, List.map_map]
  exact List.map_id _

/-- The way up that a reply takes, along the way down that it answers. -/
private theorem climb_reaches {p : Office} {below higher : List Office} (distinct : p.Distinct)
    (returns : Returns sendOutside o above b p higher fromAddress) (place : Office.At p od below)
    (m : Message Double)
    (whole : stripped od.address m.metadata.toAddress = below.map Office.address ++ fromAddress) :
    Reaches (send sendOutside od false (unlocked (below ++ higher)) m) o above b := by
  induction place generalizing m with
  | root =>
      exact returns.delivers _ m (unlocked_offices higher) whole
  | @child q od below upper member ih =>
      have some? : below.map Office.address ++ fromAddress ≠ [] :=
        List.append_ne_nil_of_right_ne_nil _ returns.some?
      obtain ⟨next, rest, more⟩ := List.exists_cons_of_ne_nil some?
      rw [List.map_cons, List.cons_append, more] at whole
      have none? := (distinct.reached upper).child_parent member
      rw [send_further whole (tryChild_none none?)]
      refine ih (m.addressed (q.address :: next :: rest)
        (od.address :: m.metadata.fromAddress)) ?_
      rw [more]
      exact stripped_cons (List.cons_ne_nil _ _)

private theorem stripped_way {p : Office} {below : List Office} (distinct : p.Distinct)
    (kept : stripped p.address fromAddress = fromAddress) (place : Office.At p od below) :
    stripped od.address (below.map Office.address ++ fromAddress) =
      below.map Office.address ++ fromAddress := by
  cases place with
  | root => exact kept
  | child upper member =>
      exact stripped_of_ne (Ne.symm ((distinct.reached upper).address_ne member))

private theorem straight_reaches {root p : Office} {higher : List Office} {toAddress : Address}
    {replyOutside : Message Double → Bool} (straight : Straight p higher toAddress)
    (distinct : root.Distinct) (place : Office.At root p higher)
    (returns : Returns replyOutside o above b p higher fromAddress) {m : Message Double}
    {sent : Sent Double} (leads : m.metadata.toAddress = toAddress)
    (signs : m.metadata.fromAddress = fromAddress)
    (success : send sendOutside p false (unlocked higher) m = .ok sent) {aboveD : List Office}
    {d : Bytes} {received : Message Double}
    (delivered : .inbox od aboveD d received ∈ sent.deliveries) {reply : Message Double}
    (answers : reply.metadata.toAddress = received.metadata.fromAddress) :
    Reaches (send replyOutside od false (unlocked aboveD) reply) o above b := by
  induction straight generalizing fromAddress m with
  | @down p higher toAddress down =>
      obtain ⟨od', below, d', lower, -, delivers⟩ := leadsDown_send sendOutside down
      have sends := delivers (unlocked higher) m leads
      cases sends.symm.trans success
      cases List.mem_singleton.mp delivered
      rw [unlocked_offices]
      have kept := stripped_way (distinct.reached place) returns.kept lower
      refine climb_reaches (distinct.reached place) returns lower reply ?_
      rw [answers, addressed_fromAddress, signs]
      exact kept
  | @up p parent higher toAddress head next rest more unled _ ih =>
      subst leads
      have further := send_unled more unled success
      obtain ⟨upper, member⟩ := place.upper parent higher rfl
      exact ih upper (returns_up (distinct.reached upper) member returns) rfl
        (congrArg (p.address :: ·) signs) further

/-- A reply on a way that turned back goes down to the office where it turned,
and comes back to an office that is locked. -/
private theorem turned_back {q c : Office} (distinct : q.Distinct) (member : c ∈ q.offices)
    (frames : List (Office × Bool)) (reply : Message Double) (next : Bytes) (rest : Address) :
    ∃ returned : Message Double,
      stripped q.address returned.metadata.toAddress = next :: rest ∧
      ∀ result, send sendOutside q true frames returned = result →
        tryChild sendOutside q frames reply c.address (q.address :: next :: rest) = result := by
  have other := distinct.address_ne member
  have below : stripped c.address (q.address :: next :: rest) = q.address :: next :: rest :=
    stripped_of_ne (Ne.symm other)
  let handed := reply.addressed (q.address :: next :: rest)
    (q.address :: reply.metadata.fromAddress)
  refine ⟨handed.addressed (q.address :: next :: rest)
    (c.address :: handed.metadata.fromAddress), stripped_cons (List.cons_ne_nil _ _), ?_⟩
  intro result success
  rw [tryChild_some (distinct.child_eq member)]
  have given := @send_further _ sendOutside c ((q, true) :: frames) handed _ _ _ below
    (tryChild_none (distinct.child_parent member))
  exact given.trans success

private theorem turned_reply_reaches {q c : Office} (distinct : q.Distinct)
    (member : c ∈ q.offices) {y : Bytes} (there : y ∈ q.boxes) (frames : List (Office × Bool))
    (reply : Message Double) (whole : reply.metadata.toAddress = [c.address, q.address, y]) :
    Reaches (send sendOutside q false frames reply) q (frames.map (·.1)) y := by
  obtain ⟨returned, own, tries⟩ := turned_back distinct member frames reply y []
  have success := @send_box _ sendOutside q true frames returned y own
  rw [if_pos there] at success
  have stays : stripped q.address reply.metadata.toAddress = [c.address, q.address, y] := by
    rw [whole]
    exact stripped_of_ne (distinct.address_ne member)
  exact ⟨_, send_taken stays (tries _ success)⟩

private theorem turned_reply_relocks {q c : Office} (distinct : q.Distinct)
    (member : c ∈ q.offices) (frames : List (Office × Bool)) (reply : Message Double)
    {next next' : Bytes} {rest : Address}
    (whole : reply.metadata.toAddress = c.address :: q.address :: next :: next' :: rest) :
    send sendOutside q false frames reply = .error (.postM q.address) := by
  obtain ⟨returned, own, tries⟩ := turned_back distinct member frames reply next (next' :: rest)
  have failure := @send_relocks _ sendOutside q frames returned _ _ _ own
  have stays : stripped q.address reply.metadata.toAddress =
      c.address :: q.address :: next :: next' :: rest := by
    rw [whole]
    exact stripped_of_ne (distinct.address_ne member)
  rw [send_route stays, tries _ failure]
  rfl

private theorem down_or_turns_or_unled {root p : Office} {higher : List Office}
    {replyOutside : Message Double → Bool} (distinct : root.Distinct)
    (place : Office.At root p higher) {m : Message Double} {sent : Sent Double}
    (success : send sendOutside p false (unlocked higher) m = .ok sent) {aboveD : List Office}
    {d : Bytes} {received : Message Double}
    (delivered : .inbox od aboveD d received ∈ sent.deliveries)
    (signed : m.metadata.fromAddress ≠ []) {reply : Message Double}
    (answers : reply.metadata.toAddress = received.metadata.fromAddress)
    (reaches : Reaches (send replyOutside od false (unlocked aboveD) reply) o above b) :
    LeadsDown p m.metadata.toAddress ∨
      (m.metadata.fromAddress.length = 1 ∧ TurnsAtOnce p m.metadata.toAddress) ∨
      ∃ head next rest, stripped p.address m.metadata.toAddress = head :: next :: rest ∧
        ∀ sp, p.child head = some sp → ¬Leads p sp (next :: rest) := by
  cases strips : stripped p.address m.metadata.toAddress with
  | nil =>
      rw [send_nil strips] at success
      cases success
      cases delivered
  | cons head others =>
      cases others with
      | nil =>
          rw [send_box strips] at success
          by_cases there : head ∈ p.boxes
          · exact .inl (.here strips there)
          · rw [if_neg there] at success
            cases success
            cases delivered
      | cons next rest =>
          by_cases led : ∃ sp, p.child head = some sp ∧ Leads p sp (next :: rest)
          · obtain ⟨sp, found, leads⟩ := led
            cases leads_down_or_turns leads with
            | inl down => exact .inl (.down strips found down)
            | inr turns =>
                have whole := distinct.reached place
                have member := (Office.mem_offices_of_child found).1
                obtain ⟨q, c, below, x, lower, within, at?, delivers⟩ :=
                  turns_send sendOutside turns whole member
                have tried := delivers (unlocked higher)
                  (m.addressed (next :: rest) (p.address :: m.metadata.fromAddress))
                  m.metadata.fromAddress rfl rfl
                have sends := send_taken strips ((tryChild_some found).trans tried)
                cases sends.symm.trans success
                cases List.mem_singleton.mp delivered
                -- Two addresses after the office's own make the reply lock it again.
                have stuck (first second : Bytes) (further : Address)
                    (long : below.map Office.address ++ m.metadata.fromAddress =
                      first :: second :: further) : False := by
                  have returns : reply.metadata.toAddress =
                      c.address :: od.address :: first :: second :: further := by
                    rw [answers, addressed_fromAddress, long]
                  have relocks := @turned_reply_relocks _ replyOutside od c
                    (whole.reached lower) within
                    (unlocked (below ++ (unlocked higher).map (·.1))) reply _ _ _ returns
                  obtain ⟨m', arrives⟩ := reaches
                  cases relocks.symm.trans arrives
                have short : (below.map Office.address ++ m.metadata.fromAddress).length ≤ 1 := by
                  cases collected : below.map Office.address ++ m.metadata.fromAddress with
                  | nil => exact Nat.zero_le _
                  | cons first others =>
                      cases others with
                      | nil => exact le_rfl
                      | cons second further => exact (stuck first second further collected).elim
                rw [List.length_append, List.length_map] at short
                have some? := List.length_pos_iff.mpr signed
                have none? : below = [] := List.length_eq_zero_iff.mp (by omega)
                obtain ⟨there, turned⟩ := at? none?
                refine .inr (.inl ⟨by omega, ?_⟩)
                exact ⟨head, next, rest, sp, d, strips, found, turned, there⟩
          · refine .inr (.inr ⟨head, next, rest, rfl, fun sp found leads => ?_⟩)
            exact led ⟨sp, found, leads⟩

/-- Only a message that went straight, or turned back from an office right below
the first one, has a way back. -/
private theorem straight_or_turns {root p : Office} {higher : List Office}
    {replyOutside : Message Double → Bool} (distinct : root.Distinct)
    (place : Office.At root p higher) {m : Message Double} {sent : Sent Double}
    (success : send sendOutside p false (unlocked higher) m = .ok sent) {aboveD : List Office}
    {d : Bytes} {received : Message Double}
    (delivered : .inbox od aboveD d received ∈ sent.deliveries)
    (signed : m.metadata.fromAddress ≠ []) {reply : Message Double}
    (answers : reply.metadata.toAddress = received.metadata.fromAddress)
    (reaches : Reaches (send replyOutside od false (unlocked aboveD) reply) o above b) :
    Straight p higher m.metadata.toAddress ∨
      (m.metadata.fromAddress.length = 1 ∧ TurnsAtOnce p m.metadata.toAddress) := by
  induction higher generalizing p m with
  | nil =>
      rcases down_or_turns_or_unled distinct place success delivered signed answers reaches with
        down | turns | ⟨head, next, rest, more, unled⟩
      · exact .inl (.down down)
      · exact .inr turns
      · have further := send_unled more unled success
        cases further
        cases List.mem_singleton.mp delivered
  | cons parent higher ih =>
      rcases down_or_turns_or_unled distinct place success delivered signed answers reaches with
        down | turns | ⟨head, next, rest, more, unled⟩
      · exact .inl (.down down)
      · exact .inr turns
      · have further := send_unled more unled success
        have onwards := ih (place.upper parent higher rfl).1 further (List.cons_ne_nil _ _)
        cases onwards with
        | inl straight => exact .inl (.up more unled straight)
        | inr turns =>
            have short : m.metadata.fromAddress.length = 0 := Nat.succ.inj turns.1
            exact absurd (List.length_eq_zero_iff.mp short) signed

end Ways

section Replies

variable {root o od : Office} {above aboveD : List Office} {b d : Bytes}
  {sendOutside replyOutside : Message Double → Bool} {m received reply : Message Double}
  {sent : Sent Double}

private theorem sendThread_signs (success : sendThread sendOutside o above b m = .ok sent)
    (some? : sent.deliveries ≠ []) :
    ∃ signed : Message Double, signed.metadata.toAddress = m.metadata.toAddress ∧
      signed.metadata.fromAddress = [b] ∧
      send sendOutside o false (unlocked above) signed = .ok sent := by
  unfold sendThread at success
  split at success
  · rename_i alone
    have none? : m.metadata.fromAddress = [] := List.length_eq_zero_iff.mp (Nat.succ.inj alone)
    rw [none?] at success
    exact ⟨m.addressed m.metadata.toAddress [b], rfl, rfl, success⟩
  · cases success
    exact absurd rfl some?

private theorem sendThread_unsigned (unsigned : m.metadata.fromAddress = []) :
    sendThread sendOutside o above b m =
      send sendOutside o false (unlocked above) (m.addressed m.metadata.toAddress [b]) := by
  rw [sendThread, unsigned]
  rfl

/-- In a tree of offices with distinct addresses, an answer to a message arrives
where the message came from exactly when the message went straight, or turned
back from an office right below. -/
theorem reply_reaches_iff (distinct : root.Distinct) (place : Office.At root o above)
    (there : b ∈ o.boxes) (success : sendThread sendOutside o above b m = .ok sent)
    (delivered : .inbox od aboveD d received ∈ sent.deliveries)
    (answers : reply.metadata.toAddress = received.metadata.fromAddress)
    (unsigned : reply.metadata.fromAddress = []) :
    Reaches (sendThread replyOutside od aboveD d reply) o above b ↔
      Straight o above m.metadata.toAddress ∨ TurnsAtOnce o m.metadata.toAddress := by
  obtain ⟨signed, leads, signs, sends⟩ := sendThread_signs success (List.ne_nil_of_mem delivered)
  have returns : (reply.addressed reply.metadata.toAddress [d]).metadata.toAddress =
      received.metadata.fromAddress := answers
  rw [sendThread_unsigned unsigned, ← leads]
  constructor
  · intro reaches
    have some? : signed.metadata.fromAddress ≠ [] := by
      rw [signs]
      exact List.cons_ne_nil _ _
    rcases straight_or_turns distinct place sends delivered some? returns reaches with
      straight | ⟨-, turns⟩
    · exact .inl straight
    · exact .inr turns
  · intro ways
    cases ways with
    | inl straight =>
        exact straight_reaches straight distinct place (returns_here there) rfl signs sends
          delivered returns
    | inr turns =>
        obtain ⟨head, next, rest, sp, x, strips, found, turned, box⟩ := turns
        have member := (Office.mem_offices_of_child found).1
        have whole := distinct.reached place
        have tried := @back_send _ sendOutside sp o whole member x box (unlocked above)
          (signed.addressed (next :: rest) (o.address :: signed.metadata.fromAddress)) turned
        have turns := send_taken strips ((tryChild_some found).trans tried)
        cases turns.symm.trans sends
        cases List.mem_singleton.mp delivered
        have back : reply.metadata.toAddress = [sp.address, o.address, b] := by
          rw [answers, addressed_fromAddress, addressed_fromAddress, signs]
        have reaches := @turned_reply_reaches _ replyOutside o sp whole member b there
          (unlocked above) (reply.addressed reply.metadata.toAddress [d]) back
        rw [unlocked_offices] at reaches ⊢
        exact reaches

end Replies

/-- An office `o` with a mailbox `b`. -/
def boxOffice : Office := .mk [111] [[98]] []

/-- An office `p` with a mailbox `d`, which holds `o` and an office `c`. -/
def boxTree : Office := .mk [112] [[100]] [boxOffice, .mk [99] [] []]

private theorem boxTree_distinct : boxTree.Distinct := by
  change [[112], [111], [99]].Nodup
  decide

private theorem boxOffice_at : Office.At boxTree boxOffice [boxTree] :=
  .child .root List.mem_cons_self

def toParent : Message Nat where
  metadata := { toAddress := [[112], [100]] }

def toBox : Message Nat where
  metadata := { toAddress := [[111], [98]] }

theorem parent_reply_reaches :
    Reaches (sendThread (fun _ => false) boxTree [] [100] toBox) boxOffice [boxTree] [98] := by
  have more : stripped boxOffice.address
      (toParent.addressed toParent.metadata.toAddress [[98]]).metadata.toAddress =
        [[112], [100]] :=
    stripped_of_ne (by decide)
  have box : stripped boxTree.address [[112], [100]] = [[100]] :=
    stripped_cons (List.cons_ne_nil _ _)
  have sends := @send_further _ (fun _ => false) boxOffice (unlocked [boxTree])
    (toParent.addressed toParent.metadata.toAddress [[98]]) _ _ _ more (tryChild_none rfl)
  have arrives := @send_box _ (fun _ => false) boxTree false (unlocked [])
    (toParent.addressed [[112], [100]] [[111], [98]]) _ box
  have held : [100] ∈ boxTree.boxes := List.mem_cons_self
  rw [if_pos held] at arrives
  have success := (sendThread_unsigned rfl).trans (sends.trans arrives)
  have straight : Straight boxOffice [boxTree] toParent.metadata.toAddress :=
    .up more (fun sp none? => Option.some_ne_none sp none?.symm |>.elim)
      (.down (.here box List.mem_cons_self))
  exact (reply_reaches_iff boxTree_distinct boxOffice_at List.mem_cons_self success
    List.mem_cons_self rfl rfl).mpr (.inl straight)

def roundAbout : Message Nat where
  metadata := { toAddress := [[99], [112], [100]] }

/-- `b` sends to `d` by the name of `c`, and the answer of `d` never leaves `p`. -/
theorem turned_reply_relocked :
    boxTree.Distinct ∧ Office.At boxTree boxOffice [boxTree] ∧ ∃ sent received,
      sendThread (fun _ => false) boxOffice [boxTree] [98] roundAbout = .ok sent ∧
      .inbox boxTree [] [100] received ∈ sent.deliveries ∧
      received.metadata.fromAddress = [[99], [112], [111], [98]] ∧
      sendThread (fun _ : Message Nat => false) boxTree [] [100]
        { metadata := { toAddress := received.metadata.fromAddress } } = .error (.postM [112]) := by
  have inside : Office.mk [99] [] [] ∈ boxTree.offices := List.mem_cons_of_mem _ List.mem_cons_self
  have more : stripped boxOffice.address
      (roundAbout.addressed roundAbout.metadata.toAddress [[98]]).metadata.toAddress =
        [[99], [112], [100]] :=
    stripped_of_ne (by decide)
  have sends := @send_further _ (fun _ => false) boxOffice (unlocked [boxTree])
    (roundAbout.addressed roundAbout.metadata.toAddress [[98]]) _ _ _ more (tryChild_none rfl)
  have turns : stripped (Office.mk [99] [] []).address [[112], [100]] = [[112], [100]] :=
    stripped_of_ne (by decide)
  have tried := @back_send _ (fun _ => false) (.mk [99] [] []) boxTree boxTree_distinct inside
    [100] List.mem_cons_self (unlocked [])
    (roundAbout.addressed [[112], [100]] [[112], [111], [98]]) turns
  have down : stripped boxTree.address [[99], [112], [100]] = [[99], [112], [100]] :=
    stripped_of_ne (by decide)
  have found : boxTree.child [99] = some (.mk [99] [] []) := rfl
  have arrives := @send_taken _ (fun _ => false) boxTree (unlocked [])
    (roundAbout.addressed [[99], [112], [100]] [[111], [98]]) _ _ _ _ down
    ((tryChild_some found).trans tried)
  refine ⟨boxTree_distinct, boxOffice_at, _, _,
    (sendThread_unsigned rfl).trans (sends.trans arrives), List.mem_cons_self, rfl, ?_⟩
  rw [sendThread_unsigned rfl]
  exact turned_reply_relocks boxTree_distinct inside _ _ rfl

end Firestr.Messages
