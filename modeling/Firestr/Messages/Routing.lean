import Firestr.Messages.PostOffice

/-! Which messages a post office routes without locking one of its locks twice.
A list of addresses may lead down to a mailbox, or up from an office to which it
names no way down. -/

set_option autoImplicit false

namespace Firestr.Messages

open Firestr.Util

variable {Double : Type}

/-- From an office under a locked parent, the list leads to a mailbox: of the
office, of an office that it names below, or of the office right above the last. -/
inductive Leads : Office → Office → Address → Prop where
  | here {parent o : Office} {toAddress : Address} {x : Bytes} :
      stripped o.address toAddress = [x] → x ∈ o.boxes → Leads parent o toAddress
  | back {parent o : Office} {toAddress : Address} {x : Bytes} :
      stripped o.address toAddress = [parent.address, x] → x ∈ parent.boxes →
      Leads parent o toAddress
  | down {parent o sp : Office} {toAddress : Address} {head next : Bytes} {rest : Address} :
      stripped o.address toAddress = head :: next :: rest → o.child head = some sp →
      Leads o sp (next :: rest) → Leads parent o toAddress

/-- The list ends at the office or right above it, at a mailbox that may be missing. -/
def EndsAt (parent o : Office) (toAddress : Address) : Prop :=
  (stripped o.address toAddress).length ≤ 1 ∨
    ∃ x, stripped o.address toAddress = [parent.address, x]

/-- At the office, and above it as long as no office below has the mailbox, the
list ends in the child that it names, or leads from the child to a mailbox. -/
inductive Walkable : Office → List Office → Address → Prop where
  | box {o : Office} {above : List Office} {toAddress : Address} :
      (stripped o.address toAddress).length ≤ 1 → Walkable o above toAddress
  | down {o sp : Office} {above : List Office} {toAddress : Address} {head next : Bytes}
      {rest : Address} : stripped o.address toAddress = head :: next :: rest →
      o.child head = some sp → Leads o sp (next :: rest) → Walkable o above toAddress
  | up {o : Office} {above : List Office} {toAddress : Address} {head next : Bytes}
      {rest : Address} : stripped o.address toAddress = head :: next :: rest →
      (∀ sp, o.child head = some sp → EndsAt o sp (next :: rest)) →
      (∀ parent higher, above = parent :: higher →
        Walkable parent higher (head :: next :: rest)) →
      Walkable o above toAddress

/-- No thread holds a lock before `send` is called. -/
def unlocked (above : List Office) : List (Office × Bool) := above.map fun o => (o, false)

/-- `send` returns, without a lock that is taken twice, and has delivered the
message to one inbox, or outside once, or nowhere. -/
def Routes (sendOutside : Message Double → Bool) (o : Office) (above : List Office)
    (m : Message Double) : Prop :=
  ∃ sent, send sendOutside o false (unlocked above) m = .ok sent ∧ sent.deliveries.length ≤ 1

section Send

variable {sendOutside : Message Double → Bool} {o parent : Office} {locked : Bool}
  {above : List (Office × Bool)} {m : Message Double} {head next x : Bytes} {rest : Address}

theorem send_nil (none? : stripped o.address m.metadata.toAddress = []) :
    send sendOutside o locked above m = .ok { returned := false } := by
  unfold send
  split
  · rfl
  · rename_i one
    cases none?.symm.trans one
  · rename_i more
    cases none?.symm.trans more

theorem send_box (one : stripped o.address m.metadata.toAddress = [x]) :
    send sendOutside o locked above m = if x ∈ o.boxes then .ok {
        returned := true
        deliveries := [.inbox o (above.map (·.1)) x (m.addressed [x] m.metadata.fromAddress)] }
      else .ok { returned := false } := by
  unfold send
  split
  · rename_i none?
    cases none?.symm.trans one
  · rename_i same
    cases same.symm.trans one
    rfl
  · rename_i more
    cases more.symm.trans one

theorem send_relocks (more : stripped o.address m.metadata.toAddress = head :: next :: rest) :
    send sendOutside o true above m = .error (.postM o.address) := by
  unfold send
  split
  · rename_i none?
    cases none?.symm.trans more
  · rename_i one
    cases one.symm.trans more
  · rfl

/-- `send` to the child that the list names, if there is one. -/
def tryChild (sendOutside : Message Double → Bool) (o : Office) (above : List (Office × Bool))
    (m : Message Double) (head : Bytes) (rest : Address) : Except Relock (Sent Double) :=
  match o.child head with
  | none => .ok { returned := false }
  | some sp =>
    send sendOutside sp false ((o, true) :: above)
      (m.addressed rest (o.address :: m.metadata.fromAddress))

/-- `send` to the parent, or outside. -/
def sendFurther (sendOutside : Message Double → Bool) (above : List (Office × Bool))
    (m : Message Double) : Except Relock (Sent Double) :=
  match above with
  | [] => .ok {
      returned := sendOutside m
      deliveries := [.outside m] }
  | (parent, held) :: higher => send sendOutside parent held higher m

theorem send_route (more : stripped o.address m.metadata.toAddress = head :: next :: rest) :
    send sendOutside o false above m = (do
      let tried ← tryChild sendOutside o above m head (next :: rest)
      if tried.returned then .ok tried
      else
        let further ← sendFurther sendOutside above
          (m.addressed (head :: next :: rest) (o.address :: m.metadata.fromAddress))
        .ok { further with deliveries := tried.deliveries ++ further.deliveries }) := by
  rw [send]
  split
  · rename_i none?
    cases none?.symm.trans more
  · rename_i one
    cases one.symm.trans more
  · rename_i same
    cases same.symm.trans more
    rfl

theorem tryChild_some {sp : Office} (found : o.child head = some sp) :
    tryChild sendOutside o above m head rest = send sendOutside sp false ((o, true) :: above)
      (m.addressed rest (o.address :: m.metadata.fromAddress)) := by
  rw [tryChild, found]

theorem tryChild_none (found : o.child head = none) :
    tryChild sendOutside o above m head rest = .ok { returned := false } := by
  rw [tryChild, found]

/-- An office whose child has delivered the message is done. -/
theorem send_taken {delivery : Delivery Double}
    (more : stripped o.address m.metadata.toAddress = head :: next :: rest)
    (tried : tryChild sendOutside o above m head (next :: rest) = .ok {
      returned := true
      deliveries := [delivery] }) :
    send sendOutside o false above m = .ok {
      returned := true
      deliveries := [delivery] } := by
  rw [send_route more, tried]
  rfl

/-- An office whose child gives the message back sends it on. -/
theorem send_further
    (more : stripped o.address m.metadata.toAddress = head :: next :: rest)
    (tried : tryChild sendOutside o above m head (next :: rest) = .ok { returned := false }) :
    send sendOutside o false above m = sendFurther sendOutside above
      (m.addressed (head :: next :: rest) (o.address :: m.metadata.fromAddress)) := by
  rw [send_route more, tried]
  cases sendFurther sendOutside above
    (m.addressed (head :: next :: rest) (o.address :: m.metadata.fromAddress)) with
  | error fault => rfl
  | ok further => rfl

theorem stripped_of_length_le_one {address : Bytes} {toAddress : Address}
    (short : toAddress.length ≤ 1) : stripped address toAddress = toAddress := by
  rw [stripped, if_neg]
  exact fun long => absurd short (Nat.not_le.mpr long.1)

theorem stripped_cons {address : Bytes} {toAddress : Address} (some? : toAddress ≠ []) :
    stripped address (address :: toAddress) = toAddress := by
  rw [stripped, if_pos]
  · rfl
  · exact ⟨Nat.succ_lt_succ (List.length_pos_iff.mpr some?), rfl⟩

theorem stripped_of_ne {address : Bytes} {toAddress : Address} (other : head ≠ address) :
    stripped address (head :: toAddress) = head :: toAddress := by
  rw [stripped, if_neg]
  exact fun long => other (Option.some.inj long.2)

@[simp] theorem addressed_fromAddress {toAddress fromAddress : Address} :
    (m.addressed toAddress fromAddress).metadata.fromAddress = fromAddress := rfl

/-- What becomes of a message that a child gives back to its parent, which holds
its lock: the list has to end there. -/
private theorem send_back (parent : Office) (above : List (Office × Bool)) (m : Message Double)
    (more : m.metadata.toAddress = head :: next :: rest) :
    (∃ x, m.metadata.toAddress = [parent.address, x] ∧
      ((x ∈ parent.boxes ∧ ∃ delivery, send sendOutside parent true above m = .ok {
          returned := true
          deliveries := [delivery] }) ∨
        (x ∉ parent.boxes ∧
          send sendOutside parent true above m = .ok { returned := false }))) ∨
    ((∀ x, m.metadata.toAddress ≠ [parent.address, x]) ∧
      ∃ fault, send sendOutside parent true above m = .error fault) := by
  by_cases ends : ∃ x, m.metadata.toAddress = [parent.address, x]
  · obtain ⟨x, whole⟩ := ends
    refine .inl ⟨x, whole, ?_⟩
    have one : stripped parent.address m.metadata.toAddress = [x] := by
      rw [whole]
      exact stripped_cons (List.cons_ne_nil _ _)
    rw [send_box one]
    by_cases there : x ∈ parent.boxes
    · rw [if_pos there]
      exact .inl ⟨there, _, rfl⟩
    · rw [if_neg there]
      exact .inr ⟨there, rfl⟩
  · have never : ∀ x, m.metadata.toAddress ≠ [parent.address, x] := fun x whole =>
      ends ⟨x, whole⟩
    refine .inr ⟨never, ?_⟩
    -- At least two addresses are left after the parent's own, so it locks again.
    have long : ∃ first second others,
        stripped parent.address m.metadata.toAddress = first :: second :: others := by
      rw [more]
      by_cases own : head = parent.address
      · subst own
        rw [stripped_cons (List.cons_ne_nil _ _)]
        cases rest with
        | nil => exact absurd more (never next)
        | cons third others => exact ⟨next, third, others, rfl⟩
      · exact ⟨head, next, rest, stripped_of_ne own⟩
    obtain ⟨first, second, others, stays⟩ := long
    exact ⟨_, send_relocks stays⟩

/-- What becomes of a message that a locked parent hands to a child. -/
inductive Descent (sendOutside : Message Double → Bool) (parent o : Office)
    (above : List (Office × Bool)) (m : Message Double) : Prop where
  | delivered {delivery : Delivery Double} : Leads parent o m.metadata.toAddress →
      send sendOutside o false ((parent, true) :: above) m = .ok {
        returned := true
        deliveries := [delivery] } → Descent sendOutside parent o above m
  | declined : ¬Leads parent o m.metadata.toAddress → EndsAt parent o m.metadata.toAddress →
      send sendOutside o false ((parent, true) :: above) m = .ok { returned := false } →
      Descent sendOutside parent o above m
  | relocked {fault : Relock} : ¬Leads parent o m.metadata.toAddress →
      ¬EndsAt parent o m.metadata.toAddress →
      send sendOutside o false ((parent, true) :: above) m = .error fault →
      Descent sendOutside parent o above m

private theorem leads_singleton {toAddress : Address}
    (one : stripped o.address toAddress = [x]) : Leads parent o toAddress ↔ x ∈ o.boxes := by
  constructor
  · intro leads
    cases leads with
    | here same there =>
        cases same.symm.trans one
        exact there
    | back more => cases more.symm.trans one
    | down more => cases more.symm.trans one
  · exact fun there => .here one there

private theorem not_leads_nil {toAddress : Address}
    (none? : stripped o.address toAddress = []) : ¬Leads parent o toAddress := by
  intro leads
  cases leads with
  | here one => cases one.symm.trans none?
  | back more => cases more.symm.trans none?
  | down more => cases more.symm.trans none?

private theorem leads_cons {toAddress : Address}
    (more : stripped o.address toAddress = head :: next :: rest) :
    Leads parent o toAddress ↔
      (∃ x ∈ parent.boxes, head :: next :: rest = [parent.address, x]) ∨
        ∃ sp, o.child head = some sp ∧ Leads o sp (next :: rest) := by
  constructor
  · intro leads
    cases leads with
    | here one => cases one.symm.trans more
    | back ends there => exact .inl ⟨_, there, more.symm.trans ends⟩
    | down same found leads =>
        cases same.symm.trans more
        exact .inr ⟨_, found, leads⟩
  · rintro (⟨x, there, ends⟩ | ⟨sp, found, leads⟩)
    · exact .back (more.trans ends) there
    · exact .down more found leads

private theorem endsAt_cons {toAddress : Address}
    (more : stripped o.address toAddress = head :: next :: rest) :
    EndsAt parent o toAddress ↔ ∃ x, head :: next :: rest = [parent.address, x] := by
  rw [EndsAt, more]
  constructor
  · rintro (short | ends)
    · exact absurd short (by simp)
    · exact ends
  · exact .inr

private theorem endsAt_of_singleton {toAddress : Address} (short : toAddress.length ≤ 1) :
    EndsAt parent o toAddress := by
  refine .inl ?_
  exact (length_stripped_le _ _).trans short

private theorem descent_back
    (more : stripped o.address m.metadata.toAddress = head :: next :: rest)
    (tried : tryChild sendOutside o ((parent, true) :: above) m head (next :: rest) =
      .ok { returned := false })
    (unled : ∀ sp, o.child head = some sp → ¬Leads o sp (next :: rest)) :
    Descent sendOutside parent o above m := by
  have back : send sendOutside o false ((parent, true) :: above) m = (do
      let further ← send sendOutside parent true above
        (m.addressed (head :: next :: rest) (o.address :: m.metadata.fromAddress))
      .ok further) := by
    rw [send_route more, tried]
    rfl
  have result := @send_back _ sendOutside head next rest parent above
    (m.addressed (head :: next :: rest) (o.address :: m.metadata.fromAddress)) rfl
  rcases result with ⟨x, whole, ⟨there, delivery, success⟩ | ⟨missing, success⟩⟩ |
    ⟨never, fault, failure⟩
  · have sent : send sendOutside o false ((parent, true) :: above) m = .ok {
        returned := true
        deliveries := [delivery] } := by
      rw [back, success]
      rfl
    exact .delivered ((leads_cons more).mpr (.inl ⟨x, there, whole⟩)) sent
  · refine .declined (fun leads => ?_) ((endsAt_cons more).mpr ⟨x, whole⟩) ?_
    · rcases (leads_cons more).mp leads with ⟨y, there, ends⟩ | ⟨sp, found, leads⟩
      · cases whole.symm.trans ends
        exact missing there
      · exact unled sp found leads
    · rw [back, success]
      rfl
  · have sent : send sendOutside o false ((parent, true) :: above) m = .error fault := by
      rw [back, failure]
      rfl
    refine .relocked (fun leads => ?_) (fun ends => ?_) sent
    · rcases (leads_cons more).mp leads with ⟨y, there, ends⟩ | ⟨sp, found, leads⟩
      · exact never y ends
      · exact unled sp found leads
    · obtain ⟨y, ends⟩ := (endsAt_cons more).mp ends
      exact never y ends

/-- What a child does with a message follows the list from office to office. -/
theorem descent (n : Nat) (parent o : Office) (above : List (Office × Bool))
    (m : Message Double) (bound : m.metadata.toAddress.length ≤ n) :
    Descent sendOutside parent o above m := by
  induction n generalizing parent o above m with
  | zero =>
      have empty := List.length_eq_zero_iff.mp (Nat.le_zero.mp bound)
      have none? : stripped o.address m.metadata.toAddress = [] := by
        rw [empty]
        exact stripped_of_length_le_one (Nat.zero_le _)
      exact .declined (not_leads_nil none?) (endsAt_of_singleton (by rw [empty]; decide))
        (send_nil none?)
  | succ n ih =>
      have short := length_stripped_le o.address m.metadata.toAddress
      cases strips : stripped o.address m.metadata.toAddress with
      | nil =>
          have ends : EndsAt parent o m.metadata.toAddress := by
            refine .inl ?_
            rw [strips]
            exact Nat.zero_le _
          exact .declined (not_leads_nil strips) ends (send_nil strips)
      | cons head others =>
          cases others with
          | nil =>
              have result := @send_box _ sendOutside o false ((parent, true) :: above) m _ strips
              by_cases there : head ∈ o.boxes
              · rw [if_pos there] at result
                exact .delivered (.here strips there) result
              · rw [if_neg there] at result
                have ends : EndsAt parent o m.metadata.toAddress := by
                  refine .inl ?_
                  rw [strips]
                  exact le_rfl
                exact .declined (fun leads => there ((leads_singleton strips).mp leads)) ends result
          | cons next rest =>
              rw [strips] at short
              have shorter : (next :: rest).length ≤ n :=
                Nat.le_of_succ_le_succ (short.trans bound)
              cases found : o.child head with
              | none =>
                  refine descent_back strips (tryChild_none found) fun sp other => ?_
                  cases found.symm.trans other
              | some sp =>
                  have tries := @tryChild_some _ sendOutside o ((parent, true) :: above) m head
                    (next :: rest) sp found
                  have below := ih o sp ((parent, true) :: above)
                    (m.addressed (next :: rest) (o.address :: m.metadata.fromAddress)) shorter
                  cases below with
                  | @delivered delivery leads success =>
                      have sent := send_taken strips (tries.trans success)
                      exact .delivered (.down strips found leads) sent
                  | declined unled _ success =>
                      refine descent_back strips (tries.trans success) fun other same => ?_
                      cases found.symm.trans same
                      exact unled
                  | @relocked fault unled stays failure =>
                      have sent : send sendOutside o false ((parent, true) :: above) m =
                          .error fault := by
                        rw [send_route strips, tries, failure]
                        rfl
                      have long : ∀ x, head :: next :: rest ≠ [parent.address, x] := by
                        intro x ends
                        cases ends
                        exact stays (endsAt_of_singleton le_rfl)
                      refine .relocked (fun leads => ?_) (fun ends => ?_) sent
                      · rcases (leads_cons strips).mp leads with ⟨x, -, ends⟩ | ⟨other, same, leads⟩
                        · exact long x ends
                        · cases found.symm.trans same
                          exact unled leads
                      · obtain ⟨x, ends⟩ := (endsAt_cons strips).mp ends
                        exact long x ends

end Send

section Office

variable {sendOutside : Message Double → Bool} {o : Office} {above : List Office}
  {m : Message Double} {head next : Bytes} {rest : Address}

private theorem walkable_further {toAddress : Address}
    (more : stripped o.address toAddress = head :: next :: rest)
    (unled : ∀ sp, o.child head = some sp → ¬Leads o sp (next :: rest))
    (ends : ∀ sp, o.child head = some sp → EndsAt o sp (next :: rest)) :
    Walkable o above toAddress ↔ ∀ parent higher, above = parent :: higher →
      Walkable parent higher (head :: next :: rest) := by
  constructor
  · intro walkable
    cases walkable with
    | box short =>
        rw [more] at short
        exact absurd short (by simp)
    | down same found leads =>
        cases same.symm.trans more
        exact absurd leads (unled _ found)
    | up same _ further =>
        cases same.symm.trans more
        exact further
  · intro further
    exact .up more ends further

private theorem routes_further
    (more : stripped o.address m.metadata.toAddress = head :: next :: rest)
    (tried : tryChild sendOutside o (unlocked above) m head (next :: rest) =
      .ok { returned := false }) :
    Routes sendOutside o above m ↔ ∀ parent higher, above = parent :: higher →
      Routes sendOutside parent higher
        (m.addressed (head :: next :: rest) (o.address :: m.metadata.fromAddress)) := by
  rw [Routes, send_further more tried]
  cases above with
  | nil =>
      constructor
      · intro _ parent higher none?
        cases none?
      · intro _
        exact ⟨_, rfl, le_rfl⟩
  | cons parent higher =>
      constructor
      · intro routes _ _ same
        cases same
        exact routes
      · intro routes
        exact routes parent higher rfl

/-- One office of the way up, when the offices above it route as their lists say. -/
private theorem routes_iff_of_above
    (higher? : ∀ parent higher, above = parent :: higher → ∀ m : Message Double,
      Routes sendOutside parent higher m ↔ Walkable parent higher m.metadata.toAddress) :
    Routes sendOutside o above m ↔ Walkable o above m.metadata.toAddress := by
  have further (head next : Bytes) (rest : Address)
      (more : stripped o.address m.metadata.toAddress = head :: next :: rest)
      (tried : tryChild sendOutside o (unlocked above) m head (next :: rest) =
        .ok { returned := false })
      (unled : ∀ sp, o.child head = some sp → ¬Leads o sp (next :: rest))
      (ends : ∀ sp, o.child head = some sp → EndsAt o sp (next :: rest)) :
      Routes sendOutside o above m ↔ Walkable o above m.metadata.toAddress := by
    rw [routes_further more tried, walkable_further more unled ends]
    constructor
    · intro routes parent higher same
      exact (higher? parent higher same _).mp (routes parent higher same)
    · intro walkable parent higher same
      exact (higher? parent higher same _).mpr (walkable parent higher same)
  cases strips : stripped o.address m.metadata.toAddress with
  | nil =>
      have short : (stripped o.address m.metadata.toAddress).length ≤ 1 := by
        rw [strips]
        exact Nat.zero_le _
      exact ⟨fun _ => .box short, fun _ => ⟨_, send_nil strips, Nat.zero_le _⟩⟩
  | cons head others =>
      cases others with
      | nil =>
          have short : (stripped o.address m.metadata.toAddress).length ≤ 1 := by
            rw [strips]
            exact le_rfl
          refine ⟨fun _ => .box short, fun _ => ?_⟩
          rw [Routes, send_box strips]
          split
          · exact ⟨_, rfl, le_rfl⟩
          · exact ⟨_, rfl, Nat.zero_le _⟩
      | cons next rest =>
          cases found : o.child head with
          | none =>
              have none? (sp : Office) : o.child head ≠ some sp := by
                rw [found]
                exact (Option.some_ne_none sp).symm
              exact further head next rest strips (tryChild_none found)
                (fun sp other => absurd other (none? sp)) fun sp other => absurd other (none? sp)
          | some sp =>
              have tries := @tryChild_some _ sendOutside o (unlocked above) m head (next :: rest) sp
                found
              have only (other : Office) (same : o.child head = some other) : other = sp :=
                Option.some.inj (same.symm.trans found)
              have below := @descent _ sendOutside _ o sp (unlocked above)
                (m.addressed (next :: rest) (o.address :: m.metadata.fromAddress)) le_rfl
              cases below with
              | @delivered delivery leads success =>
                  have sent := send_taken strips (tries.trans success)
                  exact ⟨fun _ => .down strips found leads, fun _ => ⟨_, sent, le_rfl⟩⟩
              | declined unled ends success =>
                  refine further head next rest strips (tries.trans success) ?_ ?_
                  · intro other same
                    rw [only other same]
                    exact unled
                  · intro other same
                    rw [only other same]
                    exact ends
              | @relocked fault unled stays failure =>
                  have stuck : send sendOutside o false (unlocked above) m = .error fault := by
                    rw [send_route strips, tries, failure]
                    rfl
                  constructor
                  · rintro ⟨sent, success, -⟩
                    cases stuck.symm.trans success
                  · intro walkable
                    cases walkable with
                    | box short =>
                        rw [strips] at short
                        exact absurd short (by simp)
                    | down same found' leads =>
                        cases same.symm.trans strips
                        rw [only _ found'] at leads
                        exact absurd leads unled
                    | up same ends _ =>
                        cases same.symm.trans strips
                        exact absurd (ends sp found) stays

/-- A message is routed exactly when its list can be walked in this way. -/
theorem routes_iff_walkable (sendOutside : Message Double → Bool) (o : Office)
    (above : List Office) (m : Message Double) :
    Routes sendOutside o above m ↔ Walkable o above m.metadata.toAddress := by
  induction above generalizing o m with
  | nil =>
      exact routes_iff_of_above fun parent higher none? => (List.cons_ne_nil _ _ none?.symm).elim
  | cons parent higher ih =>
      refine routes_iff_of_above fun other others same => ?_
      cases same
      exact ih parent

end Office

/-- An office `a` that holds `b`, which holds nothing. -/
def bareTree : Office := .mk [97] [] [.mk [98] [] []]

/-- A message to `d` in an office `c` of `b`. -/
def lostMessage : Message Nat where
  metadata := { toAddress := [[98], [99], [100]] }

/-- `b` cannot route the message, and gives it to `a`, which waits for `b`. -/
theorem lost_message_relocks :
    send (fun _ => false) bareTree false [] lostMessage = .error (.postM [97]) ∧
      ¬Routes (fun _ => false) bareTree [] lostMessage := by
  have relocks : send (fun _ => false) bareTree false (unlocked []) lostMessage =
      .error (.postM [97]) := by
    have whole : stripped bareTree.address lostMessage.metadata.toAddress = [[98], [99], [100]] :=
      stripped_of_ne (by decide)
    rw [send_route whole]
    have handed : send (fun _ => false) (.mk [98] [] []) false [(bareTree, true)]
        (lostMessage.addressed [[99], [100]] [[97]]) = .error (.postM [97]) := by
      have below : stripped (Office.mk [98] [] []).address
          (lostMessage.addressed [[99], [100]] [[97]]).metadata.toAddress = [[99], [100]] :=
        stripped_of_ne (by decide)
      have returned : stripped bareTree.address
          (lostMessage.addressed [[99], [100]] [[98], [97]]).metadata.toAddress = [[99], [100]] :=
        stripped_of_ne (by decide)
      rw [send_further below rfl]
      exact send_relocks returned
    have tried : tryChild (fun _ => false) bareTree (unlocked []) lostMessage [98] [[99], [100]] =
        .error (.postM [97]) := handed
    rw [tried]
    rfl
  refine ⟨relocks, ?_⟩
  rintro ⟨sent, success, -⟩
  cases relocks.symm.trans success

end Firestr.Messages
