import Firestr.Library.Runs
import Firestr.User.ContactStates

/-! Runs of the user service: how the contact states move, and when the checks
of the contact states hold. -/

set_option autoImplicit false

namespace Firestr.User

open Firestr.Library.Outcomes Firestr.Library.Runs Firestr.Security Firestr.Util

variable {Public : Type} {publicValue : Nat → Public}

/-- What an input may do to the state of the contact `id`. -/
inductive Moves (input : ContactInput Public) (id : String) :
    ContactState → ContactState → Prop where
  | stay (state : ContactState) : Moves input id state state
  | connecting {r : ConnectRequest Public} {idle : Bool} :
      input = .connectRequest r idle → r.fromId = id → Moves input id .offline .connecting
  | connected {data : Bytes} : input = .ping id data → Moves input id .connecting .connected
  | dropped {data : Bytes} {state : ContactState} :
      input = .ping id data → state ≠ .offline → Moves input id state .offline
  | expired {idle : Bool} {state : ContactState} :
      input = .tick idle → state ≠ .offline → Moves input id state .offline

/-- The ticks of one round take a contact offline once. -/
theorem Moves.trans_tick {id : String} {idle : Bool} {first second third : ContactState}
    (before : Moves (.tick idle : ContactInput Public) id first second)
    (after : Moves (.tick idle : ContactInput Public) id second third) :
    Moves (.tick idle : ContactInput Public) id first third := by
  cases before with
  | stay => exact after
  | connecting request => cases request
  | connected ping => cases ping
  | dropped ping => cases ping
  | expired _ online =>
      cases after with
      | stay => exact .expired rfl online
      | dropped ping => cases ping
      | expired _ again => exact absurd rfl again
      | connecting request => cases request

/-- The service after an input keeps its invariant, and moves the contact
states as the input may. -/
structure UserService.Stepped (s : UserService Public) (input : ContactInput Public)
    (next : UserService Public) : Prop where
  tied : next.Tied
  moves : ∀ id, Moves input id (s.stateOf id) (next.stateOf id)

/-- The state that a ping leaves its sender in. -/
def pingedState (data : Bytes) (state : ContactState) : ContactState :=
  if pingState data = disconnectedByte then .offline
  else if state = .connecting then .connected
  else state

namespace UserService

section Handlers

variable {s next : UserService Public} {input : ContactInput Public} {id : String}
  {cd p : ContactData} {data : Bytes} {idle : Bool}

theorem Tied.stepped_same (tied : s.Tied) (same : s.Same next) : s.Stepped input next where
  tied := tied.same same
  moves other := by
    rw [same.stateOf]
    exact .stay _

theorem Tied.stepped_puts (tied : s.Tied) (puts : s.Puts id cd next) (entry : cd.Tied id)
    (found : s.contactData.lookup id = some p) (move : Moves input id p.state cd.state) :
    s.Stepped input next where
  tied := tied.puts puts (tied.known_of_lookup found) entry
  moves other := by
    by_cases here : other = id
    · rw [here, puts.stateOf_self, stateOf, entry_of_lookup found]
      exact move
    · rw [puts.stateOf_other here]
      exact .stay _

/-- A ping other than `'d'` ends the process if its sender is offline with a
counter over the threshold. -/
theorem receivedPing_unwelcome (tied : s.Tied) (data : Bytes)
    (found : s.contactData.lookup id = some p)
    (connects : pingState data ≠ disconnectedByte) (offline : p.state = .offline)
    (beyond : available p.lastPing = false) : s.receivedPing id data =
      .error (.raised .check "cd.state == contact_data::CONNECTING") := by
  obtain ⟨c, contact, -⟩ := (tied.entries id p found).contact
  obtain ⟨r, pinged, state, -, cur, -, fires⟩ := pinged_spec (p := p)
  have known := tied.known_of_lookup found
  have puts : s.Puts id r.data (s.put id r.data) := puts_put
  rw [decide_eq_true connects] at cur
  rw [cur, beyond] at fires
  have fired := (fireContactConnectedEvent_spec (s := s.put id r.data) tied.indexed known
    puts.lookup).1 (state.trans offline)
  simp only [receivedPing, found, contact, pinged, fires, cur, ok_bind]
  exact congrArg (· >>= _) fired

private theorem receivedPing_eq {r : Pinged} (next : UserService Public)
    (found : s.contactData.lookup id = some p) (contact : p.contact.isNone = false)
    (pinged : p.pinged (pingState data) = .ok r)
    (fired : (if r.fireEvent then
        if r.curState then (s.put id r.data).fireContactConnectedEvent id
        else (s.put id r.data).fireContactDisconnectedEvent id
      else pure (s.put id r.data)) = .ok next) :
    ∃ last, s.receivedPing id data = .ok last ∧ next.Same last := by
  simp only [receivedPing, found, contact, pinged, ok_bind, Bool.false_eq_true, if_false]
  rw [fired]
  refine ⟨_, rfl, ?_⟩
  split
  · exact ⟨rfl, fun _ => rfl⟩
  · exact .rfl

/-- Every other ping moves its sender as a ping may. -/
theorem receivedPing_welcome (tied : s.Tied) (found : s.contactData.lookup id = some p)
    (welcome : pingState data ≠ disconnectedByte → p.state = .offline →
      available p.lastPing = true) :
    ∃ next, s.receivedPing id data = .ok next ∧ s.Stepped (.ping id data) next ∧
      next.stateOf id = pingedState data p.state := by
  have entry := tied.entries id p found
  obtain ⟨c, contact, same⟩ := entry.contact
  have there : p.contact.isNone = false := by rw [contact, Option.isNone_some]
  obtain ⟨r, pinged, state, holder, cur, ticks, fires⟩ :=
    pinged_spec (p := p)
  have known := tied.known_of_lookup found
  have puts : s.Puts id r.data (s.put id r.data) := puts_put
  rw [contact] at holder
  by_cases leaves : pingState data = disconnectedByte
  · rw [pingedState, if_pos leaves]
    rw [decide_eq_false (not_not_intro leaves)] at cur
    rw [cur] at fires
    by_cases fire : r.fireEvent = true
    · obtain ⟨mid, fired, gone⟩ := fireContactDisconnectedEvent_spec
        (s := s.put id r.data) tied.indexed known puts.lookup (by rw [holder, Option.isSome_some])
      obtain ⟨next, success, last⟩ := receivedPing_eq mid found there pinged (by
        rw [fire, cur]
        exact fired)
      have result := (puts.trans gone).same last
      refine ⟨next, success, tied.stepped_puts result ?_ found ?_, ?_⟩
      · split
        · rename_i offline
          exact ⟨⟨c, holder, same⟩, fun online => absurd offline online⟩
        · exact ⟨⟨c, holder, same⟩, fun online => absurd rfl online⟩
      · split
        · rw [state]
          exact .stay _
        · rename_i online
          exact .dropped rfl (state ▸ online)
      · rw [result.stateOf_self]
        split
        · assumption
        · rfl
    · -- Without an event the counter was over the threshold before.
      rw [Bool.not_eq_true] at fire
      rw [fire, Bool.false_bne, eq_comm, Bool.or_eq_false_iff] at fires
      have offline : p.state = .offline := by
        by_contra online
        rw [entry.online online] at fires
        exact Bool.noConfusion fires.1
      obtain ⟨next, success, last⟩ := receivedPing_eq (s.put id r.data) found there pinged (by
        rw [fire]
        rfl)
      refine ⟨next, success, tied.stepped_puts (puts.same last) ?_ found ?_, ?_⟩
      · exact ⟨⟨c, holder, same⟩, fun online => absurd (state.trans offline) online⟩
      · rw [state]
        exact .stay _
      · rw [(puts.same last).stateOf_self, state, offline]
  · rw [pingedState, if_neg leaves]
    rw [decide_eq_true leaves] at cur
    rw [if_neg leaves] at ticks
    rw [cur, Bool.true_bne] at fires
    have fresh : available r.data.lastPing = true := by
      rw [ticks]
      rfl
    by_cases connecting : p.state = .connecting
    · obtain ⟨mid, joined, fired, joinedId, gone⟩ := (fireContactConnectedEvent_spec
        (s := s.put id r.data) tied.indexed known puts.lookup).2.2 (state.trans connecting)
      obtain ⟨next, success, last⟩ := receivedPing_eq mid found there pinged (by
        rw [fires, cur, connecting, beq_self_eq_true, Bool.or_true]
        exact fired)
      refine ⟨next, success, tied.stepped_puts ((puts.trans gone).same last) ?_ found ?_, ?_⟩
      · exact ⟨⟨joined, rfl, joinedId⟩, fun _ => rfl⟩
      · rw [connecting]
        exact .connected rfl
      · rw [((puts.trans gone).same last).stateOf_self, if_pos connecting]
    · have quiet : r.fireEvent = false := by
        have before : available p.lastPing = true := by
          by_cases offline : p.state = .offline
          · exact welcome leaves offline
          · exact entry.online offline
        rw [fires, before, beq_eq_false_iff_ne.mpr connecting]
        rfl
      obtain ⟨next, success, last⟩ := receivedPing_eq (s.put id r.data) found there pinged (by
        rw [quiet]
        rfl)
      refine ⟨next, success, tied.stepped_puts (puts.same last) ?_ found ?_, ?_⟩
      · exact ⟨⟨c, holder, same⟩, fun _ => fresh⟩
      · rw [state]
        exact .stay _
      · rw [(puts.same last).stateOf_self, state, if_neg connecting]

theorem sendPingTo_meets (tied : s.Tied) (st : UInt8) (force : Bool) :
    Meets ChannelFault s.Same (sendPingTo st force s id) := by
  rw [sendPingTo]
  split
  · exact Same.rfl
  · rename_i p found
    obtain ⟨c, contact, same⟩ := (tied.entries id p found).contact
    obtain ⟨holder, -, byId⟩ := tied.byId (tied.known_of_lookup found)
    simp only [contact]
    split
    · exact Same.rfl
    · rw [EncryptedChannels.getChannel]
      split
      · rename_i sc _
        cases ready : sc.sharedSecret.ready with
        | false => simp only [pure_ok, ok_bind, ready]; exact Or.inr rfl
        | true =>
            simp only [pure_ok, ok_bind, ready, check_true, same, byId]
            exact ⟨rfl, fun _ => rfl⟩
      · exact Or.inl rfl

theorem sendPing_meets (tied : s.Tied) (idle : Bool) :
    Meets ChannelFault s.Same (s.sendPing (userState idle)) := by
  have allowed : (userState idle == connectedByte || userState idle == disconnectedByte ||
      userState idle == idleByte) = true := by
    cases idle <;> rfl
  rw [sendPing, allowed, require_true, ok_bind]
  refine Meets.foldlM _ (fun between id _ same => ?_) Same.rfl
  exact (sendPingTo_meets (tied.same same) _ _).mono fun next kept => same.trans kept

theorem tickContact_meets (tied : s.Tied) (id : String) (idle : Bool) :
    Meets ChannelFault (s.Stepped (.tick idle)) (s.tickContact id) := by
  rw [tickContact]
  split
  · exact tied.stepped_same .rfl
  · rename_i p found
    have entry := tied.entries id p found
    obtain ⟨c, contact, same⟩ := entry.contact
    have absent : p.contact.isNone = false := by rw [contact, Option.isNone_some]
    have there : p.contact.isSome = true := by rw [contact, Option.isSome_some]
    have puts : s.Puts id { p with lastPing := p.lastPing + 1 }
      (s.put id { p with lastPing := p.lastPing + 1 }) := puts_put
    simp only [absent, Bool.or_false, decide_eq_true_eq]
    split
    · exact tied.stepped_same .rfl
    · rename_i online
      rw [entry.online online]
      cases ticks : available (p.lastPing + 1) with
      | true => exact tied.stepped_puts puts ⟨⟨c, contact, same⟩, fun _ => ticks⟩ found (.stay _)
      | false =>
          obtain ⟨next, fired, gone⟩ := fireContactDisconnectedEvent_spec
            (s := s.put id { p with lastPing := p.lastPing + 1 }) tied.indexed
            (tied.known_of_lookup found) puts.lookup there
          rw [if_neg online] at gone
          simp only [ne_eq, Bool.false_eq_true, not_false_eq_true, if_true, Bool.not_false,
            check_true, there, ok_bind, fired]
          exact tied.stepped_puts (puts.trans gone)
            ⟨⟨c, contact, same⟩, fun still => absurd rfl still⟩ found (.expired rfl online)

theorem pingThreadTick_meets (tied : s.Tied) :
    Meets ChannelFault (s.Stepped (.tick idle)) (s.pingThreadTick idle) := by
  have sent : Meets ChannelFault s.Same (if s.sendTicks > pingTicks then do
      let s ← s.sendPing (userState idle)
      pure { s with sendTicks := 0 }
    else pure { s with sendTicks := s.sendTicks + 1 }) := by
    split
    · exact (sendPing_meets tied idle).bind fun between same => same.trans ⟨rfl, fun _ => rfl⟩
    · exact Meets.ok ⟨rfl, fun _ => rfl⟩
  refine sent.bind fun start same => ?_
  refine Meets.foldlM _ (fun between id _ stepped => ?_) (tied.stepped_same same)
  refine (tickContact_meets stepped.tied id idle).mono fun next again => ⟨again.tied, fun id => ?_⟩
  exact (stepped.moves id).trans_tick (again.moves id)

theorem sendPingRequest_meets {c : UserInfo} (sendBack : Bool)
    (found : s.contactData.lookup c.id = some p) (offline : p.state = .offline) :
    Meets ChannelFault s.Same (s.sendPingRequest publicValue c sendBack) := by
  have connecting : s.isContactConnecting c.id = false := by
    simp [isContactConnecting, found, offline]
  have connected : s.contactAvailable c.id = false := by
    simp [contactAvailable, found, offline]
  rw [sendPingRequest, connecting, connected, Bool.not_false, require_true, ok_bind, require_true,
    ok_bind]
  refine Meets.foldlM _ (fun between address _ same => ?_) Same.rfl
  rw [sendPingRequestTo, EncryptedChannels.getChannel]
  split
  · exact same.trans ⟨rfl, fun _ => rfl⟩
  · exact Or.inl rfl

theorem receivedConnectRequest_meets (tied : s.Tied) (r : ConnectRequest Public) :
    Meets ChannelFault (s.Stepped (.connectRequest r idle))
      (s.receivedConnectRequest publicValue r idle) := by
  by_cases known : r.fromId ∈ s.contacts.ids
  · obtain ⟨c, same, byId⟩ := tied.byId known
    rw [receivedConnectRequest, byId, ok_bind]
    rw [← same] at known
    obtain ⟨p, found, entry⟩ := tied.lookup known
    obtain ⟨versioned, later, success, puts, kept, state⟩ :=
      updateContactVersion_spec tied.indexed known found entry r.pv r.cv
    have tied' := tied.puts puts known kept
    obtain ⟨holder, contact, -⟩ := kept.contact
    simp only [success, ok_bind, contactAvailable, isContactConnecting, puts.lookup, contact,
      Option.isSome_some, Bool.true_and]
    cases was : p.state with
    | connected =>
        rw [state, was]
        exact tied.stepped_puts puts kept found (state ▸ .stay _)
    | connecting =>
        rw [state, was]
        exact tied.stepped_puts puts kept found (state ▸ .stay _)
    | offline =>
        rw [state, was]
        have known' : c.id ∈ versioned.contacts.ids := puts.contacts ▸ known
        obtain ⟨moved, success, same₁⟩ := updateContactAddress_spec tied'.indexed known'
          r.fromIp r.fromPort
        have asked : Meets ChannelFault moved.Same (if r.sendBack ≠ 0 then
            moved.sendPingRequest publicValue c false else pure moved) := by
          split
          · exact sendPingRequest_meets false
              ((same₁.entries _).trans puts.lookup) (state.trans was)
          · exact Same.rfl
        simp only [success, ok_bind, if_false, reduceCtorEq, beq_iff_eq]
        refine asked.bind fun asking same₂ => ?_
        have same₃ := same₁.trans same₂
        obtain ⟨joining, cd, success, gone, joined, connecting⟩ := contactConnecting_spec
          (tied'.same same₃).indexed (same₃.contacts ▸ known')
        have result : s.Puts c.id cd joining := puts.trans (same₃.puts gone)
        have stepped : s.Stepped (.connectRequest r idle) joining := by
          refine tied.stepped_puts result joined found ?_
          rw [was, connecting]
          exact .connecting rfl same.symm
        obtain ⟨ready, setup, same₄⟩ := setupSecurityConversation_spec (s := joining)
          r.fromIp r.fromPort (joining.infos c.id).key r.publicSecret
        simp only [success, setup, ok_bind]
        refine (sendPingTo_meets (stepped.tied.same same₄) _ _).mono fun next same₅ => ?_
        have silent := same₄.trans same₅
        refine ⟨stepped.tied.same silent, fun other => ?_⟩
        rw [silent.stateOf]
        exact stepped.moves other
  · rw [receivedConnectRequest, UserService.byId, tied.indexed.byId_of_not_mem known]
    exact tied.stepped_same .rfl

end Handlers

/-- A user service as its constructor leaves it. -/
def Starts (s : UserService Public) : Prop :=
  ∃ self contacts infos, PointerList.Indexed contacts ∧ s = new self contacts infos

private theorem addContactData_fold (users : List UserInfo) (s : UserService Public) :
    (users.foldl addContactData s).contacts = s.contacts ∧
      ∀ id, (users.foldl addContactData s).contactData.lookup id =
        if id ∈ users.map (·.id) then some { contact := some ⟨id⟩, lastPing := pingThresh }
        else s.contactData.lookup id := by
  induction users generalizing s with
  | nil => exact ⟨rfl, fun _ => rfl⟩
  | cons u users ih =>
      have puts : s.Puts u.id { contact := some u, lastPing := pingThresh } (s.addContactData u) :=
        puts_put
      obtain ⟨contacts, entries⟩ := ih (s.addContactData u)
      refine ⟨contacts.trans puts.contacts, fun id => ?_⟩
      rw [List.foldl_cons, entries, puts.entries, List.map_cons]
      by_cases later : id ∈ users.map (·.id)
      · rw [if_pos later, if_pos (.tail _ later)]
      · rw [if_neg later]
        by_cases here : id = u.id
        · rw [if_pos here, if_pos (here ▸ List.mem_cons_self), here]
        · rw [if_neg here, if_neg (by simp [here, later])]

theorem Starts.tied {s : UserService Public} (starts : s.Starts) : s.Tied := by
  obtain ⟨self, contacts, infos, indexed, rfl⟩ := starts
  obtain ⟨same, entries⟩ := addContactData_fold contacts.list
    ({ self := self, contacts := contacts, infos := infos } : UserService Public)
  have ids : (new self contacts infos : UserService Public).contacts.ids =
    contacts.list.map (·.id) := congrArg PointerList.ids same
  refine ⟨?_, fun id => ?_, fun id cd found => ?_⟩
  · rw [new, same]
    exact indexed
  · rw [ids, new, entries]
    split <;> simp_all
  · rw [new, entries] at found
    split at found
    · cases found
      exact ⟨⟨_, rfl, rfl⟩, fun online => absurd rfl online⟩
    · cases found

/-- Everybody is offline at the start. -/
theorem Starts.offline {s : UserService Public} (starts : s.Starts) (id : String) :
    s.stateOf id = .offline := by
  obtain ⟨self, contacts, infos, -, rfl⟩ := starts
  have entries := (addContactData_fold contacts.list
    ({ self := self, contacts := contacts, infos := infos } : UserService Public)).2 id
  rw [stateOf, entry, new, entries]
  split
  · rfl
  · rfl

end UserService

/-- A ping, unless it disconnects, is not of a contact that is offline with its
counter over the threshold. -/
def ContactInput.Welcome (s : UserService Public) : ContactInput Public → Prop
  | .ping id data => pingState data ≠ disconnectedByte → ∀ p, s.contactData.lookup id = some p →
      p.state = .offline → available p.lastPing = true
  | _ => True

/-- The checks of the contact states hold at an input, and the state machine
does what they guard. -/
structure ChecksHold (publicValue : Nat → Public) (s : UserService Public)
    (input : ContactInput Public) : Prop where
  noCheckFails : ∀ fault, input.run publicValue s = .error fault → ChannelFault fault
  /-- `contact_connected` is reached only for a contact that is not offline. -/
  connected : ∀ id data p r, input = .ping id data → s.contactData.lookup id = some p →
    p.pinged (pingState data) = .ok r → r.fireEvent = true → r.curState = true →
    p.state = .connecting ∨ p.state = .connected
  moves : ∀ next, input.run publicValue s = .ok next →
    ∀ id, Moves input id (s.stateOf id) (next.stateOf id)

/-- The runs of a user service by any inputs that do not end the process. -/
abbrev ContactRun (publicValue : Nat → Public) :
    List (ContactInput Public) → UserService Public → Prop :=
  Run UserService.Starts fun s input next => input.run publicValue s = .ok next

section Runs

variable {s next : UserService Public} {inputs : List (ContactInput Public)}
  {input : ContactInput Public}

/-- A ping that connects its sender finds it connecting, or over the threshold. -/
theorem fires_of_pinged {p : ContactData} {state : UInt8} {r : Pinged}
    (pinged : p.pinged state = .ok r) (fires : r.fireEvent = true) (connects : r.curState = true) :
    state ≠ disconnectedByte ∧ (p.state = .connecting ∨ available p.lastPing = false) := by
  obtain ⟨found, success, -, -, cur, -, event⟩ := pinged_spec (p := p)
  cases pinged.symm.trans success
  rw [fires, connects, Bool.true_bne, eq_comm, Bool.or_eq_true, Bool.not_eq_true', beq_iff_eq,
    Or.comm] at event
  exact ⟨of_decide_eq_true (cur.symm.trans connects), event⟩

/-- Every input that is welcome keeps the invariant, and can only fail for want
of a channel. -/
theorem run_meets (tied : s.Tied) (welcome : input.Welcome s) :
    Meets ChannelFault (s.Stepped input) (input.run publicValue s) := by
  cases input with
  | connectRequest r idle => exact UserService.receivedConnectRequest_meets tied r
  | tick idle => exact UserService.pingThreadTick_meets tied
  | ping id data =>
      rw [ContactInput.run]
      cases found : s.contactData.lookup id with
      | none =>
          rw [UserService.receivedPing, found]
          exact tied.stepped_same .rfl
      | some p =>
          obtain ⟨next, success, stepped, -⟩ := UserService.receivedPing_welcome tied found
            fun connects offline => welcome connects p found offline
          rw [success]
          exact stepped

/-- An input that is not welcome ends the process. -/
theorem run_unwelcome (tied : s.Tied) (unwelcome : ¬ input.Welcome s) :
    input.run publicValue s =
      .error (.raised .check "cd.state == contact_data::CONNECTING") := by
  cases input with
  | connectRequest r idle => exact absurd trivial unwelcome
  | tick idle => exact absurd trivial unwelcome
  | ping id data =>
      simp only [ContactInput.Welcome, Classical.not_imp, not_forall, Bool.not_eq_true] at unwelcome
      obtain ⟨connects, p, found, offline, beyond⟩ := unwelcome
      exact UserService.receivedPing_unwelcome tied data found connects offline beyond

theorem tied_of_step (tied : s.Tied) (success : input.run publicValue s = .ok next) :
    next.Tied := by
  by_cases welcome : input.Welcome s
  · exact ((run_meets tied welcome).value success).tied
  · cases (run_unwelcome tied welcome).symm.trans success

theorem tied_of_run (run : ContactRun publicValue inputs s) : s.Tied := by
  induction run with
  | start starts => exact starts.tied
  | step _ success ih => exact tied_of_step ih success

/-- After every run, the checks hold at an input exactly if it is welcome. -/
theorem contact_checks_hold_iff (run : ContactRun publicValue inputs s)
    (input : ContactInput Public) : ChecksHold publicValue s input ↔ input.Welcome s := by
  have tied := tied_of_run run
  constructor
  · intro holds
    by_contra unwelcome
    exact not_channelFault_connecting (holds.noCheckFails _ (run_unwelcome tied unwelcome))
  · intro welcome
    have meets := @run_meets _ publicValue _ _ tied welcome
    refine ⟨fun fault failure => meets.error failure, ?_, fun next success =>
      (meets.value success).moves⟩
    rintro id data p r rfl found pinged fires connects
    obtain ⟨state, reason⟩ := fires_of_pinged pinged fires connects
    cases was : p.state with
    | connecting => exact .inl rfl
    | connected => exact .inr rfl
    | offline =>
        rcases reason with connecting | beyond
        · cases was.symm.trans connecting
        · cases beyond.symm.trans (welcome state p found was)

end Runs

section Bob

/-- A user who knows `bob`, at an old address. -/
def bobService : UserService Nat :=
  .new "me" (valueD {} (PointerList.ofUsers UserInfo.id [⟨"bob"⟩]))
    fun _ => { name := "Bob", key := "key", addresses := ["udp://10.0.0.1:6060"] }

theorem bobService_starts : bobService.Starts :=
  ⟨_, _, _, .ofUsers (ok_valueD (by decide +kernel)), rfl⟩

def bobRequest : ContactInput Nat :=
  .connectRequest
    { fromId := "bob"
      fromIp := "10.0.0.2"
      fromPort := 6060
      sendBack := 1
      publicSecret := 7
      pv := 0
      cv := 11 } false

/-- The service after inputs, as long as they do not end the process. -/
def afterContactInputs (inputs : List (ContactInput Nat)) : UserService Nat :=
  valueD bobService (inputs.foldlM (ContactInput.run id) bobService)

private theorem afterContactInputs_run {inputs : List (ContactInput Nat)}
    (success : (inputs.foldlM (ContactInput.run id) bobService).isOk = true) :
    ContactRun id inputs (afterContactInputs inputs) :=
  .of_foldlM bobService_starts inputs (ok_valueD success)

theorem contact_checks_hold_bob :
    ChecksHold id (afterContactInputs [bobRequest]) (.ping "bob" [connectedByte]) := by
  have run : ContactRun id [bobRequest] (afterContactInputs [bobRequest]) :=
    afterContactInputs_run (by decide +kernel)
  have state : (afterContactInputs [bobRequest]).contactData.lookup "bob" =
      some { state := .connecting, contact := some ⟨"bob"⟩, lastPing := 0, clientVersion := 11,
             protocolVersion := 0, idle := true } := by
    decide +kernel
  refine (contact_checks_hold_iff run _).mpr fun _ p found _ => ?_
  cases state.symm.trans found
  rfl

/-- `bob` asks to connect and then disconnects twice. -/
def bobInputs : List (ContactInput Nat) :=
  [bobRequest, .ping "bob" [disconnectedByte], .ping "bob" [disconnectedByte]]

/-- The next ping of `bob` finds him offline with the counter of the second
disconnect, and stops the process. -/
theorem second_disconnect_stops_process :
    ContactRun id bobInputs (afterContactInputs bobInputs) ∧
      (afterContactInputs bobInputs).stateOf "bob" = .offline ∧
      (ContactInput.ping "bob" [connectedByte]).run id (afterContactInputs bobInputs) =
        .error (.raised .check "cd.state == contact_data::CONNECTING") ∧
      ¬ ChecksHold id (afterContactInputs bobInputs) (.ping "bob" [connectedByte]) := by
  have run : ContactRun id bobInputs (afterContactInputs bobInputs) :=
    afterContactInputs_run (by decide +kernel)
  have data : (afterContactInputs bobInputs).contactData.lookup "bob" =
      some { contact := some ⟨"bob"⟩, lastPing := 120, clientVersion := 11, idle := true } := by
    decide +kernel
  have failure := UserService.receivedPing_unwelcome (tied_of_run run) [connectedByte] data
    (by decide) rfl rfl
  refine ⟨run, by rw [UserService.stateOf, UserService.entry_of_lookup data], failure, ?_⟩
  exact fun holds => not_channelFault_connecting (holds.noCheckFails _ failure)

end Bob

end Firestr.User
