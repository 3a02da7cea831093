import Firestr.User.HandshakeSteps
import Firestr.User.Threads

/-! What the parts of the handlers do to the contact states and the channels,
when the threads may run between them. -/

set_option autoImplicit false

namespace Firestr.User

open Firestr.Library.OrderedMap Firestr.Library.Outcomes Firestr.Security Firestr.Util

variable {Public : Type}

/-- The assertion of `contact_connected`. -/
def ConnectedFault (fault : Fault) : Prop :=
  fault = .raised .check "cd.state == contact_data::CONNECTING"

namespace UserService

/-- An entry with a contact is that of a contact of the user, and one without is
offline. -/
structure Safe (s : UserService Public) : Prop where
  indexed : s.contacts.Indexed
  held : ∀ id cd c, s.contactData.lookup id = some cd → cd.contact = some c →
    c.id = id ∧ id ∈ s.contacts.ids
  bare : ∀ id cd, s.contactData.lookup id = some cd → cd.contact = none → cd.state = .offline

/-- `next` has the contact `id` in this state, these channels, and all else as `s`. -/
structure Turns (s : UserService Public) (id : String) (state : ContactState)
    (channels : EncryptedChannels Public) (next : UserService Public) : Prop where
  safe : next.Safe
  contacts : next.contacts = s.contacts
  infos : next.infos = s.infos
  channels : next.encryptedChannels = channels
  stateOf : ∀ other, next.stateOf other = if other = id then state else s.stateOf other

section Safe

variable {s next : UserService Public} {id : String} {cd : ContactData} {c : UserInfo}

theorem stateOf_of_lookup (found : s.contactData.lookup id = some cd) : s.stateOf id = cd.state := by
  rw [stateOf, entry, found, Option.getD_some]

theorem stateOf_of_none (missing : s.contactData.lookup id = none) : s.stateOf id = .offline := by
  rw [stateOf, entry, missing]
  rfl

theorem Safe.contactAvailable_iff (safe : s.Safe) :
    s.contactAvailable id = true ↔ s.stateOf id = .connected := by
  rw [contactAvailable]
  cases found : s.contactData.lookup id with
  | none =>
      rw [stateOf_of_none found]
      decide
  | some cd =>
      rw [stateOf_of_lookup found]
      cases contact : cd.contact with
      | none =>
          rw [safe.bare id cd found contact]
          simp [contact]
      | some c => simp only [contact, Option.isSome_some, Bool.true_and, beq_iff_eq]

theorem Safe.isContactConnecting_iff (safe : s.Safe) :
    s.isContactConnecting id = true ↔ s.stateOf id = .connecting := by
  rw [isContactConnecting]
  cases found : s.contactData.lookup id with
  | none =>
      rw [stateOf_of_none found]
      decide
  | some cd =>
      rw [stateOf_of_lookup found]
      cases contact : cd.contact with
      | none =>
          rw [safe.bare id cd found contact]
          simp [contact]
      | some c => simp only [contact, Option.isSome_some, Bool.true_and, beq_iff_eq]

theorem Safe.turns_self (safe : s.Safe) (id : String) :
    s.Turns id (s.stateOf id) s.encryptedChannels s where
  safe := safe
  contacts := rfl
  infos := rfl
  channels := rfl
  stateOf other := by
    split
    · rename_i here
      rw [here]
    · rfl

/-- Another entry for a contact. -/
theorem Safe.turns_put (safe : s.Safe) (held : ∀ c, cd.contact = some c → c.id = id ∧
    id ∈ s.contacts.ids) (bare : cd.contact = none → cd.state = .offline) :
    s.Turns id cd.state s.encryptedChannels (s.put id cd) := by
  have entries (other : String) : (s.put id cd).contactData.lookup other =
      if other = id then some cd else s.contactData.lookup other := lookup_place _ _ _ _
  refine ⟨⟨safe.indexed, fun other entry c found contact => ?_, fun other entry found none? => ?_⟩,
    rfl, rfl, rfl, fun other => ?_⟩
  · rw [entries] at found
    split at found
    · rename_i here
      cases found
      rw [here]
      exact held c contact
    · exact safe.held other entry c found contact
  · rw [entries] at found
    split at found
    · cases found
      exact bare none?
    · exact safe.bare other entry found none?
  · rw [stateOf, entry, entries]
    split
    · rfl
    · rfl

/-- Other channels, messages and events leave the contacts safe. -/
theorem Safe.same (safe : s.Safe) (contacts : next.contacts = s.contacts)
    (contactData : next.contactData = s.contactData) : next.Safe where
  indexed := contacts ▸ safe.indexed
  held := by
    rw [contacts, contactData]
    exact safe.held
  bare := by
    rw [contactData]
    exact safe.bare

theorem Turns.same {state : ContactState} {channels others : EncryptedChannels Public}
    {last : UserService Public} (turns : s.Turns id state channels next)
    (contacts : last.contacts = next.contacts) (contactData : last.contactData = next.contactData)
    (infos : last.infos = next.infos) (made : last.encryptedChannels = others) :
    s.Turns id state others last where
  safe := turns.safe.same contacts contactData
  contacts := contacts.trans turns.contacts
  infos := infos.trans turns.infos
  channels := made
  stateOf other := by
    rw [← turns.stateOf, UserService.stateOf, UserService.stateOf, UserService.entry,
      UserService.entry, contactData]

theorem Safe.byId_of_held (safe : s.Safe) (known : id ∈ s.contacts.ids) :
    ∃ c, c.id = id ∧ s.byId id = .ok (some c) := by
  obtain ⟨c, -, same, found⟩ := safe.indexed.byId_of_mem known
  exact ⟨c, same, found⟩

end Safe

section Parts

variable {s next : UserService Public} {id : String} {cd : ContactData} {c : UserInfo}
  {publicValue : Nat → Public}

theorem updateContactVersion_turns (safe : s.Safe) (known : id ∈ s.contacts.ids)
    (protocolVersion clientVersion : Int) :
    ∃ next, s.updateContactVersion id protocolVersion clientVersion = .ok next ∧
      s.Turns id (s.stateOf id) s.encryptedChannels next := by
  rw [updateContactVersion]
  split
  · exact ⟨s, rfl, safe.turns_self id⟩
  · obtain ⟨c, same, byId⟩ := safe.byId_of_held known
    subst same
    simp only [byId, ok_bind]
    refine ⟨_, rfl, ?_⟩
    have turns := @Safe.turns_put _ s c.id { s.entry c.id with
      protocolVersion := protocolVersion
      clientVersion := clientVersion } safe (fun d contact => ?_) (fun none? => ?_)
    · exact turns
    · cases found : s.contactData.lookup c.id with
      | none =>
          change (s.entry c.id).contact = some d at contact
          rw [entry, found] at contact
          cases contact
      | some cd =>
          change (s.entry c.id).contact = some d at contact
          rw [entry_of_lookup found] at contact
          exact safe.held c.id cd d found contact
    · cases found : s.contactData.lookup c.id with
      | none => exact stateOf_of_none found
      | some cd =>
          change (s.entry c.id).contact = none at none?
          rw [entry_of_lookup found] at none?
          exact (stateOf_of_lookup found).trans (safe.bare c.id cd found none?)

theorem contactConnecting_turns (safe : s.Safe) (known : id ∈ s.contacts.ids) :
    ∃ next, s.contactConnecting id = .ok (true, next) ∧
      s.Turns id .connecting s.encryptedChannels next := by
  obtain ⟨c, same, byId⟩ := safe.byId_of_held known
  subst same
  simp only [contactConnecting, byId, ok_bind]
  refine ⟨_, rfl, ?_⟩
  exact @Safe.turns_put _ s c.id { s.entry c.id with
    idle := true
    contact := some c
    lastPing := 0
    state := .connecting } safe (fun d contact => by cases contact; exact ⟨rfl, known⟩)
    (fun none? => by cases none?)

theorem fireContactConnectedEvent_turns (safe : s.Safe) (id : String) :
    Meets ConnectedFault (fun next => ∃ state, s.Turns id state s.encryptedChannels next ∧
      (state = s.stateOf id ∨ s.stateOf id = .connecting ∧ state = .connected))
      (s.fireContactConnectedEvent id) := by
  by_cases known : id ∈ s.contacts.ids
  · obtain ⟨c, same, byId⟩ := safe.byId_of_held known
    subst same
    rw [fireContactConnectedEvent, contactConnected, byId, ok_bind]
    simp only
    by_cases connected : (s.entry c.id).state = .connected
    · rw [if_pos connected]
      refine ⟨(s.entry c.id).state, ?_, .inl rfl⟩
      have there : ∃ cd, s.contactData.lookup c.id = some cd := by
        cases found : s.contactData.lookup c.id with
        | none =>
            rw [entry, found] at connected
            cases connected
        | some cd => exact ⟨cd, rfl⟩
      obtain ⟨cd, found⟩ := there
      rw [entry_of_lookup found]
      exact safe.turns_put (fun d contact => safe.held c.id cd d found contact)
        (safe.bare c.id cd found)
    · rw [if_neg connected]
      by_cases connecting : (s.entry c.id).state = .connecting
      · simp only [connecting, beq_self_eq_true, check_true, ok_bind]
        refine ⟨.connected, ?_, .inr ⟨connecting, rfl⟩⟩
        · have turns := @Safe.turns_put _ s c.id { s.entry c.id with
            contact := some c
            idle := true
            lastPing := 0
            state := .connected } safe (fun d contact => by cases contact; exact ⟨rfl, known⟩)
            (fun none? => by cases none?)
          exact turns.same rfl rfl rfl rfl
      · simp only [beq_eq_false_iff_ne.mpr connecting]
        exact rfl
  · rw [fireContactConnectedEvent, contactConnected, UserService.byId,
      safe.indexed.byId_of_not_mem known]
    exact ⟨s.stateOf id, safe.turns_self id, .inl rfl⟩

/-- The channels after a contact goes offline. -/
def droppedChannels (s : UserService Public) (id : String) : EncryptedChannels Public :=
  if s.stateOf id = .connected then
    (s.infos id).addresses.foldl EncryptedChannels.removeChannel s.encryptedChannels
  else s.encryptedChannels

theorem fireContactDisconnectedEvent_turns (safe : s.Safe) (id : String) :
    ∃ next, s.fireContactDisconnectedEvent id = .ok next ∧
      s.Turns id .offline (s.droppedChannels id) next := by
  rw [droppedChannels]
  by_cases known : id ∈ s.contacts.ids
  · obtain ⟨c, same, byId⟩ := safe.byId_of_held known
    subst same
    rw [fireContactDisconnectedEvent, byId, ok_bind]
    simp only
    by_cases offline : (s.entry c.id).state = .offline
    · rw [if_pos offline]
      have quiet : s.Turns c.id .offline s.encryptedChannels (s.put c.id (s.entry c.id)) := by
        have turns := @Safe.turns_put _ s c.id (s.entry c.id) safe (fun d contact => ?_)
          (fun _ => offline)
        · rwa [offline] at turns
        · cases found : s.contactData.lookup c.id with
          | none =>
              rw [entry, found] at contact
              cases contact
          | some cd =>
              rw [entry_of_lookup found] at contact
              exact safe.held c.id cd d found contact
      rw [if_neg (by rw [stateOf, offline]; decide)]
      exact ⟨_, rfl, quiet⟩
    · rw [if_neg offline]
      have there : ∃ cd d, s.contactData.lookup c.id = some cd ∧ cd.contact = some d ∧
          d.id = c.id := by
        cases found : s.contactData.lookup c.id with
        | none =>
            rw [entry, found] at offline
            exact absurd rfl offline
        | some cd =>
            rw [entry_of_lookup found] at offline
            cases contact : cd.contact with
            | none => exact absurd (safe.bare c.id cd found contact) offline
            | some d => exact ⟨cd, d, rfl, contact, (safe.held c.id cd d found contact).1⟩
      obtain ⟨cd, d, found, contact, same⟩ := there
      rw [stateOf, entry_of_lookup found]
      rw [entry_of_lookup found] at offline
      obtain ⟨state, holder, lastPing, clientVersion, protocolVersion, idle⟩ := cd
      change holder = some d at contact
      subst contact
      have turns := @Safe.turns_put _ s c.id {
        contact := some d
        lastPing := pingThresh
        clientVersion := clientVersion
        protocolVersion := protocolVersion
        idle := idle } safe (fun e held => safe.held c.id _ e found held) (fun _ => rfl)
      cases state with
      | offline => exact absurd rfl offline
      | connecting =>
          rw [if_neg (show ¬ContactState.connecting = .connected by decide)]
          exact ⟨_, rfl, turns⟩
      | connected =>
          rw [if_pos rfl]
          refine ⟨_, rfl, ?_⟩
          rw [same]
          exact turns.same rfl rfl rfl rfl
  · have missing : s.stateOf id = .offline := by
      cases found : s.contactData.lookup id with
      | none => exact stateOf_of_none found
      | some cd =>
          rw [stateOf_of_lookup found]
          cases contact : cd.contact with
          | none => exact safe.bare id cd found contact
          | some d => exact absurd (safe.held id cd d found contact).2 known
    rw [if_neg (by rw [missing]; decide), fireContactDisconnectedEvent, UserService.byId,
      safe.indexed.byId_of_not_mem known]
    exact ⟨s, rfl, missing ▸ safe.turns_self id⟩

/-- A ready channel under an address. -/
def Serves (channels : EncryptedChannels Public) (address : String) : Prop :=
  ∃ c, channels.channels address = some c ∧ c.sharedSecret.ready = true

/-- A ping needs a ready channel, unless nothing is sent. -/
theorem sendPingTo_turns (safe : s.Safe) (id : String) (st : UInt8) (force : Bool)
    (serves : s.stateOf id ≠ .offline ∨ force = true →
      Serves s.encryptedChannels (s.infos id).address) :
    ∃ next, sendPingTo st force s id = .ok next ∧
      s.Turns id (s.stateOf id) s.encryptedChannels next := by
  rw [sendPingTo]
  cases found : s.contactData.lookup id with
  | none => exact ⟨s, rfl, safe.turns_self id⟩
  | some p =>
      simp only
      cases contact : p.contact with
      | none => exact ⟨s, rfl, safe.turns_self id⟩
      | some c =>
          obtain ⟨same, known⟩ := safe.held id p c found contact
          obtain ⟨d, -, byId⟩ := safe.byId_of_held known
          rw [stateOf_of_lookup found] at serves
          by_cases quiet : p.state = .offline ∧ force = false
          · rw [quiet.1, quiet.2]
            exact ⟨s, rfl, safe.turns_self id⟩
          · have loud : p.state ≠ .offline ∨ force = true := by
              by_cases offline : p.state = .offline
              · exact .inr (Bool.not_eq_false _ ▸ fun off => quiet ⟨offline, off⟩)
              · exact .inl offline
            obtain ⟨channel, there, ready⟩ := serves loud
            have sends : (p.state = .offline && !force) = false := by
              rcases loud with online | forced
              · rw [decide_eq_false online, Bool.false_and]
              · rw [forced, Bool.not_true, Bool.and_false]
            simp only [sends, Bool.false_eq_true, if_false, same, EncryptedChannels.getChannel,
              there, pure_ok, ok_bind, ready, check_true, byId]
            exact ⟨_, rfl, (safe.turns_self id).same rfl rfl rfl rfl⟩

/-- The counter of a contact is one from the threshold, or nothing happens. -/
theorem tickContact_turns (safe : s.Safe) (id : String) :
    ∃ next, s.tickContact id = .ok next ∧
      (s.Turns id (s.stateOf id) s.encryptedChannels next ∨
        (∃ cd, s.contactData.lookup id = some cd ∧ cd.lastPing = pingThresh) ∧
          s.Turns id .offline (s.droppedChannels id) next) := by
  rw [tickContact]
  cases found : s.contactData.lookup id with
  | none => exact ⟨s, rfl, .inl (safe.turns_self id)⟩
  | some p =>
      simp only
      split
      · exact ⟨s, rfl, .inl (safe.turns_self id)⟩
      · rename_i active
        rw [Bool.or_eq_true, decide_eq_true_eq, not_or, Bool.not_eq_true] at active
        have counted := @Safe.turns_put _ s id { p with lastPing := p.lastPing + 1 } safe
          (fun c contact => safe.held id p c found contact) (fun none? => safe.bare id p found none?)
        have state : s.stateOf id = p.state := stateOf_of_lookup found
        split
        · rename_i flips
          have before : available p.lastPing = true := by
            by_contra beyond
            refine flips ?_
            rw [available, decide_eq_true_eq, not_le] at beyond
            rw [available, available, decide_eq_false (not_le.mpr beyond),
              decide_eq_false (not_le.mpr (Nat.lt_succ_of_lt beyond))]
          have after : available (p.lastPing + 1) = false := by
            rw [before] at flips
            exact Bool.not_eq_true _ ▸ flips
          have threshold : p.lastPing = pingThresh := by
            rw [available, decide_eq_true_eq] at before
            rw [available, decide_eq_false_iff_not, not_le] at after
            omega
          have held : p.contact.isSome = true := by
            rw [← Option.not_isNone, active.2, Bool.not_false]
          obtain ⟨next, fired, gone⟩ := fireContactDisconnectedEvent_turns counted.safe id
          simp only [after, Bool.not_false, check_true, held, ok_bind]
          refine ⟨next, fired, .inr ⟨⟨p, rfl, threshold⟩, ?_⟩⟩
          have dropped : (s.put id { p with lastPing := p.lastPing + 1 }).droppedChannels id =
              s.droppedChannels id := by
            rw [droppedChannels, droppedChannels, counted.stateOf, if_pos rfl, state]
            rfl
          rw [dropped] at gone
          refine ⟨gone.safe, gone.contacts, gone.infos, gone.channels, fun other => ?_⟩
          rw [gone.stateOf, counted.stateOf]
          split
          · rfl
          · rfl
        · refine ⟨_, rfl, .inl ?_⟩
          rw [state]
          exact counted

theorem updateContactAddress_moves (safe : s.Safe) (known : id ∈ s.contacts.ids) (ip : String)
    (port : Nat) :
    ∃ next, s.updateContactAddress id ip port = .ok next ∧ next.Safe ∧
      next.contacts = s.contacts ∧ (∀ other, next.stateOf other = s.stateOf other) ∧
      next.encryptedChannels =
        s.encryptedChannels.createChannel (makeUdpAddress ip port) (s.infos id).key ∧
      (next.infos id).address = makeUdpAddress ip port ∧
      ∀ other, other ≠ id → next.infos other = s.infos other := by
  obtain ⟨c, same, byId⟩ := safe.byId_of_held known
  subst same
  rw [updateContactAddress, byId, ok_bind]
  simp only
  split
  · rename_i current
    exact ⟨_, rfl, safe.same rfl rfl, rfl, fun _ => rfl, rfl, current, fun _ _ => rfl⟩
  · refine ⟨_, rfl, safe.same rfl rfl, rfl, fun _ => rfl, rfl, ?_, fun other different => ?_⟩
    · exact (congrArg ContactInfo.address (Function.update_self ..)).trans
        (ContactInfo.address_addKnownAddress _ _)
    · exact Function.update_of_ne different ..

theorem getChannel_createChannel (channels : EncryptedChannels Public) (i key : String) :
    ∃ c, (channels.createChannel i key).getChannel i = .ok c := by
  have made : ∃ c, (channels.createChannel i key).channels i = some c := by
    rw [EncryptedChannels.createChannel, EncryptedChannels.entry]
    cases found : channels.channels i with
    | some c =>
        simp only
        split
        · exact ⟨c, found⟩
        · exact ⟨_, Function.update_self ..⟩
    | none =>
        simp only
        split
        · exact ⟨_, Function.update_self ..⟩
        · exact ⟨_, Function.update_self ..⟩
  obtain ⟨c, made⟩ := made
  refine ⟨c, ?_⟩
  rw [EncryptedChannels.getChannel, made]
  rfl

theorem sendPingRequestTo_turns (publicValue : Nat → Public) (safe : s.Safe) (id key : String)
    (sendBack : Bool) (address : String) : ∃ next, s.sendPingRequestTo publicValue key sendBack address = .ok next ∧
      s.Turns id (s.stateOf id) (s.encryptedChannels.createChannel address key) next := by
  obtain ⟨c, got⟩ := getChannel_createChannel s.encryptedChannels address key
  rw [sendPingRequestTo]
  simp only [got, ok_bind]
  exact ⟨_, rfl, (safe.turns_self id).same rfl rfl rfl rfl⟩

theorem setupSecurityConversation_turns (safe : s.Safe) (id : String) (ip : String) (port : Nat)
    (key : String) (publicVal : Public) :
    ∃ next, s.setupSecurityConversation (makeUdpAddress ip port) key publicVal = .ok next ∧
      s.Turns id (s.stateOf id)
        (s.encryptedChannels.createReadyChannel (makeUdpAddress ip port) key publicVal) next := by
  have named : (makeUdpAddress ip port).isEmpty = false := by
    simp [makeUdpAddress]
  rw [setupSecurityConversation, named]
  exact ⟨_, rfl, (safe.turns_self id).same rfl rfl rfl rfl⟩

theorem addContactData_turns (safe : s.Safe) (known : c.id ∈ s.contacts.ids) :
    s.Turns c.id .offline s.encryptedChannels (s.addContactData c) :=
  @Safe.turns_put _ s c.id { state := .offline, contact := some c, lastPing := pingThresh } safe
    (fun d contact => by cases contact; exact ⟨rfl, known⟩) (fun none? => by cases none?)

end Parts

section Serves

variable {channels : EncryptedChannels Public} {address i key : String} {publicVal : Public}

/-- A channel for another key is made anew, and not ready. -/
theorem Serves.createChannel (serves : Serves channels address)
    (keyed : i = address → ∀ c, channels.channels i = some c → c.key = some key) :
    Serves (channels.createChannel i key) address := by
  obtain ⟨c, there, ready⟩ := serves
  by_cases here : i = address
  · have found := keyed here c (here ▸ there)
    subst here
    rw [EncryptedChannels.createChannel, EncryptedChannels.entry, there]
    simp only [found, if_true]
    exact ⟨c, there, ready⟩
  · have other (d : Channel Public) (drawn : Nat) : ({ channels with drawn := drawn }.put i d).channels
        address = some c := (Function.update_of_ne (Ne.symm here) ..).trans there
    refine ⟨c, ?_, ready⟩
    rw [EncryptedChannels.createChannel, EncryptedChannels.entry]
    cases found : channels.channels i with
    | some d =>
        simp only
        split
        · exact there
        · exact other _ _
    | none =>
        simp only
        split
        · exact other _ _
        · exact (Function.update_of_ne (Ne.symm here) ..).trans (other _ _)

theorem Serves.createReadyChannel (serves : Serves channels address ∨ i = address) :
    Serves (channels.createReadyChannel i key publicVal) address := by
  rw [EncryptedChannels.createReadyChannel]
  by_cases here : i = address
  · subst here
    exact ⟨_, Function.update_self .., rfl⟩
  · obtain ⟨c, there, ready⟩ := serves.resolve_right here
    refine ⟨c, ?_, ready⟩
    rw [EncryptedChannels.entry]
    cases found : channels.channels i with
    | some d => exact (Function.update_of_ne (Ne.symm here) ..).trans there
    | none =>
        exact (Function.update_of_ne (Ne.symm here) ..).trans
          ((Function.update_of_ne (Ne.symm here) ..).trans there)

theorem Serves.removeChannels (serves : Serves channels address) (addresses : List String)
    (apart : address ∉ addresses) :
    Serves (addresses.foldl EncryptedChannels.removeChannel channels) address := by
  induction addresses generalizing channels with
  | nil => exact serves
  | cons i rest ih =>
      rw [List.mem_cons, not_or] at apart
      obtain ⟨c, there, ready⟩ := serves
      exact ih ⟨c, (Function.update_of_ne apart.1 ..).trans there, ready⟩ apart.2

end Serves

end UserService

end Firestr.User
