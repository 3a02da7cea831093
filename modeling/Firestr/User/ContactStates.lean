import Firestr.Library.Outcomes
import Firestr.User.UserService

/-! The invariant of the contact states, and what each operation of the user
service does to them. -/

set_option autoImplicit false

namespace Firestr.User

open Firestr.Library.OrderedMap Firestr.Library.Outcomes Firestr.Security Firestr.Util

variable {Public : Type}

/-- An entry has its contact, and a contact that is not offline has pinged
recently. -/
structure ContactData.Tied (id : String) (cd : ContactData) : Prop where
  contact : ∃ c, cd.contact = some c ∧ c.id = id
  online : cd.state ≠ .offline → available cd.lastPing = true

/-- Every contact of the user, and nobody else, has an entry. -/
structure UserService.Tied (s : UserService Public) : Prop where
  indexed : s.contacts.Indexed
  known : ∀ id, id ∈ s.contacts.ids ↔ (s.contactData.lookup id).isSome = true
  entries : ∀ id cd, s.contactData.lookup id = some cd → cd.Tied id

/-- The fault is about the channel of an address, not about a contact state. -/
def ChannelFault (fault : Fault) : Prop :=
  fault = .raised .require "r != _s.end()" ∨ fault = .raised .check "sc.shared_secret.ready()"

theorem not_channelFault_connecting :
    ¬ ChannelFault (.raised .check "cd.state == contact_data::CONNECTING") := by
  simp [ChannelFault]

namespace UserService

/-- The state of a contact: offline for one without an entry. -/
def stateOf (s : UserService Public) (id : String) : ContactState := (s.entry id).state

/-- `next` has the contacts and the entries of `s`. -/
structure Same (s next : UserService Public) : Prop where
  contacts : next.contacts = s.contacts
  entries : ∀ id, next.contactData.lookup id = s.contactData.lookup id

/-- `next` has the contacts of `s`, and `cd` as its entry of `id`. -/
structure Puts (s : UserService Public) (id : String) (cd : ContactData)
    (next : UserService Public) : Prop where
  contacts : next.contacts = s.contacts
  entries : ∀ other, next.contactData.lookup other =
    if other = id then some cd else s.contactData.lookup other

section Relations

variable {s between next : UserService Public} {id : String} {cd replaced : ContactData}

theorem Same.rfl : s.Same s := ⟨.refl _, fun _ => .refl _⟩

theorem Same.trans (first : s.Same between) (second : between.Same next) : s.Same next where
  contacts := second.contacts.trans first.contacts
  entries id := (second.entries id).trans (first.entries id)

theorem puts_put : s.Puts id cd (s.put id cd) := ⟨.refl _, lookup_place _ _ _⟩

theorem Puts.same (first : s.Puts id cd between) (second : between.Same next) :
    s.Puts id cd next where
  contacts := second.contacts.trans first.contacts
  entries other := (second.entries other).trans (first.entries other)

theorem Same.puts (first : s.Same between) (second : between.Puts id cd next) :
    s.Puts id cd next where
  contacts := second.contacts.trans first.contacts
  entries other := by rw [second.entries, first.entries]

theorem Puts.trans (first : s.Puts id replaced between) (second : between.Puts id cd next) :
    s.Puts id cd next where
  contacts := second.contacts.trans first.contacts
  entries other := by
    rw [second.entries, first.entries]
    split <;> simp_all

theorem Same.puts_found (same : s.Same next) (found : s.contactData.lookup id = some cd) :
    s.Puts id cd next where
  contacts := same.contacts
  entries other := by
    rw [same.entries]
    split
    · rename_i here
      rw [here, found]
    · exact .refl _

theorem Puts.lookup (puts : s.Puts id cd next) : next.contactData.lookup id = some cd := by
  rw [puts.entries, if_pos (.refl _)]

theorem entry_of_lookup (found : s.contactData.lookup id = some cd) : s.entry id = cd := by
  rw [entry, found, Option.getD_some]

theorem Puts.stateOf_self (puts : s.Puts id cd next) : next.stateOf id = cd.state := by
  rw [stateOf, entry_of_lookup puts.lookup]

theorem Puts.stateOf_other (puts : s.Puts id cd next) {other : String} (different : other ≠ id) :
    next.stateOf other = s.stateOf other := by
  rw [stateOf, stateOf, entry, entry, puts.entries, if_neg different]

theorem Same.stateOf (same : s.Same next) (id : String) : next.stateOf id = s.stateOf id := by
  rw [UserService.stateOf, UserService.stateOf, entry, entry, same.entries]

theorem Tied.same (tied : s.Tied) (same : s.Same next) : next.Tied where
  indexed := same.contacts ▸ tied.indexed
  known id := by rw [same.contacts, same.entries, tied.known]
  entries id cd found := tied.entries id cd (by rw [← same.entries, found])

theorem Tied.puts (tied : s.Tied) (puts : s.Puts id cd next) (known : id ∈ s.contacts.ids)
    (entry : cd.Tied id) : next.Tied where
  indexed := puts.contacts ▸ tied.indexed
  known other := by
    rw [puts.contacts, puts.entries]
    split
    · rename_i here
      simp [here, known]
    · exact tied.known other
  entries other found there := by
    rw [puts.entries] at there
    split at there
    · rename_i here
      cases there
      exact here ▸ entry
    · exact tied.entries other found there

theorem Tied.lookup (tied : s.Tied) (known : id ∈ s.contacts.ids) :
    ∃ cd, s.contactData.lookup id = some cd ∧ cd.Tied id := by
  obtain ⟨cd, found⟩ := Option.isSome_iff_exists.mp ((tied.known id).mp known)
  exact ⟨cd, found, tied.entries id cd found⟩

theorem Tied.known_of_lookup (tied : s.Tied) (found : s.contactData.lookup id = some cd) :
    id ∈ s.contacts.ids := (tied.known id).mpr (by rw [found, Option.isSome_some])

theorem Tied.byId (tied : s.Tied) (known : id ∈ s.contacts.ids) :
    ∃ c, c.id = id ∧ s.byId id = .ok (some c) := by
  obtain ⟨c, -, same, found⟩ := tied.indexed.byId_of_mem known
  exact ⟨c, same, found⟩

end Relations

section Events

variable {s : UserService Public} {id : String} {cd : ContactData}

theorem fireContactConnectedEvent_spec (indexed : s.contacts.Indexed)
    (known : id ∈ s.contacts.ids) (found : s.contactData.lookup id = some cd) :
    (cd.state = .offline → s.fireContactConnectedEvent id =
      .error (.raised .check "cd.state == contact_data::CONNECTING")) ∧
    (cd.state = .connected → ∃ next, s.fireContactConnectedEvent id = .ok next ∧
      s.Puts id cd next) ∧
    (cd.state = .connecting → ∃ next c, s.fireContactConnectedEvent id = .ok next ∧ c.id = id ∧
      s.Puts id { cd with contact := some c, idle := true, lastPing := 0, state := .connected }
        next) := by
  obtain ⟨c, -, rfl, byId⟩ := indexed.byId_of_mem known
  have entry : s.entry c.id = cd := entry_of_lookup found
  simp only [fireContactConnectedEvent, contactConnected, UserService.byId, byId, ok_bind, entry]
  refine ⟨fun offline => ?_, fun connected => ?_, fun connecting => ?_⟩
  · rw [offline]
    rfl
  · rw [if_pos connected]
    exact ⟨_, rfl, puts_put⟩
  · rw [connecting]
    exact ⟨_, c, rfl, rfl, puts_put.same ⟨rfl, fun _ => rfl⟩⟩

theorem fireContactDisconnectedEvent_spec (indexed : s.contacts.Indexed)
    (known : id ∈ s.contacts.ids) (found : s.contactData.lookup id = some cd)
    (contact : cd.contact.isSome = true) :
    ∃ next, s.fireContactDisconnectedEvent id = .ok next ∧
      s.Puts id (if cd.state = .offline then cd
        else { cd with state := .offline, lastPing := pingThresh }) next := by
  obtain ⟨c, -, rfl, byId⟩ := indexed.byId_of_mem known
  have entry : s.entry c.id = cd := entry_of_lookup found
  obtain ⟨holder, contact⟩ := Option.isSome_iff_exists.mp contact
  simp only [fireContactDisconnectedEvent, UserService.byId, byId, ok_bind, entry, contact]
  cases state : cd.state with
  | offline => exact ⟨_, rfl, puts_put⟩
  | connecting => exact ⟨_, rfl, puts_put⟩
  | connected => exact ⟨_, rfl, puts_put.same ⟨rfl, fun _ => rfl⟩⟩

theorem contactConnecting_spec (indexed : s.contacts.Indexed) (known : id ∈ s.contacts.ids) :
    ∃ next cd, s.contactConnecting id = .ok (true, next) ∧ s.Puts id cd next ∧ cd.Tied id ∧
      cd.state = .connecting := by
  obtain ⟨c, -, rfl, byId⟩ := indexed.byId_of_mem known
  let cd : ContactData := { s.entry c.id with
    idle := true
    contact := some c
    lastPing := 0
    state := .connecting }
  refine ⟨_, cd, ?_, puts_put, ⟨⟨c, rfl, rfl⟩, fun _ => rfl⟩, rfl⟩
  simp only [contactConnecting, UserService.byId, byId, ok_bind]
  rfl

theorem updateContactVersion_spec (indexed : s.contacts.Indexed) (known : id ∈ s.contacts.ids)
    (found : s.contactData.lookup id = some cd) (entry : cd.Tied id)
    (protocolVersion clientVersion : Int) :
    ∃ next later, s.updateContactVersion id protocolVersion clientVersion = .ok next ∧
      s.Puts id later next ∧ later.Tied id ∧ later.state = cd.state := by
  obtain ⟨c, -, rfl, byId⟩ := indexed.byId_of_mem known
  rw [updateContactVersion]
  split
  · exact ⟨_, _, rfl, Same.rfl.puts_found found, entry, rfl⟩
  · simp only [UserService.byId, byId, ok_bind, entry_of_lookup found]
    exact ⟨_, _, rfl, puts_put, ⟨entry.contact, entry.online⟩, rfl⟩

theorem updateContactAddress_spec (indexed : s.contacts.Indexed) (known : id ∈ s.contacts.ids)
    (ip : String) (port : Nat) :
    ∃ next, s.updateContactAddress id ip port = .ok next ∧ s.Same next := by
  obtain ⟨c, -, rfl, byId⟩ := indexed.byId_of_mem known
  simp only [updateContactAddress, UserService.byId, byId, ok_bind]
  split
  · exact ⟨_, rfl, rfl, fun _ => rfl⟩
  · exact ⟨_, rfl, rfl, fun _ => rfl⟩

theorem setupSecurityConversation_spec (ip : String) (port : Nat) (key : String)
    (publicVal : Public) :
    ∃ next, s.setupSecurityConversation (makeUdpAddress ip port) key publicVal = .ok next ∧
      s.Same next := by
  have named : (makeUdpAddress ip port).isEmpty = false := by
    simp [makeUdpAddress]
  rw [setupSecurityConversation, named]
  exact ⟨_, rfl, rfl, fun _ => rfl⟩

end Events

end UserService

section Pinged

variable {p : ContactData} {state : UInt8}

theorem pinged_spec : ∃ r, p.pinged state = .ok r ∧ r.data.state = p.state ∧
    r.data.contact = p.contact ∧ r.curState = decide (state ≠ disconnectedByte) ∧
    r.data.lastPing = (if state = disconnectedByte then pingThresh + pingThresh else 0) ∧
    r.fireEvent = (r.curState != available p.lastPing || p.state == .connecting) := by
  rw [ContactData.pinged]
  by_cases idle : state = idleByte
  · subst idle
    exact ⟨_, rfl, rfl, rfl, rfl, rfl, rfl⟩
  · by_cases connected : state = connectedByte
    · subst connected
      exact ⟨_, rfl, rfl, rfl, rfl, rfl, rfl⟩
    · by_cases disconnected : state = disconnectedByte
      · subst disconnected
        exact ⟨_, rfl, rfl, rfl, rfl, rfl, rfl⟩
      · rw [if_neg idle, if_neg connected, if_neg disconnected]
        refine ⟨_, rfl, rfl, rfl, ?_, ?_, rfl⟩
        · rw [decide_eq_true disconnected]
          rfl
        · rw [if_neg disconnected]

end Pinged

end Firestr.User
