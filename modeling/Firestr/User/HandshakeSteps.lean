import Firestr.Security.ChannelProperties
import Firestr.User.Handshake

/-! What the operations of one user do in a handshake: to its channels, to the
address of the other, and to what it has sent. -/

set_option autoImplicit false

namespace Firestr.User

open Firestr.Library.OrderedMap Firestr.Security Firestr.Util

theorem ContactInfo.address_addKnownAddress (info : ContactInfo) (v : String) :
    (info.addKnownAddress v).address = v := by
  rw [ContactInfo.address, ContactInfo.addKnownAddress]
  split
  · rename_i full
    cases others : info.addresses.erase v with
    | nil =>
        rw [others] at full
        exact absurd full (Nat.not_lt.mpr (by decide : 1 ≤ maxAddresses))
    | cons first rest => rfl
  · rfl

namespace UserService

variable {Public : Type}

/-- The contacts are tied to their states, and all channels are for one key. -/
structure Sound (key : String) (s : UserService Public) : Prop where
  tied : s.Tied
  keyed : s.encryptedChannels.KeyedBy key

/-- What the user sends: requests with the secret drawn for their address, and
pings that do not disconnect. -/
inductive Sends (publicValue : Nat → Public) (s : UserService Public) :
    UserMessage Public → Prop where
  | request {address : String} {sendBack : Bool} {c : Channel Public} {pv cv : Int} :
      s.encryptedChannels.channels address = some c → Sends publicValue s
        (.pingRequest address s.self sendBack (publicValue c.sharedSecret.secret) pv cv)
  | ping {address : String} {state : UInt8} : state ≠ disconnectedByte →
      Sends publicValue s (.ping address s.self state)

/-- Only contact states, versions and events may be different. -/
structure Unmoved (s next : UserService Public) : Prop where
  self : next.self = s.self
  infos : next.infos = s.infos
  contacts : next.contacts = s.contacts
  channels : next.encryptedChannels = s.encryptedChannels
  outbox : next.outbox = s.outbox

/-- `next` uses the addresses of `s`, may have new channels that are not ready,
and has nobody offline who was not. -/
structure Advances (key : String) (publicValue : Nat → Public) (s next : UserService Public) :
    Prop where
  sound : next.Sound key
  self : next.self = s.self
  infos : next.infos = s.infos
  contacts : next.contacts = s.contacts
  channels : s.encryptedChannels.Grows next.encryptedChannels
  outbox : ∀ m ∈ next.outbox, m ∈ s.outbox ∨ next.Sends publicValue m
  online : ∀ id, s.stateOf id ≠ .offline → next.stateOf id ≠ .offline

/-- `next` uses the address for the contact, and has a channel for it. -/
structure Relocates (key : String) (id address : String) (s next : UserService Public) : Prop where
  sound : next.Sound key
  self : next.self = s.self
  same : s.Same next
  current : (next.infos id).address = address
  key : (next.infos id).key = (s.infos id).key
  channels : s.encryptedChannels.Grows next.encryptedChannels
  there : ∃ c, next.encryptedChannels.channels address = some c
  outbox : next.outbox = s.outbox

section Sends

variable {publicValue : Nat → Public} {s next : UserService Public} {m : UserMessage Public}

/-- A message stays right as long as the channels keep their secrets. -/
theorem Sends.mono (sends : s.Sends publicValue m) (self : next.self = s.self)
    (kept : s.encryptedChannels.KeepsSecrets next.encryptedChannels) :
    next.Sends publicValue m := by
  cases sends with
  | request found =>
      obtain ⟨d, there, same⟩ := kept _ _ found
      rw [← self, ← same]
      exact .request there
  | ping connects =>
      rw [← self]
      exact .ping connects

end Sends

section Advances

variable {key : String} {publicValue : Nat → Public} {s between next : UserService Public}

theorem Advances.rfl (sound : s.Sound key) : s.Advances key publicValue s :=
  ⟨sound, .refl _, .refl _, .refl _, .rfl, fun _ member => .inl member, fun _ online => online⟩

theorem Advances.trans (first : s.Advances key publicValue between)
    (second : between.Advances key publicValue next) : s.Advances key publicValue next where
  sound := second.sound
  self := second.self.trans first.self
  infos := second.infos.trans first.infos
  contacts := second.contacts.trans first.contacts
  channels := first.channels.trans second.channels
  outbox m member := by
    rcases second.outbox m member with before | sent
    · rcases first.outbox m before with before | sent
      · exact .inl before
      · exact .inr (sent.mono second.self second.channels.keepsSecrets)
    · exact .inr sent
  online id online := second.online id (first.online id online)

theorem Unmoved.rfl : s.Unmoved s := ⟨.refl _, .refl _, .refl _, .refl _, .refl _⟩

theorem Unmoved.trans (first : s.Unmoved between) (second : between.Unmoved next) :
    s.Unmoved next where
  self := second.self.trans first.self
  infos := second.infos.trans first.infos
  contacts := second.contacts.trans first.contacts
  channels := second.channels.trans first.channels
  outbox := second.outbox.trans first.outbox

theorem Unmoved.advances (unmoved : s.Unmoved next) (sound : s.Sound key) (tied : next.Tied)
    (online : ∀ id, s.stateOf id ≠ .offline → next.stateOf id ≠ .offline) :
    s.Advances key publicValue next where
  sound := ⟨tied, unmoved.channels.symm ▸ sound.keyed⟩
  self := unmoved.self
  infos := unmoved.infos
  contacts := unmoved.contacts
  channels := unmoved.channels.symm ▸ .rfl
  outbox _ member := .inl (unmoved.outbox ▸ member)
  online := online

end Advances

section Operations

variable {key : String} {publicValue : Nat → Public} {s next : UserService Public} {c : UserInfo}
  {id : String}

theorem sendPingRequestTo_advances (sound : s.Sound key) (sendBack : Bool) (address : String)
    (success : s.sendPingRequestTo publicValue key sendBack address = .ok next) :
    s.Advances key publicValue next := by
  rw [sendPingRequestTo] at success
  obtain ⟨c, got, success⟩ := bind_ok success
  cases success
  have found : (s.encryptedChannels.createChannel address key).channels address = some c := by
    rw [EncryptedChannels.getChannel] at got
    split at got
    · rename_i there
      cases got
      exact there
    · cases got
  refine ⟨⟨sound.tied.same ⟨rfl, fun _ => rfl⟩,
    EncryptedChannels.createChannel_keyedBy sound.keyed address⟩, rfl, rfl, rfl,
    EncryptedChannels.createChannel_grows sound.keyed address, fun m member => ?_,
    fun _ online => online⟩
  rcases List.mem_append.mp member with before | new
  · exact .inl before
  · cases List.mem_singleton.mp new
    exact .inr (.request found)

theorem sendPingRequest_advances (sound : s.Sound key) (sendBack : Bool)
    (named : (s.infos c.id).key = key)
    (success : s.sendPingRequest publicValue c sendBack = .ok next) :
    s.Advances key publicValue next := by
  have loop (addresses : List String) : ∀ {s : UserService Public}, s.Sound key →
      addresses.foldlM (sendPingRequestTo publicValue key sendBack) s = .ok next →
      s.Advances key publicValue next := by
    clear success named sound
    induction addresses with
    | nil =>
        intro s sound success
        cases success
        exact .rfl sound
    | cons address rest ih =>
        intro s sound success
        rw [List.foldlM_cons] at success
        obtain ⟨between, sent, success⟩ := bind_ok success
        have first := sendPingRequestTo_advances sound sendBack address sent
        exact first.trans (ih first.sound success)
  rw [sendPingRequest] at success
  obtain ⟨_, -, success⟩ := bind_ok success
  obtain ⟨_, -, success⟩ := bind_ok success
  subst named
  exact loop _ sound success

theorem updateContactVersion_advances (publicValue : Nat → Public) (sound : s.Sound key) (known : id ∈ s.contacts.ids)
    {protocolVersion clientVersion : Int}
    (success : s.updateContactVersion id protocolVersion clientVersion = .ok next) :
    s.Advances key publicValue next ∧ ∀ other, next.stateOf other = s.stateOf other := by
  obtain ⟨p, found, entry⟩ := sound.tied.lookup known
  obtain ⟨_, later, success', puts, kept, state⟩ := updateContactVersion_spec sound.tied.indexed
    known found entry protocolVersion clientVersion
  cases success.symm.trans success'
  have states : ∀ other, next.stateOf other = s.stateOf other := by
    intro other
    by_cases here : other = id
    · rw [here, puts.stateOf_self, state, stateOf, entry_of_lookup found]
    · exact puts.stateOf_other here
  have unmoved : s.Unmoved next := by
    rw [updateContactVersion] at success
    split at success
    · cases success
      exact .rfl
    · obtain ⟨found?, -, success⟩ := bind_ok success
      cases found? with
      | none =>
          cases success
          exact .rfl
      | some c =>
          cases success
          exact ⟨rfl, rfl, rfl, rfl, rfl⟩
  refine ⟨unmoved.advances sound (sound.tied.puts puts known kept) fun other online => ?_, states⟩
  rw [states]
  exact online

theorem contactConnecting_advances (publicValue : Nat → Public) (sound : s.Sound key) (known : id ∈ s.contacts.ids)
    {changed : Bool} (success : s.contactConnecting id = .ok (changed, next)) :
    s.Advances key publicValue next ∧ next.stateOf id ≠ .offline := by
  obtain ⟨_, cd, success', puts, joined, connecting⟩ := contactConnecting_spec
    sound.tied.indexed known
  cases success.symm.trans success'
  have state : next.stateOf id ≠ .offline := by
    rw [puts.stateOf_self, connecting]
    exact fun offline => by cases offline
  have unmoved : s.Unmoved next := by
    rw [contactConnecting] at success
    obtain ⟨found?, -, success⟩ := bind_ok success
    cases found? with
    | none => cases success
    | some c =>
        obtain ⟨_, -, success⟩ := bind_ok success
        cases success
        exact ⟨rfl, rfl, rfl, rfl, rfl⟩
  refine ⟨unmoved.advances sound (sound.tied.puts puts known joined) fun other online => ?_, state⟩
  by_cases here : other = id
  · exact here ▸ state
  · rw [puts.stateOf_other here]
    exact online

theorem updateContactAddress_relocates (sound : s.Sound key) (known : id ∈ s.contacts.ids)
    (named : (s.infos id).key = key) {ip : String} {port : Nat}
    (success : s.updateContactAddress id ip port = .ok next) :
    s.Relocates key id (makeUdpAddress ip port) next := by
  obtain ⟨c, same, byId⟩ := sound.tied.byId known
  subst same
  rw [updateContactAddress, byId, ok_bind] at success
  simp only [named] at success
  have keyed := EncryptedChannels.createChannel_keyedBy sound.keyed (makeUdpAddress ip port)
  have grows := EncryptedChannels.createChannel_grows sound.keyed (makeUdpAddress ip port)
  have made := EncryptedChannels.createChannel_made sound.keyed (makeUdpAddress ip port)
  split at success
  · rename_i current
    cases success
    exact ⟨⟨sound.tied.same ⟨rfl, fun _ => rfl⟩, keyed⟩, rfl, ⟨rfl, fun _ => rfl⟩, current, rfl,
      grows, made, rfl⟩
  · cases success
    refine ⟨⟨sound.tied.same ⟨rfl, fun _ => rfl⟩, keyed⟩, rfl, ⟨rfl, fun _ => rfl⟩, ?_, ?_,
      grows, made, rfl⟩
    · change (Function.update s.infos c.id _ c.id).address = _
      rw [Function.update_self]
      exact ContactInfo.address_addKnownAddress _ _
    · change (Function.update s.infos c.id _ c.id).key = _
      rw [Function.update_self]
      rfl

theorem sendPingTo_advances (sound : s.Sound key) {st : UInt8} (connects : st ≠ disconnectedByte)
    {force : Bool} (success : sendPingTo st force s id = .ok next) :
    s.Advances key publicValue next := by
  rw [sendPingTo] at success
  split at success
  · cases success
    exact .rfl sound
  · rename_i p found
    obtain ⟨c, contact, same⟩ := (sound.tied.entries id p found).contact
    obtain ⟨holder, -, byId⟩ := sound.tied.byId (sound.tied.known_of_lookup found)
    simp only [contact] at success
    split at success
    · cases success
      exact .rfl sound
    · obtain ⟨_, -, success⟩ := bind_ok success
      obtain ⟨_, -, success⟩ := bind_ok success
      rw [same, byId, ok_bind] at success
      cases success
      refine ⟨⟨sound.tied.same ⟨rfl, fun _ => rfl⟩, sound.keyed⟩, rfl, rfl, rfl, .rfl,
        fun m member => ?_, fun _ online => online⟩
      rcases List.mem_append.mp member with before | new
      · exact .inl before
      · cases List.mem_singleton.mp new
        exact .inr (.ping connects)

theorem fireContactConnectedEvent_unmoved (success : s.fireContactConnectedEvent id = .ok next) :
    s.Unmoved next ∧ ∀ other, s.stateOf other ≠ .offline → next.stateOf other ≠ .offline := by
  rw [fireContactConnectedEvent, contactConnected] at success
  obtain ⟨⟨changed, after⟩, connected, success⟩ := bind_ok success
  obtain ⟨found?, -, connected⟩ := bind_ok connected
  have reached : s.Unmoved after ∧
      ∀ other, s.stateOf other ≠ .offline → after.stateOf other ≠ .offline := by
    cases found? with
    | none =>
        cases connected
        exact ⟨.rfl, fun _ online => online⟩
    | some c =>
        have kept (cd : ContactData) (still : s.stateOf c.id ≠ .offline → cd.state ≠ .offline) :
            ∀ other, s.stateOf other ≠ .offline → (s.put c.id cd).stateOf other ≠ .offline := by
          intro other online
          have puts : s.Puts c.id cd (s.put c.id cd) := puts_put
          by_cases here : other = c.id
          · rw [here] at online ⊢
            rw [puts.stateOf_self]
            exact still online
          · rw [puts.stateOf_other here]
            exact online
        simp only at connected
        split at connected
        · cases connected
          exact ⟨⟨rfl, rfl, rfl, rfl, rfl⟩, kept _ fun online => online⟩
        · obtain ⟨_, -, connected⟩ := bind_ok connected
          obtain ⟨_, -, connected⟩ := bind_ok connected
          cases connected
          exact ⟨⟨rfl, rfl, rfl, rfl, rfl⟩, kept _ fun _ offline => by cases offline⟩
  cases changed with
  | true =>
      cases success
      exact ⟨reached.1.trans ⟨rfl, rfl, rfl, rfl, rfl⟩, reached.2⟩
  | false =>
      cases success
      exact reached

theorem receivedPing_advances (sound : s.Sound key) {state : UInt8}
    (connects : state ≠ disconnectedByte) (success : s.receivedPing id [state] = .ok next) :
    s.Advances key publicValue next := by
  have tied : next.Tied := @tied_of_step _ publicValue _ _ (.ping id [state]) sound.tied success
  rw [receivedPing] at success
  split at success
  · cases success
    exact .rfl sound
  · rename_i p found
    split at success
    · cases success
      exact .rfl sound
    · obtain ⟨r, pinged, success⟩ := bind_ok success
      obtain ⟨last, fired, success⟩ := bind_ok success
      obtain ⟨_, pinged', same, -, cur, -⟩ := @pinged_spec p (pingState [state])
      cases pinged.symm.trans pinged'
      have puts : s.Puts id r.data (s.put id r.data) := puts_put
      have states : ∀ other, (s.put id r.data).stateOf other = s.stateOf other := by
        intro other
        by_cases here : other = id
        · rw [here, puts.stateOf_self, same, stateOf, entry_of_lookup found]
        · exact puts.stateOf_other here
      have fires : (s.put id r.data).Unmoved last ∧
          ∀ other, s.stateOf other ≠ .offline → last.stateOf other ≠ .offline := by
        split at fired
        · rw [if_pos (cur.trans (decide_eq_true connects))] at fired
          obtain ⟨unmoved, online⟩ := fireContactConnectedEvent_unmoved fired
          exact ⟨unmoved, fun other before => online other ((states other).symm ▸ before)⟩
        · cases fired
          exact ⟨.rfl, fun other before => (states other).symm ▸ before⟩
      have put : s.Unmoved (s.put id r.data) := ⟨rfl, rfl, rfl, rfl, rfl⟩
      have first : s.Unmoved last := put.trans fires.1
      cases success
      split at tied
      · rw [if_pos ‹_›]
        have event : last.Unmoved (last.sendEvent (.contactActivityChanged id)) :=
          ⟨rfl, rfl, rfl, rfl, rfl⟩
        exact (first.trans event).advances sound tied fires.2
      · rw [if_neg ‹_›]
        exact first.advances sound tied fires.2

end Operations

section Requests

theorem Tied.id_of_byId {s : UserService Public} (tied : s.Tied) {id : String} {c : UserInfo}
    (found : s.byId id = .ok (some c)) : c.id = id := by
  by_cases known : id ∈ s.contacts.ids
  · obtain ⟨d, same, byId⟩ := tied.byId known
    cases found.symm.trans byId
    exact same
  · cases found.symm.trans (tied.indexed.byId_of_not_mem known)

variable {key : String} {publicValue : Nat → Public} {s next : UserService Public}
  {r : ConnectRequest Public} {idle : Bool}

theorem offline_iff {id : String} (tied : s.Tied) (known : id ∈ s.contacts.ids) :
    s.stateOf id = .offline ↔ s.contactAvailable id = false ∧ s.isContactConnecting id = false := by
  obtain ⟨p, found, entry⟩ := tied.lookup known
  obtain ⟨c, contact, -⟩ := entry.contact
  rw [contactAvailable, isContactConnecting, stateOf, UserService.entry_of_lookup found, found]
  simp only [contact, Option.isSome_some, Bool.true_and]
  cases p.state <;> decide

/-- A request from a contact that is not offline only updates its version. -/
theorem receivedConnectRequest_ignores (sound : s.Sound key)
    (closed : r.fromId ∈ s.contacts.ids → s.stateOf r.fromId ≠ .offline)
    (success : s.receivedConnectRequest publicValue r idle = .ok next) :
    s.Advances key publicValue next := by
  by_cases known : r.fromId ∈ s.contacts.ids
  · obtain ⟨c, same, byId⟩ := sound.tied.byId known
    rw [receivedConnectRequest] at success
    simp only [byId, ok_bind, same] at success
    obtain ⟨versioned, updated, success⟩ := bind_ok success
    obtain ⟨advances, states⟩ := updateContactVersion_advances publicValue sound
      known updated
    have online := (offline_iff advances.sound.tied (advances.contacts ▸ known)).not.mp
      ((states _).symm ▸ closed known)
    split at success
    · cases success
      exact advances
    · split at success
      · cases success
        exact advances
      · rename_i available connecting
        exact absurd ⟨Bool.eq_false_iff.mpr available, Bool.eq_false_iff.mpr connecting⟩ online
  · rw [receivedConnectRequest, UserService.byId, sound.tied.indexed.byId_of_not_mem known] at success
    cases success
    exact .rfl sound

/-- What a request that is taken does, one part after the other. -/
theorem receivedConnectRequest_takes (sound : s.Sound key) (known : r.fromId ∈ s.contacts.ids)
    (offline : s.stateOf r.fromId = .offline) (named : (s.infos r.fromId).key = key)
    (success : s.receivedConnectRequest publicValue r idle = .ok next) :
    ∃ versioned moved joining, s.Advances key publicValue versioned ∧
      versioned.Relocates key r.fromId (makeUdpAddress r.fromIp r.fromPort) moved ∧
      moved.Advances key publicValue joining ∧ joining.stateOf r.fromId ≠ .offline ∧
      ((joining.encryptedChannels.createReadyChannel (makeUdpAddress r.fromIp r.fromPort) key
          r.publicSecret).KeyedBy key →
        Advances key publicValue { joining with
          encryptedChannels := joining.encryptedChannels.createReadyChannel
            (makeUdpAddress r.fromIp r.fromPort) key r.publicSecret } next) := by
  obtain ⟨c, same, byId⟩ := sound.tied.byId known
  rw [receivedConnectRequest] at success
  simp only [byId, ok_bind, same] at success
  obtain ⟨versioned, updated, success⟩ := bind_ok success
  obtain ⟨advances, states⟩ := updateContactVersion_advances publicValue sound
    known updated
  have known' : r.fromId ∈ versioned.contacts.ids := advances.contacts ▸ known
  obtain ⟨available, connecting⟩ := (offline_iff advances.sound.tied known').mp
    ((states _).trans offline)
  rw [available, connecting] at success
  simp only [Bool.false_eq_true, if_false] at success
  obtain ⟨moved, relocated, success⟩ := bind_ok success
  have named' : (versioned.infos r.fromId).key = key := advances.infos ▸ named
  have relocates := updateContactAddress_relocates advances.sound known' named' relocated
  have known₂ : r.fromId ∈ moved.contacts.ids := relocates.same.contacts ▸ known'
  obtain ⟨asked, asks, success⟩ := bind_ok success
  have asking : moved.Advances key publicValue asked := by
    split at asks
    · refine sendPingRequest_advances relocates.sound false ?_ asks
      rw [same]
      exact relocates.key.trans named'
    · cases asks
      exact .rfl relocates.sound
  obtain ⟨⟨changed, joining⟩, joined, success⟩ := bind_ok success
  obtain ⟨joins, online⟩ := contactConnecting_advances publicValue asking.sound
    (asking.contacts ▸ known₂) joined
  obtain ⟨ready, setup, success⟩ := bind_ok success
  rw [setupSecurityConversation] at setup
  obtain ⟨_, -, setup⟩ := bind_ok setup
  cases setup
  have named₂ : (joining.infos r.fromId).key = key := by
    rw [joins.infos, asking.infos, relocates.key, named']
  refine ⟨versioned, moved, joining, advances, relocates, asking.trans joins, online,
    fun keyed => ?_⟩
  rw [named₂] at success
  refine sendPingTo_advances ⟨joins.sound.tied.same ⟨rfl, fun _ => rfl⟩, keyed⟩ ?_ success
  cases idle <;> decide

end Requests

end UserService

end Firestr.User
