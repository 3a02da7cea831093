import Firestr.Library.Assoc
import Firestr.Library.Runs
import Firestr.User.ThreadSteps

/-! When no assertion fails, however the threads take turns: no thread may run
into the middle of a test or a handshake, and contacts in use do not share their
addresses. -/

set_option autoImplicit false

namespace Firestr.User

open Firestr.Library.Outcomes Firestr.Library.Runs Firestr.Security Firestr.Util

variable {Public : Type} {publicValue : Nat → Public}

/-- The requirements of `send_ping_request` are still to be tested. -/
def RequestStage.Pending : RequestStage → Prop
  | .connecting => True
  | .available => True
  | .sending _ => False

/-- The contact is connecting, and its channel is not set up yet. -/
def ServiceStage.Joins (id : String) : ServiceStage Public → Prop
  | .setup _ c => c.id = id
  | _ => False

/-- The first ping to the contact is still to be sent. -/
def ServiceStage.Greets (id : String) : ServiceStage Public → Prop
  | .greet c => c.id = id
  | _ => False

/-- The address of the contact has been updated, and its request is being answered. -/
def ServiceStage.Answers (id : String) : ServiceStage Public → Prop
  | .ask _ c _ => c.id = id
  | .join _ c => c.id = id
  | .setup _ c => c.id = id
  | .greet c => c.id = id
  | _ => False

/-- The thread has found the contact not connecting, and has not yet met the
requirements of `send_ping_request`. -/
def ReconnectStage.Tests (id : String) : ReconnectStage → Prop
  | .testAvailable c _ => c.id = id
  | .ask c request _ => request.Pending ∧ c.id = id
  | _ => False

/-- The contact that `confirm_contact` has added, until the first request to it. -/
def ConfirmStage.holds : ConfirmStage → Option UserInfo
  | .addData c => some c
  | .checkConnecting c => some c
  | .checkAvailable c => some c
  | .ask c .connecting => some c
  | .ask c .available => some c
  | _ => none

namespace Threads

/-- Pings may go to the contact. -/
def Uses (p : Threads Public) (id : String) : Prop :=
  (p.user.stateOf id ≠ .offline ∧ ¬p.service.Joins id) ∨ p.service.Greets id

/-- The step makes a channel for the address, unless there is one for the key. -/
inductive Makes (p : Threads Public) : Action Public → String → String → Prop where
  | move {r : ConnectRequest Public} {c : UserInfo} {idle : Bool} : p.service = .move r c →
      p.mutexFree = true →
      Makes p (.service idle) (makeUdpAddress r.fromIp r.fromPort) (p.user.infos c.id).key
  | ask {r : ConnectRequest Public} {c : UserInfo} {idle : Bool} {address : String}
      {rest : List String} : p.service = .ask r c (.sending (address :: rest)) →
      Makes p (.service idle) address (p.user.infos c.id).key
  | reconnect {c : UserInfo} {address : String} {rest : List String} {more : List UserInfo} :
      p.reconnect = .ask c (.sending (address :: rest)) more →
      Makes p .reconnect address (p.user.infos c.id).key
  | confirm {c : UserInfo} {address : String} {rest : List String} :
      p.confirm = .ask c (.sending (address :: rest)) →
      Makes p .confirmNext address (p.user.infos c.id).key

/-- The step takes a connected contact offline, and removes the channels of all
its addresses. -/
inductive Drops (p : Threads Public) : Action Public → String → Prop where
  | fire {id : String} {idle idleEvent : Bool} : p.service = .fire id (some false) idleEvent →
      p.user.stateOf id = .connected → Drops p (.service idle) id
  | tick {id : String} {cd : ContactData} : p.user.contactData.lookup id = some cd →
      cd.lastPing = pingThresh → p.user.stateOf id = .connected → Drops p (.tick id) id

/-- The step does not run into the middle of what another thread does. -/
structure Spares (p : Threads Public) (action : Action Public) : Prop where
  tests : ∀ r c idle, action = .service idle → p.service = .join r c → ¬p.reconnect.Tests c.id
  pings : ∀ idle id, action = .sendPing idle id → ¬p.service.Joins id
  makes : ∀ address key, p.Makes action address key → ∀ id, p.Uses id →
    (p.user.infos id).address = address →
    ∀ c, p.user.encryptedChannels.channels address = some c → c.key = some key
  drops : ∀ id, p.Drops action id → ∀ other, other ≠ id → p.Uses other →
    (p.user.infos other).address ∉ (p.user.infos id).addresses

end Threads

/-- What holds where the service thread is. -/
def ServiceStage.Sound (s : UserService Public) : ServiceStage Public → Prop
  | .idle => True
  | .testAvailable _ c => c.id ∈ s.contacts.ids
  | .testConnecting _ c => c.id ∈ s.contacts.ids ∧ s.stateOf c.id ≠ .connected
  | .move _ c => c.id ∈ s.contacts.ids ∧ s.stateOf c.id = .offline
  | .ask r c _ => c.id ∈ s.contacts.ids ∧ s.stateOf c.id = .offline ∧
      (s.infos c.id).address = makeUdpAddress r.fromIp r.fromPort
  | .join r c => c.id ∈ s.contacts.ids ∧ s.stateOf c.id = .offline ∧
      (s.infos c.id).address = makeUdpAddress r.fromIp r.fromPort
  | .setup r c => c.id ∈ s.contacts.ids ∧ s.stateOf c.id ≠ .connected ∧
      (s.infos c.id).address = makeUdpAddress r.fromIp r.fromPort
  | .greet c => c.id ∈ s.contacts.ids ∧ s.stateOf c.id ≠ .connected
  | .fire _ _ _ => True

/-- What holds where the reconnect thread is. -/
def ReconnectStage.Sound (s : UserService Public) : ReconnectStage → Prop
  | .testAvailable c _ => s.stateOf c.id ≠ .connecting
  | .ask c request _ => request.Pending → s.stateOf c.id = .offline
  | _ => True

/-- What holds where the user's thread is. -/
def ConfirmStage.Sound (s : UserService Public) (service : ServiceStage Public)
    (stage : ConfirmStage) : Prop :=
  ∀ c, stage.holds = some c → c.id ∈ s.contacts.ids ∧ s.stateOf c.id = .offline ∧
    ¬service.Answers c.id

/-- A contact that may be pinged has a ready channel under its current address. -/
structure Threads.Sound (p : Threads Public) : Prop where
  safe : p.user.Safe
  service : p.service.Sound p.user
  reconnect : p.reconnect.Sound p.user
  confirm : p.confirm.Sound p.user p.service
  mutex : p.reconnect = .idle ∨ p.confirm = .idle
  serves : ∀ id, p.Uses id →
    UserService.Serves p.user.encryptedChannels (p.user.infos id).address

namespace ServiceStage

section Stages

variable {s : UserService Public} {stage : ServiceStage Public} {id : String}

theorem Sound.known (sound : stage.Sound s) (answers : stage.Answers id) :
    id ∈ s.contacts.ids := by
  cases stage with
  | ask r c request => exact answers ▸ sound.1
  | join r c => exact answers ▸ sound.1
  | setup r c => exact answers ▸ sound.1
  | greet c => exact answers ▸ sound.1
  | idle => exact answers.elim
  | testAvailable => exact answers.elim
  | testConnecting => exact answers.elim
  | move => exact answers.elim
  | fire => exact answers.elim

theorem Sound.greets (sound : stage.Sound s) (greets : stage.Greets id) :
    stage.Answers id ∧ s.stateOf id ≠ .connected := by
  cases stage with
  | greet c => exact ⟨greets, greets ▸ sound.2⟩
  | idle => exact greets.elim
  | testAvailable => exact greets.elim
  | testConnecting => exact greets.elim
  | move => exact greets.elim
  | ask => exact greets.elim
  | join => exact greets.elim
  | setup => exact greets.elim
  | fire => exact greets.elim

end Stages

end ServiceStage

namespace UserService

/-- Contacts may have come, and some may have gone offline. -/
structure Lowers (s next : UserService Public) : Prop where
  known : ∀ id ∈ s.contacts.ids, id ∈ next.contacts.ids
  stateOf : ∀ id, next.stateOf id = s.stateOf id ∨ next.stateOf id = .offline
  infos : ∀ id ∈ s.contacts.ids, next.infos id = s.infos id

section Lowers

variable {s next : UserService Public} {id : String} {state other : ContactState}

theorem Lowers.ne (lowers : s.Lowers next) (apart : s.stateOf id ≠ state)
    (online : state ≠ .offline) : next.stateOf id ≠ state := by
  intro same
  rcases lowers.stateOf id with kept | gone
  · exact apart (kept.symm.trans same)
  · exact online (same.symm.trans gone)

theorem Lowers.offline (lowers : s.Lowers next) (offline : s.stateOf id = .offline) :
    next.stateOf id = .offline := by
  rcases lowers.stateOf id with kept | gone
  · exact kept.trans offline
  · exact gone

theorem Lowers.rfl : s.Lowers s := ⟨fun _ member => member, fun _ => .inl (.refl _), fun _ _ => .refl _⟩

theorem Turns.lowers {channels : EncryptedChannels Public} (turns : s.Turns id state channels next)
    (lower : state = s.stateOf id ∨ state = .offline) : s.Lowers next where
  known _ member := turns.contacts.symm ▸ member
  stateOf other := by
    rw [turns.stateOf]
    split
    · rename_i here
      rw [here]
      exact lower
    · exact .inl rfl
  infos _ _ := by rw [turns.infos]

theorem Lowers.service (lowers : s.Lowers next) {stage : ServiceStage Public}
    (sound : stage.Sound s) : stage.Sound next := by
  cases stage with
  | idle => trivial
  | testAvailable r c => exact lowers.known _ sound
  | testConnecting r c =>
      exact ⟨lowers.known _ sound.1, lowers.ne sound.2 (by decide)⟩
  | move r c => exact ⟨lowers.known _ sound.1, lowers.offline sound.2⟩
  | ask r c request =>
      refine ⟨lowers.known _ sound.1, lowers.offline sound.2.1, ?_⟩
      rw [lowers.infos _ sound.1]
      exact sound.2.2
  | join r c =>
      refine ⟨lowers.known _ sound.1, lowers.offline sound.2.1, ?_⟩
      rw [lowers.infos _ sound.1]
      exact sound.2.2
  | setup r c =>
      refine ⟨lowers.known _ sound.1, lowers.ne sound.2.1 (by decide), ?_⟩
      rw [lowers.infos _ sound.1]
      exact sound.2.2
  | greet c => exact ⟨lowers.known _ sound.1, lowers.ne sound.2 (by decide)⟩
  | fire id event idleEvent => trivial

theorem Lowers.reconnect (lowers : s.Lowers next) {stage : ReconnectStage}
    (sound : stage.Sound s) : stage.Sound next := by
  cases stage with
  | idle => trivial
  | next rest => trivial
  | testAvailable c rest => exact lowers.ne sound (by decide)
  | ask c request rest => exact fun pending => lowers.offline (sound pending)

theorem Lowers.confirm (lowers : s.Lowers next) {service : ServiceStage Public}
    {stage : ConfirmStage} (sound : stage.Sound s service) : stage.Sound next service := by
  intro c held
  obtain ⟨known, offline, apart⟩ := sound c held
  exact ⟨lowers.known _ known, lowers.offline offline, apart⟩

end Lowers

end UserService

section Requests

variable {s : UserService Public}

theorem eq_offline {state : ContactState} (connecting : state ≠ .connecting)
    (connected : state ≠ .connected) : state = .offline := by
  cases state with
  | offline => rfl
  | connecting => exact absurd rfl connecting
  | connected => exact absurd rfl connected

/-- A part of `send_ping_request` for a contact that is offline while its
requirements are tested. -/
theorem requestStep_turns (publicValue : Nat → Public) (safe : s.Safe) (c : UserInfo) (sendBack : Bool) (request : RequestStage)
    (offline : request.Pending → s.stateOf c.id = .offline) :
    ∃ after next channels, requestStep publicValue c sendBack s request = .ok (after, next) ∧
      s.Turns c.id (s.stateOf c.id) channels next ∧
      (∀ stage, after = some stage → stage.Pending → request.Pending) ∧
      (channels = s.encryptedChannels ∨ ∃ address rest, request = .sending (address :: rest) ∧
        channels = s.encryptedChannels.createChannel address (s.infos c.id).key) := by
  cases request with
  | connecting =>
      have away : s.isContactConnecting c.id = false := by
        rw [Bool.eq_false_iff, ne_eq, safe.isContactConnecting_iff, offline trivial]
        decide
      refine ⟨some .available, s, _, ?_, safe.turns_self _, fun _ _ _ => trivial, .inl rfl⟩
      rw [requestStep, away]
      rfl
  | available =>
      have away : s.contactAvailable c.id = false := by
        rw [Bool.eq_false_iff, ne_eq, safe.contactAvailable_iff, offline trivial]
        decide
      refine ⟨some (.sending ((s.infos c.id).addresses.filter (· ≠ localAddress))), s, _, ?_,
        safe.turns_self _, fun _ _ _ => trivial, .inl rfl⟩
      rw [requestStep, away]
      rfl
  | sending addresses =>
      cases addresses with
      | nil => exact ⟨none, s, _, rfl, safe.turns_self _, fun _ same => (by cases same), .inl rfl⟩
      | cons address rest =>
          obtain ⟨next, sent, turns⟩ := UserService.sendPingRequestTo_turns publicValue
            safe c.id (s.infos c.id).key sendBack address
          refine ⟨some (.sending rest), next, _, ?_, turns, fun stage same pending => ?_,
            .inr ⟨address, rest, rfl, rfl⟩⟩
          · rw [requestStep, sent]
            rfl
          · cases same
            exact pending

end Requests

namespace Threads

section Steps

variable {p : Threads Public} {action : Action Public} {s : UserService Public} {id : String}

/-- A contact in use is a contact of the user. -/
theorem Sound.known_of_uses (sound : p.Sound) (uses : p.Uses id) : id ∈ p.user.contacts.ids := by
  rcases uses with ⟨online, -⟩ | greets
  · cases found : p.user.contactData.lookup id with
    | none => exact absurd (UserService.stateOf_of_none found) online
    | some cd =>
        cases contact : cd.contact with
        | none =>
            rw [UserService.stateOf_of_lookup found] at online
            exact absurd (sound.safe.bare id cd found contact) online
        | some c => exact (sound.safe.held id cd c found contact).2
  · exact sound.service.known (sound.service.greets greets).1

/-- The service thread stays where it is, and contacts may go offline. -/
theorem Sound.lowered (sound : p.Sound) (safe : s.Safe) (lowers : p.user.Lowers s)
    (serves : ∀ id, p.Uses id → s.stateOf id ≠ .offline ∨ p.service.Greets id →
      UserService.Serves s.encryptedChannels (p.user.infos id).address) :
    Sound { p with user := s } where
  safe := safe
  service := lowers.service sound.service
  reconnect := lowers.reconnect sound.reconnect
  confirm := lowers.confirm sound.confirm
  mutex := sound.mutex
  serves id uses := by
    have before : p.Uses id := by
      rcases uses with ⟨online, apart⟩ | greets
      · rcases lowers.stateOf id with kept | gone
        · exact .inl ⟨kept ▸ online, apart⟩
        · exact absurd gone online
      · exact .inr greets
    change UserService.Serves s.encryptedChannels (s.infos id).address
    rw [lowers.infos id (sound.known_of_uses before)]
    refine serves id before ?_
    rcases uses with ⟨online, -⟩ | greets
    · exact .inl online
    · exact .inr greets

/-- Making a channel that a step may make leaves the contacts in use theirs. -/
theorem Sound.serves_makes (sound : p.Sound) (spares : p.Spares action) {address key : String}
    (makes : p.Makes action address key) (uses : p.Uses id) :
    UserService.Serves (p.user.encryptedChannels.createChannel address key)
      (p.user.infos id).address :=
  (sound.serves id uses).createChannel fun here c found =>
    spares.makes address key makes id uses here.symm c found

/-- Going offline leaves the other contacts in use their channels. -/
theorem Sound.serves_dropped (sound : p.Sound) (spares : p.Spares action)
    (drops : p.user.stateOf id = .connected → p.Drops action id) {other : String}
    (uses : p.Uses other) (still : other = id → p.user.stateOf id ≠ .connected) :
    UserService.Serves (p.user.droppedChannels id) (p.user.infos other).address := by
  rw [UserService.droppedChannels]
  split
  · rename_i connected
    have apart : other ≠ id := fun same => still same connected
    exact (sound.serves other uses).removeChannels _
      (spares.drops id (drops connected) other apart uses)
  · exact sound.serves other uses

theorem Sound.tick (sound : p.Sound) (spares : p.Spares (.tick id)) :
    Meets ConnectedFault Sound (p.run publicValue (.tick id)) := by
  obtain ⟨next, ticked, turns | ⟨⟨cd, found, threshold⟩, turns⟩⟩ :=
    UserService.tickContact_turns sound.safe id
  · rw [run, ticked]
    refine sound.lowered turns.safe (turns.lowers (.inl rfl)) fun other uses _ => ?_
    rw [turns.channels]
    exact sound.serves other uses
  · rw [run, ticked]
    refine sound.lowered turns.safe (turns.lowers (.inr rfl)) fun other uses still => ?_
    rw [turns.channels]
    refine sound.serves_dropped spares (fun connected => .tick found threshold connected) uses ?_
    rintro rfl connected
    rcases still with online | greets
    · rw [turns.stateOf, if_pos rfl] at online
      exact online rfl
    · exact (sound.service.greets greets).2 connected

theorem Sound.sendPing (sound : p.Sound) {idle : Bool} (spares : p.Spares (.sendPing idle id)) :
    Meets ConnectedFault Sound (p.run publicValue (.sendPing idle id)) := by
  obtain ⟨next, sent, turns⟩ := UserService.sendPingTo_turns sound.safe id
    (UserService.userState idle) false fun online => by
      refine sound.serves id (.inl ⟨?_, spares.pings idle id rfl⟩)
      rcases online with online | forced
      · exact online
      · cases forced
  rw [run, sent]
  refine sound.lowered turns.safe (turns.lowers (.inl rfl)) fun other uses _ => ?_
  rw [turns.channels]
  exact sound.serves other uses

/-- The channels after a part of `send_ping_request` serve the contacts in use. -/
theorem Sound.serves_request (sound : p.Sound) (spares : p.Spares action) {c : UserInfo}
    {request : RequestStage} {channels : EncryptedChannels Public}
    (made : channels = p.user.encryptedChannels ∨ ∃ address rest,
      request = .sending (address :: rest) ∧
      channels = p.user.encryptedChannels.createChannel address (p.user.infos c.id).key)
    (makes : ∀ address rest, request = .sending (address :: rest) →
      p.Makes action address (p.user.infos c.id).key) (uses : p.Uses id) :
    UserService.Serves channels (p.user.infos id).address := by
  rcases made with rfl | ⟨address, rest, same, rfl⟩
  · exact sound.serves id uses
  · exact sound.serves_makes spares (makes address rest same) uses

theorem Sound.reconnectStep (sound : p.Sound) (spares : p.Spares .reconnect) :
    Meets ConnectedFault Sound (p.run publicValue .reconnect) := by
  rw [run]
  split
  · rename_i free
    have moved (stage : ReconnectStage) (here : stage.Sound p.user) :
        Sound { p with reconnect := stage } :=
      ⟨sound.safe, sound.service, here, sound.confirm, .inr free, sound.serves⟩
    have was := sound.reconnect
    cases stage : p.reconnect with
    | idle => exact moved _ trivial
    | next list =>
        cases list with
        | nil => exact moved _ trivial
        | cons c rest =>
            rw [User.reconnectStep]
            cases connecting : p.user.isContactConnecting c.id with
            | true => exact moved _ trivial
            | false =>
                refine moved (.testAvailable c rest) fun same => ?_
                rw [sound.safe.isContactConnecting_iff.mpr same] at connecting
                cases connecting
    | testAvailable c rest =>
        rw [stage] at was
        rw [User.reconnectStep]
        cases connected : p.user.contactAvailable c.id with
        | true => exact moved _ trivial
        | false =>
            refine moved (.ask c .connecting rest) fun _ => eq_offline was fun same => ?_
            rw [sound.safe.contactAvailable_iff.mpr same] at connected
            cases connected
    | ask c request rest =>
        rw [stage] at was
        obtain ⟨after, next, channels, sent, turns, pending, made⟩ := requestStep_turns
          publicValue sound.safe c true request was
        rw [User.reconnectStep, sent]
        have lowered := sound.lowered turns.safe (turns.lowers (.inl rfl)) fun other uses _ => by
          rw [turns.channels]
          refine sound.serves_request spares made (fun address more same => ?_) uses
          rw [same] at stage
          exact .reconnect stage
        refine ⟨lowered.safe, lowered.service, ?_, lowered.confirm, .inr free, lowered.serves⟩
        cases after with
        | none => trivial
        | some request' =>
            intro later
            change next.stateOf c.id = .offline
            rw [turns.stateOf, if_pos rfl]
            exact was (pending request' rfl later)
  · exact sound

theorem Sound.startConfirm (sound : p.Sound) {c : UserInfo} {info : ContactInfo} :
    Meets ConnectedFault Sound (p.run publicValue (.confirm c info)) := by
  rw [run]
  split
  · rename_i free
    rw [Threads.startConfirm]
    split
    · exact sound
    · by_cases known : c.id ∈ p.user.contacts.ids
      · obtain ⟨d, -, byId⟩ := sound.safe.byId_of_held known
        rw [byId]
        exact sound
      · have missing : p.user.byId c.id = .ok none := sound.safe.indexed.byId_of_not_mem known
        rw [missing, ok_bind]
        simp only
        rw [sound.safe.indexed.add_of_not_mem known, ok_bind]
        rw [mutexFree, Bool.and_eq_true, decide_eq_true_eq, decide_eq_true_eq] at free
        have offline : p.user.stateOf c.id = .offline := by
          cases found : p.user.contactData.lookup c.id with
          | none => exact UserService.stateOf_of_none found
          | some cd =>
              rw [UserService.stateOf_of_lookup found]
              cases contact : cd.contact with
              | none => exact sound.safe.bare c.id cd found contact
              | some d => exact absurd (sound.safe.held c.id cd d found contact).2 known
        have lowers : p.user.Lowers { p.user with
            contacts := p.user.contacts.pushed c
            infos := Function.update p.user.infos c.id info } := by
          refine ⟨fun id member => ?_, fun id => .inl rfl, fun id member => ?_⟩
          · change id ∈ (p.user.contacts.pushed c).ids
            rw [PointerList.ids_pushed]
            exact List.mem_append_left _ member
          · refine Function.update_of_ne (fun same => known ?_) ..
            rwa [same] at member
        have safe : UserService.Safe { p.user with
            contacts := p.user.contacts.pushed c
            infos := Function.update p.user.infos c.id info } := by
          refine ⟨sound.safe.indexed.pushed known, fun id cd d found held => ?_, sound.safe.bare⟩
          obtain ⟨same, member⟩ := sound.safe.held id cd d found held
          exact ⟨same, lowers.known id member⟩
        have lowered := sound.lowered safe lowers fun id uses _ => sound.serves id uses
        refine ⟨lowered.safe, lowered.service, lowered.reconnect, ?_, .inl free.1, lowered.serves⟩
        intro d held
        cases held
        refine ⟨?_, offline, fun answers => known ?_⟩
        · change c.id ∈ (p.user.contacts.pushed c).ids
          rw [PointerList.ids_pushed]
          exact List.mem_append_right _ (List.mem_singleton.mpr rfl)
        · exact sound.service.known answers
  · exact sound

theorem Sound.confirmNext (sound : p.Sound) (spares : p.Spares .confirmNext) :
    Meets ConnectedFault Sound (p.run publicValue .confirmNext) := by
  have was := sound.confirm
  rw [run]
  have moved (stage : ConfirmStage) (held : ∀ c, stage.holds = some c → p.confirm.holds = some c)
      (free : p.reconnect = .idle ∨ stage = .idle) : Sound { p with confirm := stage } :=
    ⟨sound.safe, sound.service, sound.reconnect, fun c here => was c (held c here), free,
      sound.serves⟩
  cases stage : p.confirm with
  | idle => exact moved .idle (fun c held => by cases held) (.inr rfl)
  | addData c =>
      have free : p.reconnect = .idle := sound.mutex.resolve_right fun same => by
        cases stage.symm.trans same
      obtain ⟨known, offline, apart⟩ := was c (by rw [stage]; rfl)
      have turns := UserService.addContactData_turns sound.safe known
      have lowered := sound.lowered turns.safe (turns.lowers (.inr rfl)) fun other uses _ => by
        rw [turns.channels]
        exact sound.serves other uses
      refine ⟨lowered.safe, lowered.service, lowered.reconnect, fun d held => ?_, .inl free,
        lowered.serves⟩
      exact lowered.confirm d (by rw [stage]; exact held)
  | checkConnecting c =>
      have free : p.reconnect = .idle := sound.mutex.resolve_right fun same => by
        cases stage.symm.trans same
      obtain ⟨known, offline, apart⟩ := was c (by rw [stage]; rfl)
      have away : p.user.isContactConnecting c.id = false := by
        rw [Bool.eq_false_iff, ne_eq, sound.safe.isContactConnecting_iff, offline]
        decide
      rw [User.confirmStep, away]
      exact moved (.checkAvailable c) (fun d held => by rw [stage]; exact held) (.inl free)
  | checkAvailable c =>
      have free : p.reconnect = .idle := sound.mutex.resolve_right fun same => by
        cases stage.symm.trans same
      obtain ⟨known, offline, apart⟩ := was c (by rw [stage]; rfl)
      have away : p.user.contactAvailable c.id = false := by
        rw [Bool.eq_false_iff, ne_eq, sound.safe.contactAvailable_iff, offline]
        decide
      rw [User.confirmStep, away]
      exact moved (.ask c .connecting) (fun d held => by rw [stage]; exact held) (.inl free)
  | ask c request =>
      have free : p.reconnect = .idle := sound.mutex.resolve_right fun same => by
        cases stage.symm.trans same
      have holds : request.Pending → p.confirm.holds = some c := by
        intro pending
        rw [stage]
        cases request with
        | connecting => rfl
        | available => rfl
        | sending => exact pending.elim
      obtain ⟨after, next, channels, sent, turns, pending, made⟩ := requestStep_turns
        publicValue sound.safe c true request fun pending =>
          (was c (holds pending)).2.1
      rw [User.confirmStep, sent]
      have lowered := sound.lowered turns.safe (turns.lowers (.inl rfl)) fun other uses _ => by
        rw [turns.channels]
        refine sound.serves_request spares made (fun address more same => ?_) uses
        rw [same] at stage
        exact .confirm stage
      refine ⟨lowered.safe, lowered.service, lowered.reconnect, fun d held => ?_, .inl free,
        lowered.serves⟩
      cases after with
      | none => cases held
      | some request' =>
          cases request' with
          | connecting =>
              refine lowered.confirm d ?_
              cases held
              exact holds (pending _ rfl trivial)
          | available =>
              refine lowered.confirm d ?_
              cases held
              exact holds (pending _ rfl trivial)
          | sending => cases held

/-- The service thread goes on to a stage in which it answers nobody new. -/
theorem Sound.goes (sound : p.Sound) (safe : s.Safe) (lowers : p.user.Lowers s)
    (serves : ∀ id, p.Uses id → s.stateOf id ≠ .offline ∨ p.service.Greets id →
      UserService.Serves s.encryptedChannels (p.user.infos id).address)
    {stage : ServiceStage Public} (here : stage.Sound s)
    (answers : ∀ id, stage.Answers id → p.service.Answers id ∨ p.confirm = .idle)
    (joins : ∀ id, p.service.Joins id → stage.Joins id)
    (greets : ∀ id, ¬stage.Greets id) :
    Sound { p with
      user := s
      service := stage } := by
  have lowered := sound.lowered safe lowers serves
  refine ⟨safe, here, lowered.reconnect, fun c held => ?_, sound.mutex, fun id uses => ?_⟩
  · obtain ⟨known, offline, apart⟩ := lowered.confirm c held
    refine ⟨known, offline, fun now => ?_⟩
    rcases answers c.id now with before | idle
    · exact apart before
    · change p.confirm.holds = some c at held
      rw [idle] at held
      cases held
  · refine lowered.serves id ?_
    rcases uses with ⟨online, apart⟩ | greet
    · exact .inl ⟨online, fun joined => apart (joins id joined)⟩
    · exact absurd greet (greets id)

theorem Sound.request (sound : p.Sound) (r : ConnectRequest Public) :
    Meets ConnectedFault Sound (p.run publicValue (.request r)) := by
  rw [run]
  cases stage : p.service with
  | idle =>
      simp only
      rw [receiveRequest]
      by_cases known : r.fromId ∈ p.user.contacts.ids
      · obtain ⟨c, same, byId⟩ := sound.safe.byId_of_held known
        rw [← same] at known
        obtain ⟨next, updated, turns⟩ := UserService.updateContactVersion_turns sound.safe known
          r.pv r.cv
        rw [byId, ok_bind]
        simp only [updated, ok_bind]
        have lowers := turns.lowers (.inl rfl)
        refine sound.goes turns.safe lowers (fun other uses _ => ?_) (lowers.known _ known)
          (fun id answers => answers.elim) (fun id joins => ?_) (fun id greets => greets)
        · rw [turns.channels]
          exact sound.serves other uses
        · rw [stage] at joins
          exact joins.elim
      · have missing : p.user.byId r.fromId = .ok none :=
          sound.safe.indexed.byId_of_not_mem known
        rw [missing]
        exact sound
  | testAvailable => exact sound
  | testConnecting => exact sound
  | move => exact sound
  | ask => exact sound
  | join => exact sound
  | setup => exact sound
  | greet => exact sound
  | fire => exact sound

theorem Sound.ping (sound : p.Sound) (fromId : String) (data : Bytes) :
    Meets ConnectedFault Sound (p.run publicValue (.ping fromId data)) := by
  rw [run]
  cases stage : p.service with
  | idle =>
      simp only
      rw [receivePing]
      cases found : p.user.contactData.lookup fromId with
      | none => exact sound
      | some cd =>
          simp only
          cases contact : cd.contact with
          | none => exact sound
          | some c =>
              obtain ⟨r, pinged, same, holder, -⟩ := @pinged_spec cd (pingState data)
              have turns := @UserService.Safe.turns_put _ p.user fromId r.data sound.safe
                (fun d held => sound.safe.held fromId cd d found (holder ▸ held))
                (fun none? => by cases contact.symm.trans (holder.symm.trans none?))
              have lower : r.data.state = p.user.stateOf fromId :=
                same.trans (UserService.stateOf_of_lookup found).symm
              simp only [Option.isNone_some, Bool.false_eq_true, if_false, pinged, ok_bind]
              refine sound.goes turns.safe (turns.lowers (.inl lower)) (fun other uses _ => ?_)
                trivial (fun id answers => answers.elim) (fun id joins => ?_)
                (fun id greets => greets)
              · exact sound.serves other uses
              · rw [stage] at joins
                exact joins.elim
  | testAvailable => exact sound
  | testConnecting => exact sound
  | move => exact sound
  | ask => exact sound
  | join => exact sound
  | setup => exact sound
  | greet => exact sound
  | fire => exact sound

/-- The address of the contact is updated, while nobody holds `_mutex`. -/
theorem Sound.move (sound : p.Sound) {idle : Bool} {r : ConnectRequest Public} {c : UserInfo}
    (stage : p.service = .move r c) (spares : p.Spares (.service idle)) :
    Meets ConnectedFault Sound (p.run publicValue (.service idle)) := by
  have here := sound.service
  rw [stage] at here
  rw [run, stage, serviceStep]
  cases free : p.mutexFree with
  | false =>
      change Sound { p with service := .move r c }
      rw [← stage]
      exact sound
  | true =>
      obtain ⟨next, moved, safe, contacts, states, channels, address, others⟩ :=
        UserService.updateContactAddress_moves sound.safe here.1 r.fromIp r.fromPort
      rw [if_pos rfl, moved, ok_bind]
      have makes : p.Makes (.service idle) (makeUdpAddress r.fromIp r.fromPort)
        (p.user.infos c.id).key := .move stage free
      rw [mutexFree, Bool.and_eq_true, decide_eq_true_eq, decide_eq_true_eq] at free
      have answering : c.id ∈ next.contacts.ids ∧ next.stateOf c.id = .offline ∧
          (next.infos c.id).address = makeUdpAddress r.fromIp r.fromPort :=
        ⟨contacts.symm ▸ here.1, (states _).trans here.2, address⟩
      have goes (now : ServiceStage Public) (there : now.Sound next) (greets : ∀ id, ¬now.Greets id) :
          Sound { p with
            user := next
            service := now } := by
        refine ⟨safe, there, by rw [free.1]; trivial, fun d held => ?_, sound.mutex, fun id uses => ?_⟩
        · change p.confirm.holds = some d at held
          rw [free.2] at held
          cases held
        · have online : p.user.stateOf id ≠ .offline := by
            rcases uses with ⟨online, -⟩ | greet
            · rw [← states]
              exact online
            · exact absurd greet (greets id)
          have before : p.Uses id := .inl ⟨online, by rw [stage]; exact fun joins => joins⟩
          change UserService.Serves next.encryptedChannels (next.infos id).address
          rw [others id fun same => online (same ▸ here.2), channels]
          exact sound.serves_makes spares makes before
      split
      · exact goes (.ask r c .connecting) answering fun _ greets => greets
      · exact goes (.join r c) answering fun _ greets => greets

/-- The contact is connecting from here on. -/
theorem Sound.join (sound : p.Sound) {idle : Bool} {r : ConnectRequest Public} {c : UserInfo}
    (stage : p.service = .join r c) (spares : p.Spares (.service idle)) :
    Meets ConnectedFault Sound (p.run publicValue (.service idle)) := by
  have here := sound.service
  rw [stage] at here
  obtain ⟨next, joined, turns⟩ := UserService.contactConnecting_turns sound.safe here.1
  have others (id : String) (apart : id ≠ c.id) : next.stateOf id = p.user.stateOf id := by
    rw [turns.stateOf, if_neg apart]
  have state : next.stateOf c.id = .connecting := by rw [turns.stateOf, if_pos rfl]
  rw [run, stage, serviceStep, joined]
  refine ⟨turns.safe, ⟨turns.contacts.symm ▸ here.1, ?_, ?_⟩, ?_, fun d held => ?_, sound.mutex,
    fun id uses => ?_⟩
  · change next.stateOf c.id ≠ .connected
    rw [state]
    decide
  · change (next.infos c.id).address = _
    rw [turns.infos]
    exact here.2.2
  · have was := sound.reconnect
    have apart := spares.tests r c idle rfl stage
    change p.reconnect.Sound next
    cases reconnect : p.reconnect with
    | idle => trivial
    | next rest => trivial
    | testAvailable d rest =>
        rw [reconnect] at was apart
        change next.stateOf d.id ≠ .connecting
        rw [others d.id apart]
        exact was
    | ask d request rest =>
        rw [reconnect] at was apart
        intro pending
        rw [others d.id fun same => apart ⟨pending, same⟩]
        exact was pending
  · obtain ⟨known, offline, apart⟩ := sound.confirm d held
    rw [stage] at apart
    refine ⟨turns.contacts.symm ▸ known, ?_, apart⟩
    exact (others d.id fun same => apart same.symm).trans offline
  · change UserService.Serves next.encryptedChannels (next.infos id).address
    rw [turns.channels, turns.infos]
    rcases uses with ⟨online, apart⟩ | greets
    · have other : id ≠ c.id := fun same => apart same.symm
      refine sound.serves id (.inl ⟨?_, by rw [stage]; exact fun joins => joins⟩)
      rw [← others id other]
      exact online
    · exact greets.elim

/-- The channel is ready from here on. -/
theorem Sound.setup (sound : p.Sound) {idle : Bool} {r : ConnectRequest Public} {c : UserInfo}
    (stage : p.service = .setup r c) :
    Meets ConnectedFault Sound (p.run publicValue (.service idle)) := by
  have here := sound.service
  rw [stage] at here
  obtain ⟨next, ready, turns⟩ := UserService.setupSecurityConversation_turns sound.safe c.id
    r.fromIp r.fromPort (p.user.infos c.id).key r.publicSecret
  have lowers := turns.lowers (.inl rfl)
  rw [run, stage, serviceStep, ready]
  refine ⟨turns.safe, ⟨lowers.known _ here.1, lowers.ne here.2.1 (by decide)⟩,
    lowers.reconnect sound.reconnect, fun d held => ?_, sound.mutex, fun id uses => ?_⟩
  · obtain ⟨known, offline, apart⟩ := lowers.confirm sound.confirm d held
    rw [stage] at apart
    exact ⟨known, offline, apart⟩
  · change UserService.Serves next.encryptedChannels (next.infos id).address
    rw [turns.channels, turns.infos]
    by_cases same : id = c.id
    · rw [same, here.2.2]
      exact UserService.Serves.createReadyChannel (.inr rfl)
    · refine UserService.Serves.createReadyChannel (.inl (sound.serves id (.inl ⟨?_, ?_⟩)))
      · rcases uses with ⟨online, -⟩ | greets
        · change next.stateOf id ≠ .offline at online
          rwa [turns.stateOf, if_neg same] at online
        · exact absurd greets.symm same
      · rw [stage]
        exact fun joins => same joins.symm

/-- A contact that was connecting is connected. -/
theorem Sound.connects (sound : p.Sound) {event : Option Bool} {idleEvent : Bool}
    (stage : p.service = .fire id event idleEvent) (connecting : p.user.stateOf id = .connecting)
    (turns : p.user.Turns id .connected p.user.encryptedChannels s) :
    Sound { p with
      user := s
      service := .idle } := by
  have others (other : String) (apart : other ≠ id) : s.stateOf other = p.user.stateOf other := by
    rw [turns.stateOf, if_neg apart]
  refine ⟨turns.safe, trivial, ?_, fun c held => ?_, sound.mutex, fun other uses => ?_⟩
  · have was := sound.reconnect
    change p.reconnect.Sound s
    cases reconnect : p.reconnect with
    | idle => trivial
    | next rest => trivial
    | testAvailable c rest =>
        rw [reconnect] at was
        change s.stateOf c.id ≠ .connecting
        rw [others c.id fun same => was (same ▸ connecting)]
        exact was
    | ask c request rest =>
        rw [reconnect] at was
        intro pending
        have offline := was pending
        rw [others c.id fun same => by cases offline.symm.trans (same ▸ connecting)]
        exact offline
  · obtain ⟨known, offline, -⟩ := sound.confirm c held
    refine ⟨turns.contacts.symm ▸ known, ?_, fun answers => answers⟩
    exact (others c.id fun same => by cases offline.symm.trans (same ▸ connecting)).trans offline
  · change UserService.Serves s.encryptedChannels (s.infos other).address
    rw [turns.channels, turns.infos]
    refine sound.serves other (.inl ⟨?_, by rw [stage]; exact fun joins => joins⟩)
    by_cases same : other = id
    · rw [same, connecting]
      decide
    · rcases uses with ⟨online, -⟩ | greets
      · rw [← others other same]
        exact online
      · exact greets.elim

/-- The events of a ping. A contact that connects was connecting. -/
theorem Sound.fire (sound : p.Sound) {idle idleEvent : Bool} {event : Option Bool}
    (stage : p.service = .fire id event idleEvent) (spares : p.Spares (.service idle)) :
    Meets ConnectedFault Sound (p.run publicValue (.service idle)) := by
  have joinless (other : String) : ¬p.service.Joins other := by
    rw [stage]
    exact fun joins => joins
  have quiet {next : UserService Public} {state : ContactState}
      {channels : EncryptedChannels Public} (turns : p.user.Turns id state channels next) :
      p.user.Turns id state channels (if idleEvent then
        next.sendEvent (.contactActivityChanged id) else next) := by
    split
    · exact turns.same rfl rfl rfl turns.channels
    · exact turns
  have lowering {next : UserService Public} {state : ContactState}
      {channels : EncryptedChannels Public} (turns : p.user.Turns id state channels next)
      (lower : state = p.user.stateOf id ∨ state = .offline)
      (serves : ∀ other, p.Uses other → next.stateOf other ≠ .offline →
        UserService.Serves channels (p.user.infos other).address) :
      Sound { p with
        user := next
        service := .idle } := by
    refine sound.goes turns.safe (turns.lowers lower) (fun other uses still => ?_) trivial
      (fun other answers => answers.elim) (fun other joins => absurd joins (joinless other))
      (fun other greets => greets)
    rw [turns.channels]
    refine serves other uses (still.resolve_right fun greets => ?_)
    rw [stage] at greets
    exact greets
  rw [run, stage]
  cases event with
  | none =>
      exact lowering (quiet (sound.safe.turns_self id)) (.inl rfl) fun other uses _ =>
        sound.serves other uses
  | some connects =>
      cases connects with
      | false =>
          obtain ⟨next, gone, turns⟩ :=
            UserService.fireContactDisconnectedEvent_turns sound.safe id
          simp only [serviceStep, gone, ok_bind]
          have dropped := quiet turns
          refine lowering dropped (.inr rfl) fun other uses online => ?_
          refine sound.serves_dropped spares (fun connected => .fire stage connected) uses ?_
          rintro rfl
          rw [dropped.stateOf, if_pos rfl] at online
          exact absurd rfl online
      | true =>
          have reached := UserService.fireContactConnectedEvent_turns sound.safe id
          cases fired : p.user.fireContactConnectedEvent id with
          | error fault =>
              rw [fired] at reached
              simp only [serviceStep, fired]
              exact reached
          | ok next =>
              rw [fired] at reached
              obtain ⟨state, turns, same | ⟨connecting, rfl⟩⟩ := reached
              · simp only [serviceStep, fired, ok_bind]
                exact lowering (quiet turns) (.inl same) fun other uses _ => sound.serves other uses
              · simp only [serviceStep, fired, ok_bind]
                exact sound.connects stage connecting (quiet turns)

theorem Sound.serviceStep (sound : p.Sound) {idle : Bool} (spares : p.Spares (.service idle)) :
    Meets ConnectedFault Sound (p.run publicValue (.service idle)) := by
  have here := sound.service
  have tests (now : ServiceStage Public) (there : now.Sound p.user)
      (answers : ∀ id, ¬now.Answers id) (greets : ∀ id, ¬now.Greets id)
      (joinless : ∀ id, ¬p.service.Joins id) : Sound { p with service := now } :=
    sound.goes sound.safe .rfl (fun id uses _ => sound.serves id uses) there
      (fun id answering => absurd answering (answers id))
      (fun id joins => absurd joins (joinless id)) greets
  cases stage : p.service with
  | idle =>
      rw [run, stage]
      change Sound { p with service := .idle }
      rw [← stage]
      exact sound
  | testAvailable r c =>
      rw [stage] at here
      have joinless (id : String) : ¬p.service.Joins id := by
        rw [stage]
        exact fun joins => joins
      rw [run, stage, User.serviceStep]
      cases connected : p.user.contactAvailable c.id with
      | true =>
          exact tests .idle trivial (fun id answers => answers) (fun id greets => greets) joinless
      | false =>
          refine tests (.testConnecting r c) ⟨here, fun same => ?_⟩ (fun id answers => answers)
            (fun id greets => greets) joinless
          rw [sound.safe.contactAvailable_iff.mpr same] at connected
          cases connected
  | testConnecting r c =>
      rw [stage] at here
      have joinless (id : String) : ¬p.service.Joins id := by
        rw [stage]
        exact fun joins => joins
      rw [run, stage, User.serviceStep]
      cases connecting : p.user.isContactConnecting c.id with
      | true =>
          exact tests .idle trivial (fun id answers => answers) (fun id greets => greets) joinless
      | false =>
          refine tests (.move r c) ⟨here.1, eq_offline (fun same => ?_) here.2⟩
            (fun id answers => answers) (fun id greets => greets) joinless
          rw [sound.safe.isContactConnecting_iff.mpr same] at connecting
          cases connecting
  | move r c => exact sound.move stage spares
  | ask r c request =>
      rw [stage] at here
      obtain ⟨after, next, channels, sent, turns, -, made⟩ := requestStep_turns
        publicValue sound.safe c false request fun _ => here.2.1
      have lowers := turns.lowers (.inl rfl)
      have there : (ServiceStage.join r c).Sound next := @UserService.Lowers.service _ _ _ lowers (.join r c) here
      rw [run, stage, User.serviceStep, sent]
      refine sound.goes turns.safe lowers (fun other uses _ => ?_) ?_ (fun id answers => .inl ?_)
        (fun id joins => ?_) (fun id greets => ?_)
      · rw [turns.channels]
        refine sound.serves_request spares made (fun address more same => ?_) uses
        rw [same] at stage
        exact .ask stage
      · cases after with
        | none => exact there
        | some request' => exact there
      · rw [stage]
        cases after with
        | none => exact answers
        | some request' => exact answers
      · rw [stage] at joins
        exact joins.elim
      · cases after with
        | none => exact greets
        | some request' => exact greets
  | join r c => exact sound.join stage spares
  | setup r c => exact sound.setup stage
  | greet c =>
      have greeting : p.service.Greets c.id := by
        rw [stage]
        rfl
      obtain ⟨next, sent, turns⟩ := UserService.sendPingTo_turns sound.safe c.id
        (UserService.userState idle) true fun _ => sound.serves c.id (.inr greeting)
      rw [run, stage, User.serviceStep, sent]
      refine sound.goes turns.safe (turns.lowers (.inl rfl)) (fun other uses _ => ?_) trivial
        (fun id answers => answers.elim) (fun id joins => ?_) (fun id greets => greets)
      · rw [turns.channels]
        exact sound.serves other uses
      · rw [stage] at joins
        exact joins.elim
  | fire id event idleEvent => exact sound.fire stage spares

theorem Sound.step (sound : p.Sound) (spares : p.Spares action) :
    Meets ConnectedFault Sound (p.run publicValue action) := by
  cases action with
  | request r => exact sound.request r
  | ping fromId data => exact sound.ping fromId data
  | service idle => exact sound.serviceStep spares
  | sendPing idle id => exact sound.sendPing spares
  | tick id => exact sound.tick spares
  | reconnect => exact sound.reconnectStep spares
  | confirm c info => exact sound.startConfirm
  | confirmNext => exact sound.confirmNext spares

end Steps

section Runs

/-- The service as its constructor leaves it, with all threads idle. -/
structure Starts (p : Threads Public) : Prop where
  user : p.user.Starts
  service : p.service = .idle
  reconnect : p.reconnect = .idle
  confirm : p.confirm = .idle

theorem Starts.sound {p : Threads Public} (starts : p.Starts) : p.Sound where
  safe := by
    have tied := starts.user.tied
    refine ⟨tied.indexed, fun id cd c found contact => ?_, fun id cd found none? => ?_⟩
    · obtain ⟨d, held, same⟩ := (tied.entries id cd found).contact
      cases contact.symm.trans held
      exact ⟨same, tied.known_of_lookup found⟩
    · obtain ⟨d, held, -⟩ := (tied.entries id cd found).contact
      cases none?.symm.trans held
  service := by
    rw [starts.service]
    trivial
  reconnect := by
    rw [starts.reconnect]
    trivial
  confirm c held := by
    rw [starts.confirm] at held
    cases held
  mutex := .inl starts.reconnect
  serves id uses := by
    rcases uses with ⟨online, -⟩ | greets
    · exact absurd (starts.user.offline id) online
    · rw [starts.service] at greets
      exact greets.elim

/-- The runs of the threads in which every step spares the others. -/
abbrev SparingRun (publicValue : Nat → Public) : List (Action Public) → Threads Public → Prop :=
  Run Starts fun p action q => p.Spares action ∧ p.run publicValue action = .ok q

/-- No assertion fails in the step, but perhaps that of `contact_connected`. -/
def AssertionsHold (publicValue : Nat → Public) (p : Threads Public) (action : Action Public) :
    Prop :=
  ∀ fault, p.run publicValue action = .error fault → ConnectedFault fault

theorem sound_of_sparingRun {actions : List (Action Public)} {p : Threads Public}
    (run : SparingRun publicValue actions p) : p.Sound := by
  induction run with
  | start starts => exact starts.sound
  | step _ stepped ih => exact (ih.step stepped.1).value stepped.2

/-- However the threads take turns, no assertion fails as long as every step
spares the others. -/
theorem assertions_hold {actions : List (Action Public)} {p : Threads Public}
    {action : Action Public} (run : SparingRun publicValue actions p) (spares : p.Spares action) :
    AssertionsHold publicValue p action :=
  fun _ failure => ((sound_of_sparingRun run).step spares).error failure

end Runs

section Unused

variable {p : Threads Public} {action : Action Public}

instance decidableJoins (stage : ServiceStage Public) (id : String) : Decidable (stage.Joins id) :=
  match stage with
  | .setup _ c => inferInstanceAs (Decidable (c.id = id))
  | .idle | .testAvailable _ _ | .testConnecting _ _ | .move _ _ | .ask _ _ _ | .join _ _ | .greet _
  | .fire _ _ _ => inferInstanceAs (Decidable False)

def greeting : ServiceStage Public → Bool
  | .greet _ => true
  | _ => false

theorem greeting_of_greets {stage : ServiceStage Public} {id : String} (greets : stage.Greets id) :
    greeting stage = true := by
  cases stage with
  | greet c => rfl
  | _ => exact greets.elim

theorem not_joins_of_greeting {stage : ServiceStage Public} {id : String}
    (greets : greeting stage = true) : ¬stage.Joins id := by
  intro joins
  cases stage with
  | setup r c => cases greets
  | _ => exact joins.elim

/-- The reconnect thread is idle, and no contact may be pinged. -/
abbrev Unused (p : Threads Public) : Prop :=
  p.reconnect = .idle ∧ greeting p.service = false ∧
    ∀ e ∈ p.user.contactData, e.2.state = .offline ∨ p.service.Joins e.1

theorem Unused.not_uses (alone : p.Unused) (id : String) : ¬p.Uses id := by
  obtain ⟨-, quiet, entries⟩ := alone
  rintro (⟨online, joinless⟩ | greets)
  · cases found : p.user.contactData.lookup id with
    | none =>
        apply online
        rw [UserService.stateOf, UserService.entry, found]
        rfl
    | some cd =>
        rcases entries (id, cd) (Library.Assoc.mem_of_lookup found) with offline | joins
        · apply online
          rw [UserService.stateOf, UserService.entry, found]
          exact offline
        · exact joinless joins
  · rw [greeting_of_greets greets] at quiet
    cases quiet

/-- While no contact may be pinged, only a ping may get in the way of a step. -/
theorem Unused.spares (alone : p.Unused) (silent : ∀ idle id, action ≠ .sendPing idle id) :
    p.Spares action where
  tests r c idle _ _ tests := by
    rw [alone.1] at tests
    exact tests.elim
  pings idle id same := absurd same (silent idle id)
  makes _ _ _ id uses := absurd uses (alone.not_uses id)
  drops _ _ other _ uses := absurd uses (alone.not_uses other)

end Unused

section Bob

/-- The service of `bobService`, with all threads idle. -/
def bobThreads : Threads Nat := { user := bobService }

theorem bobThreads_starts : bobThreads.Starts := ⟨bobService_starts, rfl, rfl, rfl⟩

def bobAsks : Action Nat :=
  .request
    { fromId := "bob"
      fromIp := "10.0.0.2"
      fromPort := 6060
      sendBack := 0
      publicSecret := 7
      pv := 0
      cv := 11 }

/-- The threads after an action that ends in no failed assertion. -/
def goes (p : Threads Nat) (action : Action Nat) : Threads Nat := valueD p (p.run id action)

private theorem run_serves {actions : List (Action Nat)} {p : Threads Nat}
    (run : SparingRun id actions p) (alone : p.Unused)
    (success : (p.run id (.service true)).isOk = true) :
    SparingRun id (actions ++ [.service true]) (p.goes (.service true)) :=
  run.step ⟨alone.spares (by rintro idle id ⟨⟩), ok_valueD success⟩

/-- The tests of `received_connect_request` are passed, and the address of `bob`
is updated. -/
def bobMoves : Threads Nat :=
  (((bobThreads.goes bobAsks).goes (.service true)).goes (.service true)).goes (.service true)

/-- `bob` is connecting, and his channel is set up. -/
def bobMeets : Threads Nat := (bobMoves.goes (.service true)).goes (.service true)

/-- Once the channel of `bob` is set up, the ping thread may ping him. -/
theorem bob_pinged : ∃ actions, SparingRun id actions bobMeets ∧
    bobMeets.user.stateOf "bob" = .connecting ∧
      AssertionsHold id bobMeets (.sendPing false "bob") := by
  have asked : SparingRun id [bobAsks] (bobThreads.goes bobAsks) := by
    apply Run.single bobThreads_starts
    exact ⟨Unused.spares (by decide +kernel) (by rintro idle id ⟨⟩), ok_valueD (by decide +kernel)⟩
  have tested := run_serves (run_serves asked (by decide +kernel) (by decide +kernel))
    (by decide +kernel) (by decide +kernel)
  have moved : SparingRun id _ bobMoves :=
    run_serves tested (by decide +kernel) (by decide +kernel)
  have joined := run_serves moved (by decide +kernel) (by decide +kernel)
  have met : SparingRun id _ bobMeets := run_serves joined (by decide +kernel) (by decide +kernel)
  have greets : greeting bobMeets.service = true := by decide +kernel
  have spares : bobMeets.Spares (.sendPing false "bob") :=
    { tests := by
        rintro r c idle ⟨⟩
      pings := fun _ id _ => not_joins_of_greeting greets
      makes := by
        rintro address key ⟨⟩
      drops := by
        rintro id ⟨⟩ }
  exact ⟨_, met, by decide +kernel, assertions_hold met spares⟩

/-- The threads after actions, as long as no assertion fails. -/
def after (first : Threads Nat) (actions : List (Action Nat)) : Threads Nat :=
  valueD first (actions.foldlM (fun p action => Threads.run p id action) first)

private theorem after_run {first : Threads Nat} {actions : List (Action Nat)}
    (starts : first.Starts)
    (success : (actions.foldlM (fun p action => Threads.run p id action) first).isOk = true) :
    Run Starts (fun p action q => p.run id action = .ok q) actions (after first actions) :=
  .of_foldlM starts actions (ok_valueD success)

/-- The ping thread runs before the channel of `bob` is set up. -/
def earlyPing : List (Action Nat) := bobAsks :: List.replicate 4 (.service true)

/-- The reconnect thread tests `bob` before he is connecting. -/
def lateRequest : List (Action Nat) :=
  bobAsks :: List.replicate 3 (.service true) ++
    [.reconnect, .reconnect, .service true, .reconnect]

/-- `bob` and `eve`, both at the address from which their requests come. -/
def sharedThreads : Threads Nat :=
  { user := .new "me" (valueD {} (PointerList.ofUsers UserInfo.id [⟨"bob"⟩, ⟨"eve"⟩]))
      fun _ => { name := "", key := "key", addresses := ["udp://10.0.0.2:6060"] } }

theorem sharedThreads_starts : sharedThreads.Starts :=
  ⟨⟨_, _, _, .ofUsers (ok_valueD (by decide +kernel)), rfl⟩, rfl, rfl, rfl⟩

def asksAs (fromId : String) : Action Nat :=
  .request
    { fromId := fromId
      fromIp := "10.0.0.2"
      fromPort := 6060
      sendBack := 0
      publicSecret := 7
      pv := 0
      cv := 11 }

/-- `bob` connects, then `eve` connects and disconnects. -/
def sharedAddress : List (Action Nat) :=
  asksAs "bob" :: List.replicate 6 (.service true) ++
    asksAs "eve" :: List.replicate 6 (.service true) ++
      [.ping "eve" [connectedByte], .service true, .ping "eve" [disconnectedByte], .service true]

private theorem error_of_map {source : Outcome (Threads Nat)} {fault : Fault}
    (failed : source.map (fun _ => ()) = .error fault) : source = .error fault := by
  cases source with
  | ok p => cases failed
  | error found =>
      cases failed
      rfl

/-- Three runs that end in a failed assertion. -/
theorem threads_stop_process :
    (Run Starts (fun p action q => p.run id action = .ok q) earlyPing (after bobThreads earlyPing) ∧
      (after bobThreads earlyPing).run id (.sendPing false "bob") =
        .error (.raised .check "sc.shared_secret.ready()")) ∧
    (Run Starts (fun p action q => p.run id action = .ok q) lateRequest
        (after bobThreads lateRequest) ∧
      (after bobThreads lateRequest).run id .reconnect =
        .error (.raised .require "!(is_contact_connecting(c->id()))")) ∧
    (Run Starts (fun p action q => p.run id action = .ok q) sharedAddress
        (after sharedThreads sharedAddress) ∧
      (after sharedThreads sharedAddress).run id (.sendPing false "bob") =
        .error (.raised .require "r != _s.end()")) := by
  refine ⟨⟨after_run bobThreads_starts (by decide +kernel), ?_⟩,
    ⟨after_run bobThreads_starts (by decide +kernel), ?_⟩,
    ⟨after_run sharedThreads_starts (by decide +kernel), ?_⟩⟩
  · exact error_of_map (by decide +kernel)
  · exact error_of_map (by decide +kernel)
  · exact error_of_map (by decide +kernel)

end Bob

end Threads

end Firestr.User
