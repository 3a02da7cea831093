import Mathlib.Data.Sym.Sym2
import Firestr.User.HandshakeSteps

/-! When the keys of two users who connect agree: each side takes one request,
and the two have to travel between the same two addresses. -/

set_option autoImplicit false

namespace Firestr.User

open Firestr.Library.Runs Firestr.Security Firestr.Util

namespace Exchange

section Half

variable {Secret Public Key : Type}

/-- One side of the pair: a channel is ready only under the address where the
request that was taken came from, with the secret that the other side drew for
the address it was sent to. -/
structure Half (e : Exchange Secret Public Key) (side : Side) (mine theirs : UserService Public)
    (taken : Option Route) : Prop where
  sound : mine.Sound (mine.infos theirs.self).key
  sent : ∀ m ∈ mine.outbox, mine.Sends (e.drawn side) m
  ready : ∀ i c pub, mine.encryptedChannels.channels i = some c →
    c.sharedSecret.otherPubValue = some pub → ∃ route d, taken = some route ∧ route.cameFrom = i ∧
      theirs.encryptedChannels.channels route.sentTo = some d ∧
      pub = e.drawn side.other d.sharedSecret.secret
  taken : ∀ route, taken = some route → mine.stateOf theirs.self ≠ .offline ∧
    (mine.infos theirs.self).address = route.cameFrom ∧
    ∃ c pub, mine.encryptedChannels.channels route.cameFrom = some c ∧
      c.sharedSecret.otherPubValue = some pub

variable {e : Exchange Secret Public Key} {side : Side} {mine theirs next : UserService Public}
  {taken : Option Route} {address sentTo : String} {idle : Bool}

theorem Half.advances (half : e.Half side mine theirs taken)
    (advances : mine.Advances (mine.infos theirs.self).key (e.drawn side) next) :
    e.Half side next theirs taken where
  sound := by
    rw [advances.infos]
    exact advances.sound
  sent m member := by
    rcases advances.outbox m member with before | new
    · exact (half.sent m before).mono advances.self advances.channels.keepsSecrets
    · exact new
  ready i c pub found ready := by
    rcases advances.channels.fresh i c found with before | unready
    · exact half.ready i c pub before ready
    · cases unready.symm.trans ready
  taken route took := by
    obtain ⟨online, current, c, pub, found, ready⟩ := half.taken route took
    refine ⟨advances.online _ online, ?_, c, pub, advances.channels.kept _ c found, ready⟩
    rw [advances.infos]
    exact current

theorem Half.relocates (half : e.Half side mine theirs none)
    (relocates : mine.Relocates (mine.infos theirs.self).key theirs.self address next) :
    e.Half side next theirs none where
  sound := by
    rw [relocates.key]
    exact relocates.sound
  sent m member := (half.sent m (relocates.outbox ▸ member)).mono relocates.self
    relocates.channels.keepsSecrets
  ready i c pub found ready := by
    rcases relocates.channels.fresh i c found with before | unready
    · exact half.ready i c pub before ready
    · cases unready.symm.trans ready
  taken route took := by cases took

/-- The channel under the current address becomes ready. -/
theorem Half.becomesReady {c d : Channel Public} (half : e.Half side mine theirs none)
    (online : mine.stateOf theirs.self ≠ .offline)
    (current : (mine.infos theirs.self).address = address)
    (found : mine.encryptedChannels.channels address = some c)
    (drew : theirs.encryptedChannels.channels sentTo = some d) :
    e.Half side { mine with
      encryptedChannels := mine.encryptedChannels.createReadyChannel address
        (mine.infos theirs.self).key (e.drawn side.other d.sharedSecret.secret) } theirs
      (some ⟨sentTo, address⟩) where
  sound := ⟨half.sound.tied.same ⟨rfl, fun _ => rfl⟩,
    EncryptedChannels.createReadyChannel_keyedBy half.sound.keyed found⟩
  sent m member := (half.sent m member).mono rfl
    (EncryptedChannels.createReadyChannel_keepsSecrets found)
  ready i other pub there ready := by
    rw [EncryptedChannels.createReadyChannel_eq found] at there
    rcases EncryptedChannels.channels_put there with ⟨rfl, rfl⟩ | ⟨-, before⟩
    · cases ready
      exact ⟨_, d, rfl, rfl, drew, rfl⟩
    · obtain ⟨_, _, none?, -⟩ := half.ready i other pub before ready
      cases none?
  taken route took := by
    cases took
    refine ⟨online, current, {
      sharedSecret := c.sharedSecret.createSymmetricKey (e.drawn side.other d.sharedSecret.secret)
      key := some (mine.infos theirs.self).key }, _, ?_, rfl⟩
    rw [EncryptedChannels.createReadyChannel_eq found]
    exact EncryptedChannels.channels_put_self

/-- The other side may do anything that keeps its secrets. -/
theorem Half.other {there : UserService Public} (half : e.Half side mine theirs taken)
    (self : there.self = theirs.self)
    (kept : theirs.encryptedChannels.KeepsSecrets there.encryptedChannels) :
    e.Half side mine there taken where
  sound := self.symm ▸ half.sound
  sent := half.sent
  ready i c pub found ready := by
    obtain ⟨route, d, took, from', drew, same⟩ := half.ready i c pub found ready
    obtain ⟨d', drew', secret⟩ := kept _ d drew
    exact ⟨route, d', took, from', drew', secret.symm ▸ same⟩
  taken := by
    rw [self]
    exact half.taken

end Half

section Pairs

variable {Secret Public Key : Type} {e : Exchange Secret Public Key} {p q : Pair Public}
  {side : Side} {move : Move Public}

/-- Both sides of the pair, each with the other. -/
def Sound (e : Exchange Secret Public Key) (p : Pair Public) : Prop :=
  ∀ side, e.Half side (p.user side) (p.user side.other) (p.taken side)

theorem other_other (side : Side) : side.other.other = side := by cases side <;> rfl

theorem other_ne (side : Side) : side.other ≠ side := by cases side <;> decide

theorem eq_or_eq_other (side which : Side) : which = side ∨ which = side.other := by
  cases side <;> cases which <;> decide

/-- The sides after a change of one of them. -/
theorem sound_update {s : UserService Public} {taken : Option Route}
    (mine : e.Half side s (p.user side.other) taken)
    (theirs : e.Half side.other (p.user side.other) s (p.taken side.other)) :
    e.Sound {
      user := Function.update p.user side s
      taken := Function.update p.taken side taken } := by
  intro which
  rcases eq_or_eq_other side which with rfl | rfl
  · change e.Half which (Function.update p.user which s which)
      (Function.update p.user which s which.other) (Function.update p.taken which taken which)
    rw [Function.update_self, Function.update_self, Function.update_of_ne (other_ne which)]
    exact mine
  · change e.Half side.other (Function.update p.user side s side.other)
      (Function.update p.user side s side.other.other)
      (Function.update p.taken side taken side.other)
    rw [other_other, Function.update_self, Function.update_of_ne (other_ne side),
      Function.update_of_ne (other_ne side)]
    exact theirs

/-- The side that has not moved. -/
theorem Sound.theirs (sound : e.Sound p) (side : Side) :
    e.Half side.other (p.user side.other) (p.user side) (p.taken side.other) := by
  have theirs := sound side.other
  rwa [other_other] at theirs

theorem Sound.advance {s : UserService Public} (sound : e.Sound p)
    (advances : (p.user side).Advances (p.info side).key (e.drawn side) s) :
    e.Sound (p.withUser side s) := by
  have moved := sound_update ((sound side).advances advances)
    ((sound.theirs side).other advances.self advances.channels.keepsSecrets)
  rwa [Function.update_eq_self] at moved

/-- A side takes a request exactly if it has the other as a contact, and has
taken none before. -/
theorem Sound.takes_iff (sound : e.Sound p) : p.takes side = true ↔
    p.peer side ∈ (p.user side).contacts.ids ∧
      (p.user side).stateOf (p.peer side) = .offline := by
  have tied := (sound side).sound.tied
  by_cases known : p.peer side ∈ (p.user side).contacts.ids
  · obtain ⟨c, same, byId⟩ := tied.byId known
    rw [Pair.takes, byId, and_iff_right known, UserService.offline_iff tied known]
    simp only [same, Bool.and_eq_true, Bool.not_eq_true']
  · have byId : (p.user side).byId (p.peer side) = .ok none :=
      tied.indexed.byId_of_not_mem known
    rw [Pair.takes, byId]
    simp only [Bool.false_eq_true, false_iff, not_and]
    exact fun member => absurd member known

theorem Sound.taken_none (sound : e.Sound p) (takes : p.takes side = true) :
    p.taken side = none := by
  cases took : p.taken side with
  | none => rfl
  | some route =>
      exact absurd (sound.takes_iff.mp takes).2 ((sound side).taken route took).1

/-- A request that is taken makes the channel ready with the secret that the
other side has drawn for the address it was sent to. -/
theorem Sound.take {address fromId : String} {sendBack : Bool} {publicSecret : Public}
    {pv cv : Int} {ip : String} {port : Nat} {idle : Bool} {s : UserService Public}
    (sound : e.Sound p) (takes : p.takes side = true)
    (sent : (p.user side.other).Sends (e.drawn side.other)
      (.pingRequest address fromId sendBack publicSecret pv cv))
    (success : (p.user side).receivedConnectRequest (e.drawn side)
      (connectRequest fromId sendBack publicSecret pv cv ip port) idle = .ok s) :
    e.Sound {
      user := Function.update p.user side s
      taken := Function.update p.taken side (some ⟨address, makeUdpAddress ip port⟩) } := by
  have half := sound side
  rw [sound.taken_none takes] at half
  obtain ⟨known, offline⟩ := sound.takes_iff.mp takes
  cases sent with
  | request drew =>
      rename_i d
      obtain ⟨versioned, moved, joining, first, second, third, online, last⟩ :=
        UserService.receivedConnectRequest_takes half.sound known offline rfl success
      change versioned.Relocates _ (p.user side.other).self (makeUdpAddress ip port) moved at second
      obtain ⟨c, found⟩ := second.there
      have found := third.channels.kept _ c found
      have key : (joining.infos (p.user side.other).self).key =
          ((p.user side).infos (p.user side.other).self).key := by
        rw [third.infos, second.key, first.infos]
      have half := half.advances first
      have half := half.relocates (first.infos.symm ▸ second)
      have half := half.advances (second.key.symm ▸ first.infos.symm ▸ third)
      have ready := half.becomesReady online (third.infos.symm ▸ second.current) found drew
      rw [key] at ready
      have last := last (EncryptedChannels.createReadyChannel_keyedBy third.sound.keyed found)
      refine sound_update (ready.advances (key.symm ▸ last)) ?_
      refine (sound.theirs side).other ?_ ?_
      · exact last.self.trans (third.self.trans (second.self.trans first.self))
      · refine .trans (.trans first.channels.keepsSecrets second.channels.keepsSecrets)
          (.trans (.trans third.channels.keepsSecrets ?_) last.channels.keepsSecrets)
        exact EncryptedChannels.createReadyChannel_keepsSecrets found

/-- Every step keeps both sides right, and records the route of a request that
is taken. -/
theorem Sound.step (sound : e.Sound p) (step : e.Step p move q) :
    e.Sound q ∧ q.taken = p.recorded move := by
  obtain ⟨sent, success⟩ := step
  cases move with
  | request side sendBack =>
      rw [run] at success
      obtain ⟨found?, byId, success⟩ := bind_ok success
      cases found? with
      | none =>
          cases success
          exact ⟨sound, rfl⟩
      | some c =>
          obtain ⟨s, asks, success⟩ := bind_ok success
          cases success
          have same := (sound side).sound.tied.id_of_byId byId
          refine ⟨sound.advance (UserService.sendPingRequest_advances (sound side).sound sendBack
            ?_ asks), rfl⟩
          rw [same]
          rfl
  | requestAt side address sendBack =>
      rw [run] at success
      obtain ⟨found?, byId, success⟩ := bind_ok success
      cases found? with
      | none =>
          cases success
          exact ⟨sound, rfl⟩
      | some c =>
          obtain ⟨s, asks, success⟩ := bind_ok success
          cases success
          have same := (sound side).sound.tied.id_of_byId byId
          rw [same] at asks
          exact ⟨sound.advance (UserService.sendPingRequestTo_advances (sound side).sound sendBack
            address asks), rfl⟩
  | deliver side m ip port idle =>
      have sends := sound.theirs side |>.sent m (sent side m ip port idle rfl)
      cases m with
      | ping address fromId state =>
          rw [run] at success
          obtain ⟨s, received, success⟩ := bind_ok success
          cases success
          cases sends with
          | ping connects =>
              exact ⟨sound.advance (UserService.receivedPing_advances (sound side).sound connects
                received), rfl⟩
      | pingRequest address fromId sendBack publicSecret pv cv =>
          rw [run] at success
          obtain ⟨s, received, success⟩ := bind_ok success
          cases success
          refine ⟨?_, rfl⟩
          cases takes : p.takes side with
          | true =>
              simp only [Pair.recorded, takes, if_true]
              exact sound.take takes sends received
          | false =>
              simp only [Pair.recorded, takes, Bool.false_eq_true, if_false]
              refine sound.advance (UserService.receivedConnectRequest_ignores (sound side).sound
                (fun known offline => ?_) received)
              have from' : fromId = p.peer side := by
                cases sends with
                | request => rfl
              subst from'
              exact Bool.eq_false_iff.mp takes (sound.takes_iff.mpr ⟨known, offline⟩)

theorem mirrored_step (mirrored : p.Mirrored) (recorded : q.taken = p.recorded move)
    (mirrors : p.Mirrors move) : q.Mirrored := by
  intro which first second took took'
  rw [recorded] at took took'
  cases move with
  | request => exact mirrored which first second took took'
  | requestAt => exact mirrored which first second took took'
  | deliver side m ip port idle =>
      cases m with
      | ping => exact mirrored which first second took took'
      | pingRequest address fromId sendBack publicSecret pv cv =>
          rw [Pair.recorded] at took took'
          split at took
          · rename_i takes
            rw [if_pos takes] at took'
            have way := mirrors takes
            rcases eq_or_eq_other side which with rfl | rfl
            · rw [Function.update_self] at took
              rw [Function.update_of_ne (other_ne which)] at took'
              cases took
              exact (way second took').2.symm
            · rw [other_other, Function.update_self] at took'
              rw [Function.update_of_ne (other_ne side)] at took
              cases took'
              exact (way first took).1
          · rename_i stays
            rw [if_neg stays] at took'
            exact mirrored which first second took took'

/-- Two ready channels have the same key if the requests have gone between the
same addresses. -/
theorem Sound.agrees (sound : e.Sound p) (mirrored : p.Mirrored) : e.Agrees p := by
  intro side c d key other mine theirs ready ready'
  rw [keyOf, Option.map_eq_some_iff] at ready ready'
  obtain ⟨pub, ready, rfl⟩ := ready
  obtain ⟨pub', ready', rfl⟩ := ready'
  obtain ⟨first, d', took, from', drew, rfl⟩ := (sound side).ready _ c pub mine ready
  obtain ⟨second, c', took', from'', drew', rfl⟩ := (sound side.other).ready _ d pub' theirs ready'
  have forth := mirrored side first second took took'
  have back := mirrored side.other second first took' (by rwa [other_other])
  rw [other_other, back, from'] at drew'
  rw [forth, from''] at drew
  cases drew.symm.trans theirs
  cases drew'.symm.trans mine
  rw [other_other]
  exact e.comm _ _

private theorem starts_bare {s : UserService Public} (starts : s.Starts) :
    s.encryptedChannels = {} ∧ s.outbox = [] := by
  obtain ⟨self, contacts, infos, -, rfl⟩ := starts
  have fold (users : List UserInfo) : ∀ s : UserService Public,
      (users.foldl UserService.addContactData s).encryptedChannels = s.encryptedChannels ∧
        (users.foldl UserService.addContactData s).outbox = s.outbox := by
    induction users with
    | nil => exact fun s => ⟨rfl, rfl⟩
    | cons u users ih => exact fun s => ih (s.addContactData u)
  exact fold contacts.list { self := self, contacts := contacts, infos := infos }

theorem sound_start (starts : p.Starts) : e.Sound p := by
  intro side
  obtain ⟨channels, outbox⟩ := starts_bare (starts.user side)
  have none? (i : String) : (p.user side).encryptedChannels.channels i = none := by rw [channels]
  refine ⟨⟨(starts.user side).tied, ?_⟩, fun m member => ?_, fun i c pub found => ?_,
    fun route took => ?_⟩
  · rw [channels]
    exact EncryptedChannels.keyedBy_empty
  · rw [outbox] at member
    cases member
  · cases (none? i).symm.trans found
  · cases (starts.taken side).symm.trans took

theorem sound_of_run {moves : List (Move Public)} (run : Run Pair.Starts e.Step moves p) :
    e.Sound p := by
  induction run with
  | start starts => exact sound_start starts
  | step _ stepped ih => exact (ih.step stepped).1

/-- In a run in which each request that is taken second goes back the way of the
first, the routes are those of each other. -/
theorem mirrored_of_run {moves : List (Move Public)}
    (run : Run Pair.Starts (fun p move q => e.Step p move q ∧ p.Mirrors move) moves p) :
    e.Sound p ∧ p.Mirrored := by
  induction run with
  | start starts =>
      refine ⟨sound_start starts, fun side first second took => ?_⟩
      cases (starts.taken side).symm.trans took
  | step _ stepped ih =>
      obtain ⟨sound, recorded⟩ := ih.1.step stepped.1
      exact ⟨sound, mirrored_step ih.2 recorded stepped.2⟩

/-- Who has taken a request has a ready channel under the other's address. -/
theorem Sound.ready (sound : e.Sound p) (took : (p.taken side).isSome = true) :
    ∃ c key, p.currentChannel side = some c ∧ e.keyOf side c = some key := by
  obtain ⟨route, took⟩ := Option.isSome_iff_exists.mp took
  obtain ⟨-, current, c, pub, found, ready⟩ := (sound side).taken route took
  refine ⟨c, e.symmetricKey (e.draw side c.sharedSecret.secret) pub, ?_, ?_⟩
  · exact (congrArg (p.user side).encryptedChannels.channels current).trans found
  · rw [keyOf, ready, Option.map_some]

/-- Different pairs of secrets have different keys, and no secret is drawn twice. -/
structure Distinct (e : Exchange Secret Public Key) : Prop where
  keys : ∀ a b c d, e.symmetricKey a (e.publicValue b) = e.symmetricKey c (e.publicValue d) →
    (a = c ∧ b = d) ∨ (a = d ∧ b = c)
  draws : ∀ side m other n, e.draw side m = e.draw other n → side = other ∧ m = n

/-- Equal keys are made from the same two secrets. -/
theorem Sound.same_way (distinct : e.Distinct) (sound : e.Sound p) (agrees : e.Agrees p)
    {mine theirs : Route} (took : p.taken side = some mine)
    (took' : p.taken side.other = some theirs) :
    theirs.sentTo = mine.cameFrom ∧ theirs.cameFrom = mine.sentTo := by
  obtain ⟨-, current, c, pub, found, ready⟩ := (sound side).taken mine took
  obtain ⟨-, current', c', pub', found', ready'⟩ := (sound side.other).taken theirs took'
  obtain ⟨_, d, again, -, drew, rfl⟩ := (sound side).ready _ c pub found ready
  cases took.symm.trans again
  obtain ⟨_, d', again, -, drew', rfl⟩ := (sound side.other).ready _ c' pub' found' ready'
  cases took'.symm.trans again
  have under : p.currentChannel side = some c :=
    (congrArg (p.user side).encryptedChannels.channels current).trans found
  have under' : p.currentChannel side.other = some c' :=
    (congrArg (p.user side.other).encryptedChannels.channels current').trans found'
  have keys := agrees side c c' _ _ under under' (congrArg (Option.map _) ready)
    (congrArg (Option.map _) ready')
  rw [other_other] at drew' keys
  rcases distinct.keys _ _ _ _ keys with ⟨crossed, -⟩ | ⟨same, same'⟩
  · exact absurd (distinct.draws _ _ _ _ crossed).1.symm (other_ne side)
  · have secret := (distinct.draws _ _ _ _ same).2
    have secret' := (distinct.draws _ _ _ _ same').2
    refine ⟨?_, ?_⟩
    · exact ((sound side).sound.keyed.apart _ _ c d' found drew' secret).symm
    · exact ((sound side.other).sound.keyed.apart _ _ d c' drew found' secret').symm

/-- A request that does not go back the way of the other leaves the two with
different keys. -/
theorem Sound.not_agrees (distinct : e.Distinct) (sound : e.Sound p) (step : e.Step p move q)
    (strays : ¬p.Mirrors move) : ¬e.Agrees q := by
  intro agrees
  obtain ⟨sound', recorded⟩ := sound.step step
  cases move with
  | request => exact strays trivial
  | requestAt => exact strays trivial
  | deliver side m ip port idle =>
      cases m with
      | ping => exact strays trivial
      | pingRequest address fromId sendBack publicSecret pv cv =>
          apply strays
          intro takes route took
          rw [Pair.recorded, if_pos takes] at recorded
          have mine : q.taken side = some ⟨address, makeUdpAddress ip port⟩ := by
            rw [recorded, Function.update_self]
          have theirs : q.taken side.other = some route := by
            rw [recorded, Function.update_of_ne (other_ne side), took]
          exact sound'.same_way distinct agrees mine theirs

/-- In a run in which each request that is taken second goes back the way of the
first, the keys agree. A step that takes another one leaves different keys. -/
theorem handshake_agrees (e : Exchange Secret Public Key) :
    (∀ moves p, Run Pair.Starts (fun p move q => e.Step p move q ∧ p.Mirrors move) moves p →
      e.Agrees p) ∧
    (e.Distinct → ∀ moves p move q, Run Pair.Starts e.Step moves p → e.Step p move q →
      ¬p.Mirrors move → ¬e.Agrees q) := by
  refine ⟨fun moves p run => ?_, fun distinct moves p move q run step strays => ?_⟩
  · obtain ⟨sound, mirrored⟩ := mirrored_of_run run
    exact sound.agrees mirrored
  · exact (sound_of_run run).not_agrees distinct step strays

end Pairs

section Twins

/-- An exchange in which a key is the pair of its secrets. -/
def freeExchange : Exchange (Side × Nat) (Side × Nat) (Sym2 (Side × Nat)) where
  publicValue := id
  symmetricKey a b := s(a, b)
  comm _ _ := Sym2.eq_swap
  draw side n := (side, n)

theorem freeExchange_distinct : freeExchange.Distinct where
  keys _ _ _ _ same := Sym2.eq_iff.mp same
  draws _ _ _ _ same := Prod.mk.inj same

def knows (self other : String) (addresses : List String) : UserService (Side × Nat) :=
  .new self (valueD {} (PointerList.ofUsers UserInfo.id [⟨other⟩]))
    fun _ => { name := other, key := other, addresses := addresses }

/-- `ann` and `bob`, who know these addresses of each other. -/
def twins (ofAnn ofBob : List String) : Pair (Side × Nat) where
  user
    | .left => knows "ann" "bob" ofBob
    | .right => knows "bob" "ann" ofAnn

theorem twins_starts (ofAnn ofBob : List String) : (twins ofAnn ofBob).Starts where
  user side := by
    cases side with
    | left => exact ⟨_, _, _, .ofUsers (ok_valueD (by decide +kernel)), rfl⟩
    | right => exact ⟨_, _, _, .ofUsers (ok_valueD (by decide +kernel)), rfl⟩
  taken _ := rfl

def afterMoves (p : Pair (Side × Nat)) (moves : List (Move (Side × Nat))) : Pair (Side × Nat) :=
  moves.foldl (fun p move => valueD p (freeExchange.run p move)) p

private theorem step_delivered {p : Pair (Side × Nat)} {side : Side} {m : UserMessage (Side × Nat)}
    {ip : String} {port : Nat} (sent : m ∈ (p.user side.other).outbox)
    (success : (freeExchange.run p (.deliver side m ip port false)).isOk = true) :
    freeExchange.Step p (.deliver side m ip port false)
      (afterMoves p [.deliver side m ip port false]) := by
  refine ⟨fun which n ip' port' idle same => ?_, ok_valueD success⟩
  cases same
  exact sent

private theorem step_request {p : Pair (Side × Nat)} {side : Side} {sendBack : Bool}
    (success : (freeExchange.run p (.request side sendBack)).isOk = true) :
    freeExchange.Step p (.request side sendBack) (afterMoves p [.request side sendBack]) := by
  refine ⟨fun which m ip port idle same => ?_, ok_valueD success⟩
  cases same

/-- A request of `ann` or `bob` with the secret of this number. -/
def asks (side : Side) (address : String) (sendBack : Bool) (secret : Nat) :
    UserMessage (Side × Nat) :=
  .pingRequest address (if side = .left then "ann" else "bob") sendBack (side, secret)
    protocolVersion clientVersion

/-- `ann` asks `bob`, and takes his answer. -/
def meeting : List (Move (Side × Nat)) :=
  [.request .left true,
    .deliver .right (asks .left "udp://10.0.0.2:6060" true 1) "10.0.0.1" 6060 false,
    .deliver .left (asks .right "udp://10.0.0.1:6060" false 1) "10.0.0.2" 6060 false]

/-- The two after the first moves of `meeting`. -/
def met (n : Nat) : Pair (Side × Nat) :=
  afterMoves (twins ["udp://10.0.0.1:6060"] ["udp://10.0.0.2:6060"]) (meeting.take n)

theorem met_run : Run Pair.Starts (fun p move q => freeExchange.Step p move q ∧ p.Mirrors move)
    meeting (met 3) := by
  have asked : freeExchange.Step (met 0) (.request .left true) (met 1) :=
    step_request (by decide +kernel)
  have answered : freeExchange.Step (met 1) (.deliver .right (asks .left "udp://10.0.0.2:6060"
      true 1) "10.0.0.1" 6060 false) (met 2) :=
    step_delivered (by decide +kernel) (by decide +kernel)
  have took : freeExchange.Step (met 2) (.deliver .left (asks .right "udp://10.0.0.1:6060"
      false 1) "10.0.0.2" 6060 false) (met 3) :=
    step_delivered (by decide +kernel) (by decide +kernel)
  have first : (met 1).taken .left = none := by decide +kernel
  have second : (met 2).taken .right = some ⟨"udp://10.0.0.2:6060", "udp://10.0.0.1:6060"⟩ := by
    decide +kernel
  refine .step (.step (.step (.start (twins_starts _ _)) ⟨asked, trivial⟩)
    ⟨answered, fun _ route took => ?_⟩) ⟨took, fun _ route took => ?_⟩
  · cases second.symm.trans took
    exact ⟨by decide +kernel, rfl⟩
  · cases first.symm.trans took

/-- `ann` and `bob` each have two addresses. The request of `ann` arrives over
the first, and the answer of `bob` to her second address is the first to arrive. -/
def crossing : List (Move (Side × Nat)) :=
  [.request .left true,
    .deliver .right (asks .left "udp://10.0.0.2:6060" true 1) "10.0.0.1" 6060 false,
    .deliver .left (asks .right "udp://203.0.113.1:6060" false 3) "203.0.113.2" 6060 false]

/-- The two after the first moves of `crossing`. -/
def crossed (n : Nat) : Pair (Side × Nat) :=
  afterMoves (twins ["udp://10.0.0.1:6060", "udp://203.0.113.1:6060"]
    ["udp://10.0.0.2:6060", "udp://203.0.113.2:6060"]) (crossing.take n)

/-- The answer of `bob` that arrives first. -/
def crossingAnswer : Move (Side × Nat) :=
  .deliver .left (asks .right "udp://203.0.113.1:6060" false 3) "203.0.113.2" 6060 false

private theorem crossed_run :
    Run Pair.Starts freeExchange.Step (crossing.take 2) (crossed 2) ∧
      freeExchange.Step (crossed 2) crossingAnswer (crossed 3) := by
  have asked : freeExchange.Step (crossed 0) (.request .left true) (crossed 1) :=
    step_request (by decide +kernel)
  have answered : freeExchange.Step (crossed 1) (.deliver .right (asks .left "udp://10.0.0.2:6060"
      true 1) "10.0.0.1" 6060 false) (crossed 2) :=
    step_delivered (by decide +kernel) (by decide +kernel)
  have took : freeExchange.Step (crossed 2) crossingAnswer (crossed 3) :=
    step_delivered (by decide +kernel) (by decide +kernel)
  exact ⟨.step (.step (.start (twins_starts _ _)) asked) answered, took⟩

/-- Both have a ready channel under the address they use, with different keys. -/
theorem crossed_disagrees :
    Run Pair.Starts freeExchange.Step crossing (crossed 3) ∧
      (crossed 3).currentChannel .left = some
        { sharedSecret := { secret := 3, otherPubValue := some (.right, 3) }, key := some "bob" } ∧
      (crossed 3).currentChannel .right = some
        { sharedSecret := { secret := 1, otherPubValue := some (.left, 1) }, key := some "ann" } ∧
      ¬freeExchange.Agrees (crossed 3) := by
  have mine : (crossed 3).currentChannel .left = some
      { sharedSecret := { secret := 3, otherPubValue := some (.right, 3) }, key := some "bob" } := by
    decide +kernel
  have theirs : (crossed 3).currentChannel .right = some
      { sharedSecret := { secret := 1, otherPubValue := some (.left, 1) }, key := some "ann" } := by
    decide +kernel
  refine ⟨.step crossed_run.1 crossed_run.2, mine, theirs, fun agrees => ?_⟩
  have same := agrees .left _ _ _ _ mine theirs rfl rfl
  rcases Sym2.eq_iff.mp same with ⟨side, -⟩ | ⟨secret, -⟩
  · exact absurd side (by decide)
  · exact absurd secret (by decide)

/-- The meeting ends in one key. The answer that arrives first in the crossing
does not go back the way of the request, and ends in two. -/
theorem met_agrees :
    Run Pair.Starts (fun p move q => freeExchange.Step p move q ∧ p.Mirrors move) meeting (met 3) ∧
      (met 3).currentChannel .left = some
        { sharedSecret := { secret := 1, otherPubValue := some (.right, 1) }, key := some "bob" } ∧
      (met 3).currentChannel .right = some
        { sharedSecret := { secret := 1, otherPubValue := some (.left, 1) }, key := some "ann" } ∧
      freeExchange.Agrees (met 3) ∧ ¬(crossed 2).Mirrors crossingAnswer ∧
      ¬freeExchange.Agrees (crossed 3) := by
  have strays : ¬(crossed 2).Mirrors crossingAnswer := by
    intro mirrors
    have took : (crossed 2).taken .right =
        some ⟨"udp://10.0.0.2:6060", "udp://10.0.0.1:6060"⟩ := by
      decide +kernel
    have way := (mirrors (by decide +kernel) _ took).2
    exact absurd way (by decide)
  refine ⟨met_run, by decide +kernel, by decide +kernel,
    (handshake_agrees freeExchange).1 _ _ met_run, strays, ?_⟩
  exact (handshake_agrees freeExchange).2 freeExchange_distinct _ _ _ _ crossed_run.1 crossed_run.2
    strays

end Twins

end Exchange

end Firestr.User
