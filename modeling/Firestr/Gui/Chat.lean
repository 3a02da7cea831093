import Firestr.Library.Causality
import Firestr.Library.Runs
import Firestr.User.ContactList
import Firestr.Util.Strings
import Firestr.Util.VClockProperties

/-! The chat app. A text message carries the clock of its sender, and an app
discards a message whose clock is at most its own. -/

set_option autoImplicit false

namespace Firestr.Gui

open Firestr.Library Firestr.Library.Runs Firestr.User Firestr.Util

deriving instance DecidableEq for TrackedVClock

/-- `text_message`, with the id that the sender adds to it. -/
structure TextMessage where
  fromId : String
  text : Bytes
  clock : TrackedVClock String
  hasClock : Bool
  deriving DecidableEq

/-- The messages of a chat, by their type. -/
inductive ChatMessage where
  | text (t : TextMessage)
  | joined (fromId : String)
  | other

/-- A line of the chat, under what it is made from. -/
inductive Line where
  | mine (text : Bytes)
  | nobodyHere
  | received (c : UserInfo) (t : TextMessage)
  | joined (c : UserInfo)

/-- `chat_app`, with the lines it shows. -/
structure ChatApp where
  clock : TrackedVClock String
  text : List Line := []

namespace ChatApp

def new (id : String) : ChatApp := { clock := .new id }

def addText (me : ChatApp) (line : Line) : ChatApp := { me with text := me.text ++ [line] }

/-- The message that `send_message` sends to all contacts, if any, and the app after it. -/
def sendMessage (contacts : ContactList) (me : ChatApp) (text : Bytes) :
    Option TextMessage × ChatApp :=
  let text := trim text
  if text.isEmpty then (none, me)
  else
    let me := me.addText (.mine text)
    let me := { me with clock := me.clock.increment }
    let tm := { fromId := me.clock.i, text := text, clock := me.clock, hasClock := true }
    (some tm, if contacts.empty then me.addText .nobodyHere else me)

def contactJoined (contacts : ContactList) (me : ChatApp) (id : String) : Outcome ChatApp := do
  require (!id.isEmpty) "!(id.empty())"
  match ← contacts.byId id with
  | none => pure me
  | some c => pure (me.addText (.joined c))

def checkMail (contacts : ContactList) (me : ChatApp) : ChatMessage → Outcome ChatApp
  | .text t => do
    match ← contacts.byId t.fromId with
    | none => pure me
    | some c =>
      if t.hasClock then
        if ← t.clock.le me.clock then pure me
        else do
          let clock ← me.clock.add t.clock
          pure ({ me with clock := clock }.addText (.received c t))
      else pure (me.addText (.received c t))
  | .joined fromId => me.contactJoined contacts fromId
  | .other => pure me

/-- The received messages that are shown, in order. -/
def shown (me : ChatApp) : List TextMessage :=
  me.text.filterMap fun
    | .received _ t => some t
    | _ => none

end ChatApp

/-- A sent message, with the messages that its sender had sent or shown before. -/
structure SentText where
  message : TextMessage
  seen : List TextMessage

/-- The chat apps of a group, each under the id of its user, what they have
sent, and the messages that an app was given and does not show after it. -/
structure ChatGroup where
  state : String → ChatApp := ChatApp.new
  sent : List SentText := []
  lost : List (String × TextMessage) := []

namespace ChatGroup

/-- The group as members that post messages and take them in. -/
def system (g : ChatGroup) : Causality.System String TextMessage where
  clock i := (g.state i).clock.c.counts
  posts := g.sent.map fun p =>
    { message := p.message
      owner := p.message.fromId
      stamp := p.message.clock.c.counts
      seen := p.seen }
  taken i := (g.state i).shown

def put (g : ChatGroup) (i : String) (me : ChatApp) : ChatGroup :=
  { g with state := Function.update g.state i me }

end ChatGroup

inductive ChatEvent where
  | send (i : String) (contacts : ContactList) (text : Bytes)
  | receive (i : String) (contacts : ContactList) (t : TextMessage)
  | other (i : String) (contacts : ContactList) (m : ChatMessage)

/-- A member sends a text, while its count has room within `ptrdiff_t`, or is
given a text that another one has sent, any number of times and in any order. -/
inductive ChatStep (g : ChatGroup) : ChatEvent → ChatGroup → Prop where
  | send {i : String} {contacts : ContactList} {text : Bytes} {tm : Option TextMessage}
      {me : ChatApp} : (g.state i).clock.c.counts i + 1 < 2 ^ 63 →
      (g.state i).sendMessage contacts text = (tm, me) →
      ChatStep g (.send i contacts text)
        { g.put i me with
          sent := g.sent ++ tm.toList.map fun t => { message := t, seen := g.system.known i } }
  | receive {i : String} {contacts : ContactList} {p : SentText} {me : ChatApp} :
      p ∈ g.sent → p.message.fromId ≠ i → contacts.Indexed →
      (g.state i).checkMail contacts (.text p.message) = .ok me →
      ChatStep g (.receive i contacts p.message)
        { g.put i me with
          lost := g.lost ++ if p.message ∈ me.shown then [] else [(i, p.message)] }
  | other {i : String} {contacts : ContactList} {m : ChatMessage} {me : ChatApp} :
      (∀ t, m ≠ .text t) → (g.state i).checkMail contacts m = .ok me →
      ChatStep g (.other i contacts m) (g.put i me)

abbrev ChatRun : List ChatEvent → ChatGroup → Prop := Run (fun g => g = {}) ChatStep

/-- The receiver has the sender among the contacts of its conversation. -/
def ChatEvent.Together : ChatEvent → Prop
  | .receive _ contacts t => t.fromId ∈ contacts.ids
  | _ => True

/-- A message arrives again, or before every shown message that it is a cause of. -/
def ChatGroup.InOrder (g : ChatGroup) : ChatEvent → Prop
  | .receive i _ t =>
    t ∈ (g.state i).shown ∨ ∀ m ∈ (g.state i).shown, ¬ Causality.Cause g.system.posts t m
  | _ => True

end Firestr.Gui
