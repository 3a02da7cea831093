import Firestr.Gui.Chat
import Firestr.Util.CrStringExchange
import Firestr.Util.DiskStore

/-! The app editor. A script message carries the code with its clock, and the
data of the app, and an editor merges the one and imports the other. -/

set_option autoImplicit false

namespace Firestr.Gui

open Firestr.Library.Runs Firestr.User Firestr.Util

variable {Double : Type}

inductive RunState where
  | ready
  | codeChanged
  | doneTyping
  deriving DecidableEq, Repr

/-- `text_script`, with the id of its sender: the text of the code with the id and
the counts of its clock, and the data. -/
structure TextScript where
  fromId : String
  id : String
  clock : VClock String
  text : Bytes
  data : Bytes

/-- The code as it is read from the message, with any counts. -/
def TextScript.code (t : TextScript) : CrString String :=
  { c := .ofClock t.id t.clock, s := t.text }

/-- `app_editor`: its code, the data of its app, what the text edit shows, and
the code it has given to its backend to run. -/
structure AppEditor (Double : Type) where
  code : CrString String
  data : DiskStore Double
  script : Bytes := []
  dirty : Bool := false
  prevCode : Bytes := []
  runState : RunState := .ready
  ran : List Bytes := []

namespace AppEditor

/-- The editor of an app, as the constructor and `start` leave it. -/
def new (id : String) (code : Bytes) (data : DiskStore Double) : AppEditor Double where
  code := (CrString.new id).initSet code
  data := data
  script := code

/-- The script that `send_script` and `send_script_to` send. -/
def sendScript (doubles : Doubles Double) (s : AppEditor Double) (sendData : Bool) :
    Outcome TextScript := do
  let data ← (if sendData then do
      let data ← s.data.exportTo []
      pure (Value.encode doubles (.dict data))
    else pure [] : Outcome Bytes)
  pure
    { fromId := s.code.c.i
      id := s.code.c.i
      clock := s.code.c.c
      text := s.code.s
      data := data }

def runScript (s : AppEditor Double) : AppEditor Double :=
  if s.code.s.isEmpty then s else { s with ran := s.ran ++ [s.code.s] }

def textTyped (s : AppEditor Double) (text : Bytes) : AppEditor Double :=
  { s with
    script := text
    code := s.code.set text
    dirty := true }

def dataUpdated (s : AppEditor Double) : AppEditor Double :=
  { s with
    runState := .codeChanged
    code := { s.code with c := s.code.c.increment } }

/-- `add_data` of a value, with what is typed as the key. -/
def addData (uuids : Uuids) (s : AppEditor Double) (key : Bytes) (v : Value Double) :
    Outcome (AppEditor Double) := do
  let k := trim key
  if k.isEmpty then pure s
  else do
    let data ← s.data.set uuids k v
    pure { s with data := data }.dataUpdated

/-- `data_item::remove`. -/
def removeData (s : AppEditor Double) (key : Bytes) : Outcome (AppEditor Double) := do
  let (_, data) ← s.data.remove key
  pure { s with data := data }.dataUpdated

def receivedCode (dtl : Dtl) (doubles : Doubles Double) (uuids : Uuids) (contacts : ContactList)
    (s : AppEditor Double) (t : TextScript) : Outcome (AppEditor Double) := do
  if !contacts.has t.fromId then pure s
  else do
    let (result, code) ← s.code.merge dtl t.code
    let s := { s with
      code := code
      dirty := true
      script := code.s }
    let dataChanged := !t.data.isEmpty
    if dataChanged then do
      let data ← decodeDictionary doubles t.data
      let store ← (if result = .updated then s.data.clear else pure s.data)
      let store ← store.importFrom uuids data
      pure { s with
        data := store
        prevCode := s.code.s
        runState := .ready }.runScript
    else pure s

end AppEditor

inductive EditorEvent (Double : Type) where
  | textTyped (text : Bytes)
  | addData (key : Bytes) (v : Value Double)
  | removeData (key : Bytes)
  | scriptSets (key : Bytes) (v : Value Double)
  | scriptRemoves (key : Bytes)
  | receivedCode (contacts : ContactList) (t : TextScript)

/-- A local edit, a change that the running script makes to the data, or a
received script. -/
inductive EditorStep (dtl : Dtl) (doubles : Doubles Double) (uuids : Uuids)
    (s : AppEditor Double) : EditorEvent Double → AppEditor Double → Prop where
  | textTyped {text : Bytes} : EditorStep dtl doubles uuids s (.textTyped text) (s.textTyped text)
  | addData {key : Bytes} {v : Value Double} {next : AppEditor Double} :
      s.addData uuids key v = .ok next →
      EditorStep dtl doubles uuids s (.addData key v) next
  | removeData {key : Bytes} {next : AppEditor Double} :
      s.removeData key = .ok next →
      EditorStep dtl doubles uuids s (.removeData key) next
  | scriptSets {key : Bytes} {v : Value Double} {data : DiskStore Double} :
      s.data.set uuids key v = .ok data →
      EditorStep dtl doubles uuids s (.scriptSets key v) { s with data := data }
  | scriptRemoves {key : Bytes} {some? : Bool} {data : DiskStore Double} :
      s.data.remove key = .ok (some?, data) →
      EditorStep dtl doubles uuids s (.scriptRemoves key) { s with data := data }
  | receivedCode {contacts : ContactList} {t : TextScript} {next : AppEditor Double} :
      s.receivedCode dtl doubles uuids contacts t = .ok next →
      EditorStep dtl doubles uuids s (.receivedCode contacts t) next

abbrev EditorRun (dtl : Dtl) (doubles : Doubles Double) (uuids : Uuids) :
    List (EditorEvent Double) → AppEditor Double → Prop :=
  Run (fun s => ∃ id code data, s = AppEditor.new id code data ∧ data.Valid uuids)
    (EditorStep dtl doubles uuids)

end Firestr.Gui
