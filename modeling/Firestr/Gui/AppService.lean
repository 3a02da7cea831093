import Firestr.Messages.Message
import Firestr.Util.DiskStore
import Firestr.Util.FileSystem

/-! Apps that come in messages. The app service gives each a directory in its
temporary home, where the app stores its data. The directory goes with the app. -/

set_option autoImplicit false

namespace Firestr.Gui

open Firestr.Messages Firestr.Util

/-- What of the `app_service` the code for temporary apps uses: the home of its
user, which is not empty, and the working directory of the process. -/
structure AppService (Double : Type) where
  paths : Paths
  doubles : Doubles Double
  uuids : Uuids
  uuidNames : ∀ n, FileName (uuids.uuid n)
  cwd : Location
  home : Bytes
  nonempty : home ≠ []
  noNul : 0 ∉ home

/-- `app`, as far as a message fills it. -/
structure App (Double : Type) where
  path : Bytes
  id : Bytes
  name : Bytes
  code : Bytes
  data : DiskStore Double
  isTmp : Bool := false

def bytesText (b : Bytes) : String := String.ofList (b.map fun byte => Char.ofNat byte.toNat)

variable {Double : Type}

/-- `m.meta.extra[k].as_string()`. -/
def extraString (m : Message Double) (k : String) : Outcome Bytes :=
  match m.metadata.extra.lookup (ascii k) with
  | none => .error (.thrown ("unable to find key `" ++ k ++ "' in dictionary\n"))
  | some v => v.asString

namespace AppService

variable (s : AppService Double)

/-- `_tmp_app_home`. -/
def tmpAppHome : Bytes := s.paths.append s.home (ascii "tmp")

def getAppDir (root id : Bytes) : Bytes := s.paths.append root id

def getAppDataDir (root : Bytes) : Bytes := s.paths.append root (ascii "data")

def setupTmpDir (m : Message Double) (tmpRoot : Bytes) : DiskM Bytes := do
  let id ← DiskM.lift (extraString m "app_id")
  let t := s.getAppDir tmpRoot id
  let d := s.getAppDataDir t
  let _ ← createDirectory s.cwd d
  pure t

/-- The index that a `load_from_file` has read, if there was one. -/
def readIndex (content : Option Bytes) : Outcome (List (Bytes × Option Bytes)) :=
  match content with
  | none => .ok []
  | some content => do
    let (entries, _) ← readDict s.doubles { rest := content }
    pure (entries.map fun e => (e.1, e.2.asString.toOption))

/-- `disk_store::load`. -/
def load (made : Nat) (path : Bytes) : DiskM (DiskStore Double) := do
  DiskM.lift (require (!path.isEmpty) "!(path.empty())")
  if ← pathExists s.cwd path then do
    let content ← loadFromFile s.cwd (s.paths.append path (ascii "index"))
    let index ← DiskM.lift (s.readIndex content)
    pure { path := path, index := index, made := made }
  else DiskM.lift (.error (.thrown ("path `" ++ bytesText path ++ "' does not exist.")))

/-- `set_intern`, with the value file. -/
def setIntern (d : DiskStore Double) (key : Bytes) (v : Value Double) : DiskM (DiskStore Double) := do
  let next ← DiskM.lift (d.setIntern s.uuids key v)
  saveToFile s.cwd (s.paths.append d.path ((next.idOf key).getD [])) (v.encode s.doubles)
  pure next

def setAll (d : DiskStore Double) : List (Bytes × Value Double) → DiskM (DiskStore Double)
  | [] => pure d
  | (key, v) :: rest => do
    let d ← s.setIntern d key v
    setAll d rest

/-- The index as the dictionary that is saved. -/
def indexDict (index : List (Bytes × Option Bytes)) : List (Bytes × Value Double) :=
  index.map fun e => (e.1, (e.2.map Value.bytes).getD .empty)

/-- `import_from`, with the files. -/
def importFrom (d : DiskStore Double) (entries : List (Bytes × Value Double)) :
    DiskM (DiskStore Double) := do
  let d ← s.setAll d entries
  DiskM.lift d.saveIndex
  saveToFile s.cwd (s.paths.append d.path (ascii "index"))
    ((Value.dict (indexDict d.index)).encode s.doubles)
  pure d

/-- The constructor of an `app` from a message. -/
def newApp (made : Nat) (appDir : Bytes) (m : Message Double) : DiskM (App Double) := do
  DiskM.lift (require (m.metadata.type == ascii "app_message") "m.meta.type == APP_MESSAGE")
  let id ← DiskM.lift (extraString m "app_id")
  let name ← DiskM.lift (extraString m "app_name")
  let code ← DiskM.lift (extraString m "code")
  let data ← s.load made (s.getAppDataDir appDir)
  let entries ← DiskM.lift (readDict s.doubles { rest := m.data })
  let data ← s.importFrom data entries.1
  if id.isEmpty then
    DiskM.lift (.error (.thrown ("received app `" ++ bytesText name ++ "' with empty id")))
  else
    pure {
      path := appDir
      id := id
      name := name
      code := code
      data := data }

/-- `create_app`, when the process has made this many uuids. -/
def createApp (made : Nat) (m : Message Double) : DiskM (App Double) := do
  let tmpDir ← s.setupTmpDir m s.tmpAppHome
  let a ← s.newApp made tmpDir m
  pure { a with isTmp := true }

/-- `~app`. -/
def destroyApp (a : App Double) : DiskM Unit := do
  if !a.isTmp then pure ()
  else do
    DiskM.lift (check (!a.path.isEmpty) "!_meta.path.empty()")
    let _ ← deleteDirectory s.cwd a.path
    pure ()

end AppService

end Firestr.Gui
