import Firestr.Gui.AppService
import Firestr.Util.StoreFiles

/-! Apps that are saved to a directory and loaded from it: their metadata, their code and
their data, each in its own place. -/

set_option autoImplicit false

namespace Firestr.Gui

open Firestr.Library.Assoc Firestr.Util

variable {Double : Type}

section Code

/-- `std::getline` with what is left of the stream. -/
def getline (rest : Bytes) : Option (Bytes × Bytes) :=
  match rest with
  | [] => none
  | rest => some (rest.takeWhile (· ≠ 10), (rest.dropWhile (· ≠ 10)).drop 1)

/-- The loop of `load_app` that puts the code together line by line. -/
def codeLoop : Nat → Bytes → Bytes → Outcome Bytes
  | 0, _, _ => .error .diverged
  | fuel + 1, rest, code =>
    match getline rest with
    | none => .ok code
    | some (line, rest) => codeLoop fuel rest (code ++ line ++ [10])

/-- The code that is read from a file. -/
def readCode (content : Bytes) : Outcome Bytes := codeLoop (content.length + 1) content []

end Code

namespace AppService

variable (s : AppService Double)

def getMetadataFile (dir : Bytes) : Bytes := s.paths.append dir (ascii "metadata")

def getCodeFile (dir : Bytes) : Bytes := s.paths.append dir (ascii "code.lua")

def getDataPath (dir : Bytes) : Bytes := s.paths.append dir (ascii "data")

/-- `std::ofstream` with what is written to it, and whether it was good. -/
def writeFile (f content : Bytes) : DiskM Bool := fun fs =>
  match saveToFile s.cwd f content fs with
  | (.ok (), fs) => (.ok true, fs)
  | (.error _, fs) => (.ok false, fs)

/-- `get_value` of a key of the index, with the value file. -/
def getValue (d : DiskStore Double) (key : Bytes) : DiskM (Value Double) := do
  let id ← DiskM.lift (DiskStore.asString ((d.index.lookup key).getD none))
  let content ← loadFromFile s.cwd (s.paths.append d.path id)
  match content with
  | none => pure .empty
  | some content => DiskM.lift (Value.decode s.doubles content)

def exportKeys (d : DiskStore Double) :
    List Bytes → List (Bytes × Value Double) → DiskM (List (Bytes × Value Double))
  | [], entries => pure entries
  | key :: rest, entries => do
    let v ← s.getValue d key
    exportKeys d rest (assign entries key v)

/-- `export_to` an empty dictionary, with the files. -/
def exportTo (d : DiskStore Double) : DiskM (List (Bytes × Value Double)) :=
  s.exportKeys d (d.index.map (·.1)) []

def metadata (a : App Double) : List (Bytes × Value Double) :=
  assign (assign [] (ascii "id") (.bytes a.id)) (ascii "name") (.bytes a.name)

/-- Removes the data of a directory and puts the data of an app in its place. -/
def replaceData (walk : Walk Double) (made : Nat) (dataPath : Bytes) (a : App Double) :
    DiskM Unit := do
  let _ ← deleteDirectory s.cwd dataPath
  let _ ← createDirectory s.cwd dataPath
  let dc ← s.exportTo a.data
  let cs ← s.load made dataPath
  let _ ← s.importFrom cs (walk.order dc)
  pure ()

/-- `save_app`, when the process has made this many uuids. -/
def saveApp (walk : Walk Double) (made : Nat) (dir : Bytes) (a : App Double) : DiskM Bool := do
  DiskM.lift (require (!a.id.isEmpty) "!(a.id().empty())")
  DiskM.lift (require (!a.name.isEmpty) "!(a.name().empty())")
  if ← pathExists s.cwd dir then do
    saveToFile s.cwd (s.getMetadataFile dir)
      ((Value.dict (walk.order (metadata a))).encode s.doubles)
    if ← s.writeFile (s.getCodeFile dir) a.code then do
      let _ ← createDirectory s.cwd (s.getDataPath dir)
      if a.path ≠ dir then s.replaceData walk made (s.getDataPath dir) a
      pure true
    else pure false
  else pure false

/-- `d[k].as_string()`, where `operator[]` makes an empty value for a key that is not there. -/
def metadataString (d : List (Bytes × Value Double)) (k : String) : Outcome Bytes :=
  ((d.lookup (ascii k)).getD .empty).asString

/-- `load_app_metadata`: the id and the name. -/
def loadAppMetadata (dir : Bytes) : DiskM (Option (Bytes × Bytes)) := do
  DiskM.lift (require (!dir.isEmpty) "!(dir.empty())")
  let content ← loadFromFile s.cwd (s.getMetadataFile dir)
  match content with
  | none => pure none
  | some content => do
    let (d, _) ← DiskM.lift (readDict s.doubles { rest := content })
    let id ← DiskM.lift (metadataString d "id")
    let name ← DiskM.lift (metadataString d "name")
    if id.isEmpty then
      DiskM.lift (.error (.thrown ("error loading app `" ++ bytesText dir ++ "', id is empty")))
    else if name.isEmpty then
      DiskM.lift (.error (.thrown ("error loading app `" ++ bytesText dir ++ "', name is empty")))
    else pure (some (id, name))

/-- `load_app`, when the process has made this many uuids. -/
def loadApp (made : Nat) (dir : Bytes) : DiskM (Option (App Double)) := do
  if ← pathExists s.cwd dir then do
    let m ← s.loadAppMetadata dir
    match m with
    | none => pure none
    | some (id, name) => do
      let content ← loadFromFile s.cwd (s.getCodeFile dir)
      match content with
      | none => pure none
      | some content => do
        let code ← DiskM.lift (readCode content)
        DiskM.lift (require (!id.isEmpty) "!(id.empty())")
        let _ ← createDirectory s.cwd (s.getDataPath dir)
        let data ← s.load made (s.getDataPath dir)
        DiskM.lift (ensure (!dir.isEmpty) "!(a->path().empty())")
        DiskM.lift (ensure (!id.isEmpty) "!(a->id().empty())")
        DiskM.lift (ensure (!name.isEmpty) "!(a->name().empty())")
        pure (some {
          path := dir
          id := id
          name := name
          code := code
          data := data })
  else pure none

end AppService

end Firestr.Gui
