import Mathlib.Data.List.Infix
import Mathlib.Logic.Function.Basic
import Firestr.Util.Bytes
import Firestr.Util.Dbc

/-! The file system, without links: which locations are directories and files,
which location a path names, and what the code does with paths. -/

set_option autoImplicit false

namespace Firestr.Util

/-- The names from the top directory down. -/
abbrev Location := List Bytes

instance lawfulBEqLocation : LawfulBEq Location := inferInstance

structure FileSystem where
  directories : Location → Bool
  files : Location → Option Bytes

def slash : UInt8 := 47

/-- What the system calls get of a string. -/
def cString (p : Bytes) : Bytes := p.takeWhile (· ≠ 0)

def separator (p : Bytes) : Bytes := if p.getLast? = some slash then [] else [slash]

/-- `operator/` of `boost::filesystem::path`, version 3. A separator is put before
a path that does not start with one. -/
structure Paths where
  append : Bytes → Bytes → Bytes
  empty : ∀ p, append p [] = p
  absolute : ∀ p q, q.head? = some slash → append p q = p ++ q
  relative : ∀ p q, p ≠ [] → q ≠ [] → q.head? ≠ some slash →
    append p q = p ++ separator p ++ q

/-- One name of a path. -/
def enter (here : Location) (name : Bytes) : Location :=
  if name = [] ∨ name = ascii "." then here
  else if name = ascii ".." then here.dropLast
  else here ++ [name]

/-- The locations that a list of names leads through. -/
def visits (here : Location) : List Bytes → List Location
  | [] => []
  | name :: rest => enter here name :: visits (enter here name) rest

def names (p : Bytes) : List Bytes := (cString p).splitOnP (· == slash)

section Paths

variable (cwd : Location)

/-- Where a path starts. -/
def startOf (p : Bytes) : Location := if p.head? = some slash then [] else cwd

def visited (p : Bytes) : List Location := visits (startOf cwd p) (names p)

def locate (p : Bytes) : Location := (names p).foldl enter (startOf cwd p)

end Paths

/-- The name of a file in a directory. -/
structure FileName (name : Bytes) : Prop where
  nonempty : name ≠ []
  noSlash : slash ∉ name
  noNul : 0 ∉ name
  noDots : name ≠ ascii "." ∧ name ≠ ascii ".."

/-- A computation on the file system, which may end with a fault. -/
def DiskM (Value : Type) : Type := FileSystem → Outcome Value × FileSystem

namespace DiskM

instance diskMonad : Monad DiskM where
  pure v fs := (.ok v, fs)
  bind x next fs :=
    match x fs with
    | (.ok v, fs) => next v fs
    | (.error fault, fs) => (.error fault, fs)

def lift {Value : Type} (outcome : Outcome Value) : DiskM Value := fun fs => (outcome, fs)

end DiskM

namespace FileSystem

/-- The last location is there, and each before it is a directory. -/
def reaches (fs : FileSystem) : List Location → Bool
  | [] => false
  | [last] => fs.directories last || (fs.files last).isSome
  | here :: next :: rest => fs.directories here && fs.reaches (next :: rest)

def has (fs : FileSystem) (cwd : Location) (p : Bytes) : Bool :=
  !(cString p).isEmpty && fs.reaches (visited cwd p)

end FileSystem

section Operations

variable (cwd : Location)

/-- `boost::filesystem::exists`. -/
def pathExists (p : Bytes) : DiskM Bool := fun fs => (.ok (fs.has cwd p), fs)

def makeDirectory (here : Location) : DiskM Unit := fun fs =>
  if fs.directories here then (.ok (), fs)
  else if (fs.files here).isSome then
    (.error (.thrown "boost::filesystem::create_directory: File exists"), fs)
  else (.ok (), { fs with directories := Function.update fs.directories here true })

def makeDirectories : List Location → DiskM Unit
  | [] => pure ()
  | here :: rest => do
    makeDirectory here
    makeDirectories rest

/-- `boost::filesystem::create_directories`. -/
def createDirectories (p : Bytes) : DiskM Unit := makeDirectories (visited cwd p)

/-- `boost::filesystem::remove_all`. -/
def removeAll (p : Bytes) : DiskM Unit := fun fs =>
  (.ok (), {
    directories := fun loc => fs.directories loc && !(locate cwd p).isPrefixOf loc
    files := fun loc => if (locate cwd p).isPrefixOf loc then none else fs.files loc })

/-- `util::create_directory`. -/
def createDirectory (dir : Bytes) : DiskM Bool := do
  DiskM.lift (require (!dir.isEmpty) "!(dir.empty())")
  if ← pathExists cwd dir then pure true
  else do
    createDirectories cwd dir
    pathExists cwd dir

/-- `util::delete_directory`. -/
def deleteDirectory (dir : Bytes) : DiskM Bool := do
  DiskM.lift (require (!dir.isEmpty) "!(dir.empty())")
  if ← pathExists cwd dir then do
    removeAll cwd dir
    let still ← pathExists cwd dir
    pure (!still)
  else pure false

/-- What `load_from_file` reads. A directory opens, but nothing is read from it. -/
def loadFromFile (f : Bytes) : DiskM (Option Bytes) := fun fs =>
  if fs.has cwd f then (.ok (some ((fs.files (locate cwd f)).getD [])), fs)
  else (.ok none, fs)

/-- `save_to_file`. -/
def saveToFile (f content : Bytes) : DiskM Unit := fun fs =>
  if (visited cwd f).dropLast.all fs.directories && !fs.directories (locate cwd f) then
    (.ok (), { fs with files := Function.update fs.files (locate cwd f) (some content) })
  else (.error (.thrown "unable to save"), fs)

end Operations

end Firestr.Util
