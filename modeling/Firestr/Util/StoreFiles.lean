import Firestr.Library.Effects
import Firestr.Util.DiskStoreMap
import Firestr.Util.MencodeInput

/-! The disk store with the files of its directory, one for the index and one for
each value. Any write or deletion may throw, and what a call has done before it
throws is done. -/

set_option autoImplicit false

namespace Firestr.Util

open Firestr.Library.Assoc Firestr.Library.Effects

/-- The names that `util::uuid` makes, as names of value files. -/
structure FileNames extends Uuids where
  notIndex : ∀ n, uuid n ≠ ascii "index"

variable {Double : Type}

/-- The order in which a dictionary is walked when it is saved. -/
structure Walk (Double : Type) where
  order : List (Bytes × Value Double) → List (Bytes × Value Double)
  perm : ∀ d, (order d).Perm d

theorem walk_id_perm (d : List (Bytes × Value Double)) : (id d).Perm d := .refl d

/-- `disk_store`, the files of its directory by their names, and how many of them
have been written or deleted. -/
structure StoreFiles (Double : Type) where
  path : Bytes
  index : List (Bytes × Value Double) := []
  made : Nat := 0
  files : Bytes → Option Bytes := fun _ => none
  changes : Nat := 0

abbrev StoreM (Double Value : Type) : Type := Program (StoreFiles Double) Fault Value

/-- `INDEX`. -/
def indexName : Bytes := ascii "index"

/-- What the store is given: the names, the format of the reals, the order of the
index, and which of the writes and deletions throw. -/
structure StoreContext (Double : Type) where
  names : FileNames
  doubles : Doubles Double
  walk : Walk Double
  fails : Nat → Bool

namespace StoreFiles

def hasKey (f : StoreFiles Double) (key : Bytes) : Bool := decide (key ∈ f.index.map (·.1))

section Operations

variable (context : StoreContext Double)

/-- A write or a deletion. -/
def change (what : String) (update : (Bytes → Option Bytes) → Bytes → Option Bytes) :
    StoreM Double Unit := do
  let f ← Program.get
  Program.modify fun f => { f with changes := f.changes + 1 }
  if context.fails f.changes then Program.lift (.error (.thrown what))
  else Program.modify fun f => { f with files := update f.files }

/-- `save_to_file`. -/
def saveToFile (name content : Bytes) : StoreM Double Unit :=
  change context "unable to save" fun files => Function.update files name (some content)

/-- `delete_file`. -/
def deleteFile (name : Bytes) : StoreM Double Bool := do
  let f ← Program.get
  if (f.files name).isNone then pure false
  else do
    change context "boost::filesystem::remove" fun files => Function.update files name none
    pure true

/-- `(*_index)[key]`, which enters the empty value for a key that is not there. -/
def entryOf (key : Bytes) : StoreM Double (Value Double) := do
  let f ← Program.get
  match f.index.lookup key with
  | some entry => pure entry
  | none => do
    Program.modify fun f => { f with index := assign f.index key .empty }
    pure .empty

def getValue (key : Bytes) : StoreM Double (Value Double) := do
  let entry ← entryOf key
  let id ← Program.lift entry.asString
  let f ← Program.get
  match f.files id with
  | none => pure .empty
  | some content => Program.lift (Value.decode context.doubles content)

def get (key : Bytes) : StoreM Double (Value Double) := do
  let f ← Program.get
  Program.lift (contract .invariant (!f.path.isEmpty) "!(_path.empty())")
  getValue context key

def saveIndex : StoreM Double Unit := do
  let f ← Program.get
  Program.lift (contract .invariant (!f.path.isEmpty) "!(_path.empty())")
  saveToFile context indexName ((Value.dict (context.walk.order f.index)).encode context.doubles)

/-- The id for a key: its own, or a new one that is entered under it. -/
def idFor (key : Bytes) : StoreM Double Bytes := do
  let f ← Program.get
  match f.index.lookup key with
  | some entry => Program.lift entry.asString
  | none => do
    let id := context.names.uuid f.made
    Program.modify fun f => { f with
      index := assign f.index key (.bytes id)
      made := f.made + 1 }
    pure id

def setIntern (key : Bytes) (v : Value Double) : StoreM Double Unit := do
  let id ← idFor context key
  Program.lift (check (!id.isEmpty) "!(id.empty())")
  saveToFile context id (v.encode context.doubles)

def set (key : Bytes) (v : Value Double) : StoreM Double Unit := do
  setIntern context key v
  saveIndex context

def removeIntern (key : Bytes) : StoreM Double Bool := do
  let f ← Program.get
  match f.index.lookup key with
  | none => pure false
  | some entry => do
    let id ← Program.lift entry.asString
    let _ ← deleteFile context id
    Program.modify fun f => { f with index := unassign f.index key }
    saveIndex context
    pure true

/-- `clear`, in the order of the set of keys. -/
def clear : StoreM Double Unit := do
  let f ← Program.get
  Program.forEach (fun key => do
      let _ ← removeIntern context key
      pure ()) ((f.index.map (·.1)).mergeSort fun k l =>
        @decide (@LE.le Bytes List.instLE k l) (List.decidableLE k l))

def importFrom (entries : List (Bytes × Value Double)) : StoreM Double Unit := do
  Program.forEach (fun e => setIntern context e.1 e.2) entries
  saveIndex context

/-- A new `disk_store` on the directory. -/
def opened (f : StoreFiles Double) : Outcome (StoreFiles Double) := do
  require (!f.path.isEmpty) "!(path.empty())"
  let index ← (match f.files indexName with
    | none => pure []
    | some content => do
      let (entries, _) ← readDict context.doubles { rest := content }
      pure entries : Outcome (List (Bytes × Value Double)))
  pure { f with index := index }

end Operations

end StoreFiles

inductive StoreCall (Double : Type) where
  | set (key : Bytes) (v : Value Double)
  | remove (key : Bytes)
  | clear
  | importFrom (entries : List (Bytes × Value Double))

namespace StoreCall

def run (context : StoreContext Double) : StoreCall Double → StoreM Double Unit
  | .set key v => StoreFiles.set context key v
  | .remove key => do
    let _ ← StoreFiles.removeIntern context key
    pure ()
  | .clear => StoreFiles.clear context
  | .importFrom entries => StoreFiles.importFrom context entries

/-- The call as an operation on a map. -/
def op : StoreCall Double → StoreOp Double
  | .set key v => .set key v
  | .remove key => .remove key
  | .clear => .clear
  | .importFrom entries => .importFrom entries

end StoreCall

end Firestr.Util
