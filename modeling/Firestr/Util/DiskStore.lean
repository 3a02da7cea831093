import Mathlib.Logic.Function.Basic
import Firestr.Util.Mencode

/-! The disk store: an index from keys to file names, and one file with a value
for each of them. -/

set_option autoImplicit false

namespace Firestr.Util

open Firestr.Library.Assoc

/-- What the store uses of `util::uuid`: the names it makes, one after another,
are not empty, and none comes twice. -/
structure Uuids where
  uuid : Nat → Bytes
  nonempty : ∀ n, uuid n ≠ []
  injective : ∀ m n, uuid m = uuid n → m = n

variable {Double : Type}

/-- `disk_store`, with the value files in its directory by their name, and how
many names have been made. A key of the index has an id, or the empty value. -/
structure DiskStore (Double : Type) where
  path : Bytes
  index : List (Bytes × Option Bytes) := []
  files : Bytes → Option (Value Double) := fun _ => none
  made : Nat := 0

namespace DiskStore

/-- The entry of a key as a string. -/
def asString (entry : Option Bytes) : Outcome Bytes :=
  match entry with
  | some id => .ok id
  | none => .error (.thrown "value is not a string")

def has (d : DiskStore Double) (key : Bytes) : Bool := decide (key ∈ d.index.map (·.1))

def size (d : DiskStore Double) : Nat := d.index.length

/-- `get_value`, and the store after it: `operator[]` enters the empty value for
a key that is not there. A file that is not there leaves the value empty. -/
def getValue (d : DiskStore Double) (key : Bytes) : Outcome (Value Double) × DiskStore Double :=
  let d :=
    match d.index.lookup key with
    | some _ => d
    | none => { d with index := assign d.index key none }
  (do
    let id ← asString ((d.index.lookup key).getD none)
    pure ((d.files id).getD .empty), d)

def get (d : DiskStore Double) (key : Bytes) : Outcome (Value Double) × DiskStore Double :=
  match (contract .invariant (!d.path.isEmpty) "!(_path.empty())" : Outcome Unit) with
  | .error fault => (.error fault, d)
  | .ok () => d.getValue key

def saveIndex (d : DiskStore Double) : Outcome Unit :=
  contract .invariant (!d.path.isEmpty) "!(_path.empty())"

def setIntern (uuids : Uuids) (d : DiskStore Double) (key : Bytes) (v : Value Double) :
    Outcome (DiskStore Double) := do
  let (id, d) ← (match d.index.lookup key with
    | some entry => do
      let id ← asString entry
      pure (id, d)
    | none =>
      let id := uuids.uuid d.made
      pure (id, { d with
        index := assign d.index key (some id)
        made := d.made + 1 }) : Outcome (Bytes × DiskStore Double))
  check (!id.isEmpty) "!(id.empty())"
  pure { d with files := Function.update d.files id (some v) }

def set (uuids : Uuids) (d : DiskStore Double) (key : Bytes) (v : Value Double) :
    Outcome (DiskStore Double) := do
  let d ← d.setIntern uuids key v
  d.saveIndex
  pure d

def removeIntern (d : DiskStore Double) (key : Bytes) : Outcome (Bool × DiskStore Double) :=
  match d.index.lookup key with
  | none => .ok (false, d)
  | some entry => do
    let id ← asString entry
    let d := { d with
      files := Function.update d.files id none
      index := unassign d.index key }
    d.saveIndex
    pure (true, d)

def remove (d : DiskStore Double) (key : Bytes) : Outcome (Bool × DiskStore Double) :=
  d.removeIntern key

/-- `clear`, in the order of the set of keys. -/
def clear (d : DiskStore Double) : Outcome (DiskStore Double) :=
  ((d.index.map (·.1)).mergeSort fun k l => decide (k ≤ l)).foldlM
    (fun d k => do
      let (_, d) ← d.removeIntern k
      pure d) d

def importFrom (uuids : Uuids) (d : DiskStore Double) (entries : List (Bytes × Value Double)) :
    Outcome (DiskStore Double) := do
  let d ← entries.foldlM (fun d p => d.setIntern uuids p.1 p.2) d
  d.saveIndex
  pure d

/-- `export_to` a dictionary. Every key it gets is one of the index. -/
def exportTo (d : DiskStore Double) (entries : List (Bytes × Value Double)) :
    Outcome (List (Bytes × Value Double)) :=
  d.index.foldlM
    (fun entries p => do
      let v ← (d.getValue p.1).1
      pure (assign entries p.1 v)) entries

/-- The id of the value file of a key. -/
def idOf (d : DiskStore Double) (key : Bytes) : Option Bytes := (d.index.lookup key).join

def stored (d : DiskStore Double) (key : Bytes) : Option (Value Double) :=
  (d.idOf key).bind d.files

end DiskStore

/-- Every key has a file of its own, with a value, under a name that has been
made before. -/
structure DiskStore.Valid (uuids : Uuids) (d : DiskStore Double) : Prop where
  loaded : d.path ≠ []
  named : ∀ key entry, d.index.lookup key = some entry → ∃ id, entry = some id ∧ id ≠ []
  apart : ∀ key other id, d.idOf key = some id → d.idOf other = some id → key = other
  written : ∀ key id, d.idOf key = some id → (d.files id).isSome
  fresh : ∀ key n, d.made ≤ n → d.idOf key ≠ some (uuids.uuid n)

namespace DiskStore

section Operations

variable {uuids : Uuids} {d next : DiskStore Double} {key : Bytes} {v : Value Double}

theorem mem_keys_iff : key ∈ d.index.map (·.1) ↔ (d.index.lookup key).isSome := by
  constructor
  · intro member
    cases found : d.index.lookup key with
    | some _ => rfl
    | none =>
        obtain ⟨e, inside, rfl⟩ := List.mem_map.mp member
        exact absurd rfl (bne_iff_ne.mp (List.lookup_eq_none_iff.mp found e inside))
  · intro there
    obtain ⟨entry, found⟩ := Option.isSome_iff_exists.mp there
    exact List.mem_map.mpr ⟨_, mem_of_lookup found, rfl⟩

/-- No key has the empty value. -/
theorem Valid.lookup_eq (valid : d.Valid uuids) (key : Bytes) :
    d.index.lookup key = (d.idOf key).map some := by
  rw [idOf]
  cases found : d.index.lookup key with
  | none => rfl
  | some entry =>
      obtain ⟨id, rfl, -⟩ := valid.named key entry found
      rfl

theorem Valid.idOf_ne_nil (valid : d.Valid uuids) {id : Bytes} (found : d.idOf key = some id) :
    id ≠ [] := by
  have entered := valid.lookup_eq key
  rw [found] at entered
  obtain ⟨_, same, nonempty⟩ := valid.named key _ entered
  cases same
  exact nonempty

theorem Valid.mem_keys_iff (valid : d.Valid uuids) :
    key ∈ d.index.map (·.1) ↔ (d.stored key).isSome := by
  rw [DiskStore.mem_keys_iff, valid.lookup_eq, stored]
  cases found : d.idOf key with
  | none => rfl
  | some id => exact iff_of_true rfl (valid.written key id found)

/-- A file is written under a name that no other key has. -/
structure Writes (uuids : Uuids) (d next : DiskStore Double) (key id : Bytes)
    (v : Value Double) : Prop where
  path : next.path = d.path
  index : ∀ other, next.index.lookup other =
    if other = key then some (some id) else d.index.lookup other
  files : next.files = Function.update d.files id (some v)
  elsewhere : ∀ other, other ≠ key → d.idOf other ≠ some id
  kept : ∀ file, d.idOf key = some file → file = id
  once : (d.index.map (·.1)).Nodup → (next.index.map (·.1)).Nodup
  nonempty : id ≠ []
  made : d.made ≤ next.made
  fresh : ∀ n, next.made ≤ n → id ≠ uuids.uuid n

theorem Writes.idOf {id : Bytes} (writes : Writes uuids d next key id v)
    (other : Bytes) : next.idOf other = if other = key then some id else d.idOf other := by
  rw [DiskStore.idOf, writes.index]
  split <;> rfl

theorem Writes.stored {id : Bytes} (writes : Writes uuids d next key id v) :
    next.stored = Function.update d.stored key (some v) := by
  funext other
  rw [DiskStore.stored, writes.idOf, writes.files, Function.update_apply]
  split
  · exact Function.update_self ..
  · rename_i different
    rw [DiskStore.stored]
    cases known : d.idOf other with
    | none => rfl
    | some file =>
        have apart : file ≠ id := fun same => writes.elsewhere other different (same ▸ known)
        exact Function.update_of_ne apart ..

theorem Writes.valid {id : Bytes} (valid : d.Valid uuids)
    (writes : Writes uuids d next key id v) : next.Valid uuids where
  loaded := by
    rw [writes.path]
    exact valid.loaded
  named other entry found := by
    rw [writes.index] at found
    split at found
    · cases found
      exact ⟨id, rfl, writes.nonempty⟩
    · exact valid.named other entry found
  apart first second file one two := by
    rw [writes.idOf] at one two
    split at one
    · rename_i same
      cases one
      split at two
      · rename_i also
        rw [same, also]
      · rename_i different
        exact absurd two (writes.elsewhere second different)
    · rename_i different
      split at two
      · cases two
        exact absurd one (writes.elsewhere first different)
      · exact valid.apart first second file one two
  written other file found := by
    rw [writes.files, Function.update_apply]
    split
    · rfl
    · rename_i apart
      rw [writes.idOf] at found
      split at found
      · cases found
        exact absurd rfl apart
      · exact valid.written other file found
  fresh other n later found := by
    rw [writes.idOf] at found
    split at found
    · cases found
      exact writes.fresh n later rfl
    · exact valid.fresh other n (writes.made.trans later) found

theorem Valid.setIntern_writes (valid : d.Valid uuids) (key : Bytes) (v : Value Double) :
    ∃ id next, d.setIntern uuids key v = .ok next ∧ Writes uuids d next key id v := by
  have entered := valid.lookup_eq key
  cases found : d.idOf key with
  | some id =>
      rw [found] at entered
      have some? : (!id.isEmpty) = true := not_isEmpty_of_ne_nil (valid.idOf_ne_nil found)
      refine ⟨id, { d with files := Function.update d.files id (some v) }, ?_, rfl,
        fun other => ?_, rfl, fun other different known => ?_, fun file known => ?_,
        fun once => once, valid.idOf_ne_nil found, le_rfl, fun n later same => ?_⟩
      · simp only [DiskStore.setIntern, entered, Option.map_some, asString, some?, check_true,
          ok_bind, pure_ok]
      · split
        · rename_i same
          rw [same]
          exact entered
        · rfl
      · exact different (valid.apart other key id known found)
      · exact Option.some.inj (known.symm.trans found)
      · exact valid.fresh key n later (same ▸ found)
  | none =>
      rw [found] at entered
      have some? : (!(uuids.uuid d.made).isEmpty) = true :=
        not_isEmpty_of_ne_nil (uuids.nonempty d.made)
      refine ⟨uuids.uuid d.made,
        { d with
          index := assign d.index key (some (uuids.uuid d.made))
          made := d.made + 1
          files := Function.update d.files (uuids.uuid d.made) (some v) }, ?_, rfl,
        fun other => lookup_assign other, rfl, fun other _ => valid.fresh other d.made le_rfl,
        fun file known => absurd (found.symm.trans known) (Option.some_ne_none _).symm,
        nodup_keys_assign, uuids.nonempty _, Nat.le_succ _, fun n later same => ?_⟩
      · simp only [DiskStore.setIntern, entered, Option.map_none, some?, check_true, ok_bind,
          pure_ok]
      · have equal := uuids.injective _ _ same
        exact absurd later (by rw [← equal]; exact Nat.not_succ_le_self _)

theorem Valid.setIntern (valid : d.Valid uuids) (key : Bytes) (v : Value Double) :
    ∃ next, d.setIntern uuids key v = .ok next ∧ next.Valid uuids ∧
      next.stored = Function.update d.stored key (some v) := by
  obtain ⟨id, next, success, writes⟩ := valid.setIntern_writes key v
  exact ⟨next, success, writes.valid valid, writes.stored⟩

theorem Valid.saveIndex (valid : d.Valid uuids) : d.saveIndex = .ok () := by
  have some? : (!d.path.isEmpty) = true := not_isEmpty_of_ne_nil valid.loaded
  rw [DiskStore.saveIndex, some?, contract_true]

theorem Valid.set (valid : d.Valid uuids) (key : Bytes) (v : Value Double) :
    ∃ next, d.set uuids key v = .ok next ∧ next.Valid uuids ∧
      next.stored = Function.update d.stored key (some v) := by
  obtain ⟨next, success, kept, stored⟩ := valid.setIntern key v
  refine ⟨next, ?_, kept, stored⟩
  rw [DiskStore.set, success, ok_bind, kept.saveIndex, ok_bind, pure_ok]

/-- The store without a key and its file. -/
def dropped (d : DiskStore Double) (key id : Bytes) : DiskStore Double :=
  { d with
    files := Function.update d.files id none
    index := unassign d.index key }

theorem idOf_dropped {id : Bytes} (other : Bytes) :
    (d.dropped key id).idOf other = if other = key then none else d.idOf other := by
  change ((unassign d.index key).lookup other).join = _
  rw [lookup_unassign]
  split <;> rfl

theorem Valid.dropped (valid : d.Valid uuids) {id : Bytes} (found : d.idOf key = some id) :
    (d.dropped key id).Valid uuids := by
  have before : ∀ {other file : Bytes}, (d.dropped key id).idOf other = some file →
      other ≠ key ∧ d.idOf other = some file := by
    intro other file known
    rw [idOf_dropped] at known
    split at known
    · cases known
    · rename_i different
      exact ⟨different, known⟩
  constructor
  · exact valid.loaded
  · intro other entry known
    change (unassign d.index key).lookup other = some entry at known
    rw [lookup_unassign] at known
    split at known
    · cases known
    · exact valid.named other entry known
  · intro first second file one two
    exact valid.apart first second file (before one).2 (before two).2
  · intro other file known
    obtain ⟨different, known⟩ := before known
    have apart : file ≠ id := fun same => different (valid.apart other key id (same ▸ known) found)
    change (Function.update d.files id none file).isSome
    rw [Function.update_of_ne apart]
    exact valid.written other file known
  · intro other n later known
    exact valid.fresh other n later (before known).2

theorem Valid.stored_dropped (valid : d.Valid uuids) {id : Bytes}
    (found : d.idOf key = some id) :
    (d.dropped key id).stored = Function.update d.stored key none := by
  funext other
  rw [Function.update_apply, stored, idOf_dropped]
  split
  · rfl
  · rename_i different
    rw [stored]
    cases known : d.idOf other with
    | none => rfl
    | some file =>
        have apart : file ≠ id := fun same =>
          different (valid.apart other key id (same ▸ known) found)
        exact Function.update_of_ne apart ..

/-- `remove_intern` in a valid store, whether the key is there or not. -/
theorem Valid.removeIntern_eq (valid : d.Valid uuids) (key : Bytes) :
    d.removeIntern key = .ok (match d.idOf key with
      | none => (false, d)
      | some id => (true, d.dropped key id)) := by
  have entered := valid.lookup_eq key
  cases found : d.idOf key with
  | none =>
      rw [found] at entered
      simp only [DiskStore.removeIntern, entered, Option.map_none]
  | some id =>
      rw [found] at entered
      simp only [DiskStore.removeIntern, entered, Option.map_some, asString, ok_bind]
      change (do (d.dropped key id).saveIndex; pure (true, d.dropped key id)) = _
      rw [(valid.dropped found).saveIndex, ok_bind, pure_ok]

theorem Valid.removeIntern (valid : d.Valid uuids) (key : Bytes) :
    ∃ some? next, d.removeIntern key = .ok (some?, next) ∧ next.Valid uuids ∧
      next.stored = Function.update d.stored key none := by
  rw [valid.removeIntern_eq]
  cases found : d.idOf key with
  | none =>
      refine ⟨false, d, rfl, valid, ?_⟩
      have gone : d.stored key = none := by rw [stored, found]; rfl
      rw [← gone, Function.update_eq_self]
  | some id => exact ⟨true, _, rfl, valid.dropped found, valid.stored_dropped found⟩

theorem Valid.importFrom (valid : d.Valid uuids) (entries : List (Bytes × Value Double)) :
    ∃ next, d.importFrom uuids entries = .ok next ∧ next.Valid uuids ∧
      next.stored = overwrite d.stored entries := by
  have folded : ∀ {d : DiskStore Double}, d.Valid uuids →
      ∃ next, entries.foldlM (fun d p => d.setIntern uuids p.1 p.2) d = .ok next ∧
        next.Valid uuids ∧ next.stored = overwrite d.stored entries := by
    induction entries with
    | nil => exact fun {d} valid => ⟨d, rfl, valid, rfl⟩
    | cons e entries ih =>
        intro d valid
        obtain ⟨between, success, kept, stored⟩ := valid.setIntern e.1 e.2
        obtain ⟨next, rest, last, writes⟩ := ih kept
        refine ⟨next, ?_, last, ?_⟩
        · rw [List.foldlM_cons, success, ok_bind, rest]
        · rw [writes, stored, overwrite]
  obtain ⟨next, success, kept, stored⟩ := folded valid
  refine ⟨next, ?_, kept, stored⟩
  rw [DiskStore.importFrom, success, ok_bind, kept.saveIndex, ok_bind, pure_ok]

theorem Valid.clear (valid : d.Valid uuids) :
    ∃ next, d.clear = .ok next ∧ next.Valid uuids ∧ ∀ key, next.stored key = none := by
  have folded : ∀ (keys : List Bytes) {d : DiskStore Double}, d.Valid uuids →
      ∃ next, keys.foldlM (fun d k => do
          let (_, d) ← d.removeIntern k
          pure d) d = .ok next ∧ next.Valid uuids ∧
        ∀ key, next.stored key = if key ∈ keys then none else d.stored key := by
    intro keys
    induction keys with
    | nil => exact fun {d} valid => ⟨d, rfl, valid, fun key => by simp⟩
    | cons k keys ih =>
        intro d valid
        obtain ⟨some?, between, success, kept, stored⟩ := valid.removeIntern k
        obtain ⟨next, rest, last, gone⟩ := ih kept
        refine ⟨next, ?_, last, fun key => ?_⟩
        · rw [List.foldlM_cons, success]
          exact rest
        · rw [gone, stored, Function.update_apply]
          by_cases here : key = k <;> simp [here]
  obtain ⟨next, success, kept, gone⟩ := folded
    ((d.index.map (·.1)).mergeSort fun k l => decide (k ≤ l)) valid
  refine ⟨next, success, kept, fun key => ?_⟩
  rw [gone]
  split
  · rfl
  · rename_i unlisted
    rw [List.mem_mergeSort] at unlisted
    rw [valid.mem_keys_iff, Option.not_isSome_iff_eq_none] at unlisted
    exact unlisted

end Operations

end DiskStore

/-- Names of zeros, each longer than the one before. -/
def zeros : Uuids where
  uuid n := List.replicate (n + 1) 48
  nonempty _ := List.cons_ne_nil _ _
  injective m n same := by simpa using congrArg List.length same

def emptyStore : DiskStore Unit where
  path := ascii "/data"

theorem emptyStore_valid : emptyStore.Valid zeros where
  loaded := by decide
  named _ _ found := by cases found
  apart _ _ _ found := by cases found
  written _ _ found := by cases found
  fresh _ _ _ found := by cases found

end Firestr.Util
