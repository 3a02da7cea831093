import Mathlib.Data.Finmap
import Firestr.Library.Outcomes
import Firestr.Util.DiskStore

/-! The disk store beside a finite map under the same operations. A read of a
key that is not there enters it in the index, which the map does not do. -/

set_option autoImplicit false

namespace Firestr.Util

open Firestr.Library.Assoc Firestr.Library.Outcomes

variable {Double : Type}

inductive StoreOp (Double : Type) where
  | set (key : Bytes) (v : Value Double)
  | remove (key : Bytes)
  | clear
  | importFrom (entries : List (Bytes × Value Double))
  | get (key : Bytes)
  | has (key : Bytes)
  | size
  | exportTo (entries : List (Bytes × Value Double))

/-- What a caller of the store gets. A `get` may end with an exception, after
which the store goes on. -/
inductive StoreAnswer (Double : Type) where
  | done
  | removed (some? : Bool)
  | got (v : Outcome (Value Double))
  | has (some? : Bool)
  | size (n : Nat)
  | exported (entries : List (Bytes × Value Double))

/-- One operation on the store. A fault ends the process or leaves an operation
that never throws on a map. -/
def DiskStore.step (uuids : Uuids) (d : DiskStore Double) :
    StoreOp Double → Outcome (StoreAnswer Double × DiskStore Double)
  | .set key v => do
    let d ← d.set uuids key v
    pure (.done, d)
  | .remove key => do
    let (some?, d) ← d.remove key
    pure (.removed some?, d)
  | .clear => do
    let d ← d.clear
    pure (.done, d)
  | .importFrom entries => do
    let d ← d.importFrom uuids entries
    pure (.done, d)
  | .get key => pure (.got (d.get key).1, (d.get key).2)
  | .has key => pure (.has (d.has key), d)
  | .size => pure (.size d.size, d)
  | .exportTo entries => do
    let entries ← d.exportTo entries
    pure (.exported entries, d)

/-- A finite map from keys to values. -/
abbrev Contents (Double : Type) := Finmap fun _ : Bytes => Value Double

/-- What a caller of the map gets. A dictionary is what it has under each key. -/
inductive MapAnswer (Double : Type) where
  | done
  | removed (some? : Bool)
  | got (v : Option (Value Double))
  | has (some? : Bool)
  | size (n : Nat)
  | exported (entries : Bytes → Option (Value Double))

def Contents.step (m : Contents Double) : StoreOp Double → MapAnswer Double × Contents Double
  | .set key v => (.done, m.insert key v)
  | .remove key => (.removed (decide (key ∈ m)), m.erase key)
  | .clear => (.done, ∅)
  | .importFrom entries => (.done, entries.foldl (fun m e => m.insert e.1 e.2) m)
  | .get key => (.got (m.lookup key), m)
  | .has key => (.has (decide (key ∈ m)), m)
  | .size => (.size m.keys.card, m)
  | .exportTo entries => (.exported fun key => (m.lookup key).or (entries.lookup key), m)

/-- The answer of the store as an answer of a map. -/
def StoreAnswer.read : StoreAnswer Double → MapAnswer Double
  | .done => .done
  | .removed some? => .removed some?
  | .got (.ok v) => .got (some v)
  | .got (.error _) => .got none
  | .has some? => .has some?
  | .size n => .size n
  | .exported entries => .exported fun key => entries.lookup key

/-- The value files are exactly the ids the index maps to, and each is used by
one key. -/
structure DiskStore.Filed (d : DiskStore Double) : Prop where
  exactly : ∀ entry, (∃ key, d.index.lookup key = some entry) ↔
    ∃ id, entry = some id ∧ (d.files id).isSome
  oneKey : ∀ key other entry, d.index.lookup key = some entry →
    d.index.lookup other = some entry → key = other

/-- The store answers each operation as the map does, and its files are right
after it. -/
def DiskStore.Serves (uuids : Uuids) (d : DiskStore Double) (m : Contents Double) :
    List (StoreOp Double) → Prop
  | [] => True
  | op :: ops => ∃ answer next, d.step uuids op = .ok (answer, next) ∧
    answer.read = (m.step op).1 ∧ next.Filed ∧ next.Serves uuids (m.step op).2 ops

/-- No operation gets a key that is not in the map. -/
def Contents.Present (m : Contents Double) : List (StoreOp Double) → Prop
  | [] => True
  | op :: ops => (∀ key, op = .get key → key ∈ m) ∧ (m.step op).2.Present ops

/-- A loaded store that holds what the map does: its directory has no value
file but those of the index. -/
structure DiskStore.Loaded (uuids : Uuids) (d : DiskStore Double) (m : Contents Double) :
    Prop where
  valid : d.Valid uuids
  once : (d.index.map (·.1)).Nodup
  indexed : ∀ id, (d.files id).isSome → ∃ key, d.idOf key = some id
  stored : ∀ key, d.stored key = m.lookup key

namespace DiskStore

section Loaded

variable {uuids : Uuids} {d next : DiskStore Double} {m : Contents Double} {key : Bytes}

theorem Loaded.mem_iff (loaded : d.Loaded uuids m) : key ∈ d.index.map (·.1) ↔ key ∈ m := by
  rw [loaded.valid.mem_keys_iff, loaded.stored, Finmap.lookup_isSome]

theorem Loaded.has (loaded : d.Loaded uuids m) : d.has key = decide (key ∈ m) := by
  rw [DiskStore.has]
  exact decide_eq_decide.mpr loaded.mem_iff

theorem Loaded.size (loaded : d.Loaded uuids m) : d.size = m.keys.card := by
  have keys : (d.index.map (·.1)).toFinset = m.keys := by
    ext key
    rw [List.mem_toFinset, loaded.mem_iff, Finmap.mem_keys]
  rw [← keys, List.toFinset_card_of_nodup loaded.once, List.length_map, DiskStore.size]

theorem Loaded.filed (loaded : d.Loaded uuids m) : d.Filed := by
  have entered := loaded.valid.lookup_eq
  constructor
  · intro entry
    constructor
    · rintro ⟨key, found⟩
      obtain ⟨id, rfl, -⟩ := loaded.valid.named key entry found
      refine ⟨id, rfl, loaded.valid.written key id ?_⟩
      rw [idOf, found]
      rfl
    · rintro ⟨id, rfl, written⟩
      obtain ⟨key, found⟩ := loaded.indexed id written
      refine ⟨key, ?_⟩
      rw [entered, found]
      rfl
  · intro key other entry one two
    obtain ⟨id, rfl, -⟩ := loaded.valid.named key entry one
    refine loaded.valid.apart key other id ?_ ?_
    · rw [idOf, one]
      rfl
    · rw [idOf, two]
      rfl

theorem Loaded.setIntern (loaded : d.Loaded uuids m) (key : Bytes) (v : Value Double) :
    ∃ next, d.setIntern uuids key v = .ok next ∧ next.Loaded uuids (m.insert key v) := by
  obtain ⟨id, next, success, writes⟩ := loaded.valid.setIntern_writes key v
  refine ⟨next, success, writes.valid loaded.valid, writes.once loaded.once, ?_, ?_⟩
  · intro file written
    rw [writes.files, Function.update_apply] at written
    split at written
    · rename_i same
      refine ⟨key, ?_⟩
      rw [writes.idOf, if_pos rfl, same]
    · rename_i different
      obtain ⟨other, found⟩ := loaded.indexed file written
      refine ⟨other, ?_⟩
      rw [writes.idOf, if_neg, found]
      intro same
      exact different (writes.kept file (same ▸ found))
  · intro other
    rw [writes.stored, Function.update_apply]
    split
    · rename_i same
      rw [same, Finmap.lookup_insert]
    · rename_i different
      rw [Finmap.lookup_insert_of_ne _ different, loaded.stored]

theorem Loaded.saveIndex (loaded : d.Loaded uuids m) : d.saveIndex = .ok () :=
  loaded.valid.saveIndex

theorem Loaded.set (loaded : d.Loaded uuids m) (key : Bytes) (v : Value Double) :
    ∃ next, d.set uuids key v = .ok next ∧ next.Loaded uuids (m.insert key v) := by
  obtain ⟨next, success, kept⟩ := loaded.setIntern key v
  refine ⟨next, ?_, kept⟩
  rw [DiskStore.set, success, ok_bind, kept.saveIndex, ok_bind, pure_ok]

theorem Loaded.importFrom (loaded : d.Loaded uuids m) (entries : List (Bytes × Value Double)) :
    ∃ next, d.importFrom uuids entries = .ok next ∧
      next.Loaded uuids (entries.foldl (fun m e => m.insert e.1 e.2) m) := by
  have filled : ∃ next, entries.foldlM (fun d e => d.setIntern uuids e.1 e.2) d = .ok next ∧
      next.Loaded uuids (entries.foldl (fun m e => m.insert e.1 e.2) m) := by
    apply foldlM_ok (fun done (d : DiskStore Double) =>
      d.Loaded uuids (done.foldl (fun m e => m.insert e.1 e.2) m)) entries loaded
    intro done e _ between _ kept
    obtain ⟨next, success, last⟩ := kept.setIntern e.1 e.2
    refine ⟨next, success, ?_⟩
    rw [List.foldl_append]
    exact last
  obtain ⟨next, success, kept⟩ := filled
  refine ⟨next, ?_, kept⟩
  rw [DiskStore.importFrom, success, ok_bind, kept.saveIndex, ok_bind, pure_ok]

theorem Loaded.removeIntern (loaded : d.Loaded uuids m) (key : Bytes) :
    ∃ next, d.removeIntern key = .ok (decide (key ∈ m), next) ∧
      next.Loaded uuids (m.erase key) := by
  have erased : ∀ {next : DiskStore Double}, next.stored = Function.update d.stored key none →
      ∀ other, next.stored other = (m.erase key).lookup other := by
    intro next stored other
    rw [stored, Function.update_apply]
    split
    · rename_i same
      rw [same, Finmap.lookup_erase]
    · rename_i different
      rw [Finmap.lookup_erase_ne different, loaded.stored]
  rw [loaded.valid.removeIntern_eq]
  cases found : d.idOf key with
  | none =>
      have gone : d.stored key = none := by
        rw [DiskStore.stored, found]
        rfl
      have missing : key ∉ m := by
        rw [← Finmap.lookup_eq_none, ← loaded.stored, gone]
      refine ⟨d, by simp [missing], loaded.valid, loaded.once, loaded.indexed, erased ?_⟩
      rw [← gone, Function.update_eq_self]
  | some id =>
      have there : key ∈ m := by
        rw [← Finmap.lookup_isSome, ← loaded.stored, DiskStore.stored, found]
        exact loaded.valid.written key id found
      refine ⟨d.dropped key id, by simp [there], loaded.valid.dropped found,
        nodup_keys_unassign loaded.once, ?_, erased (loaded.valid.stored_dropped found)⟩
      intro file written
      change (Function.update d.files id none file).isSome at written
      rw [Function.update_apply] at written
      split at written
      · cases written
      · rename_i different
        obtain ⟨other, known⟩ := loaded.indexed file written
        refine ⟨other, ?_⟩
        rw [idOf_dropped, if_neg, known]
        rintro rfl
        exact different (Option.some.inj (known.symm.trans found))

theorem lookup_foldl_erase (keys : List Bytes) (other : Bytes) :
    (keys.foldl (fun m key => m.erase key) m).lookup other =
      if other ∈ keys then none else m.lookup other := by
  induction keys generalizing m with
  | nil => simp
  | cons key keys ih =>
      rw [List.foldl_cons, ih]
      by_cases here : other = key
      · rw [here, Finmap.lookup_erase]
        simp
      · rw [Finmap.lookup_erase_ne here]
        simp [here]

theorem Loaded.clear (loaded : d.Loaded uuids m) :
    ∃ next, d.clear = .ok next ∧ next.Loaded uuids ∅ := by
  have emptied : ∀ keys : List Bytes, ∃ next, keys.foldlM (fun (d : DiskStore Double) k => do
        let (_, d) ← d.removeIntern k
        pure d) d = .ok next ∧
      next.Loaded uuids (keys.foldl (fun m key => m.erase key) m) := by
    intro keys
    apply foldlM_ok (fun done (d : DiskStore Double) =>
      d.Loaded uuids (done.foldl (fun m key => m.erase key) m)) keys loaded
    intro done key _ between _ kept
    obtain ⟨next, success, last⟩ := kept.removeIntern key
    refine ⟨next, ?_, ?_⟩
    · rw [success]
      rfl
    · rw [List.foldl_append]
      exact last
  obtain ⟨next, success, kept⟩ := emptied
    ((d.index.map (·.1)).mergeSort fun k l => decide (k ≤ l))
  refine ⟨next, success, kept.valid, kept.once, kept.indexed, fun key => ?_⟩
  rw [kept.stored, lookup_foldl_erase, Finmap.lookup_empty]
  split
  · rfl
  · rename_i unlisted
    rw [List.mem_mergeSort, loaded.mem_iff] at unlisted
    exact Finmap.lookup_eq_none.mpr unlisted

theorem Loaded.getValue (loaded : d.Loaded uuids m) {v : Value Double}
    (found : m.lookup key = some v) : d.getValue key = (.ok v, d) := by
  have entered := loaded.valid.lookup_eq key
  rw [← loaded.stored, DiskStore.stored] at found
  obtain ⟨id, known, written⟩ := Option.bind_eq_some_iff.mp found
  rw [known] at entered
  simp only [DiskStore.getValue, entered, Option.map_some, Option.getD_some, asString, ok_bind,
    written, pure_ok]

theorem Loaded.get (loaded : d.Loaded uuids m) {v : Value Double}
    (found : m.lookup key = some v) : d.get key = (.ok v, d) := by
  have some? : (!d.path.isEmpty) = true := not_isEmpty_of_ne_nil loaded.valid.loaded
  rw [DiskStore.get, some?, contract_true]
  exact loaded.getValue found

theorem Loaded.exportTo (loaded : d.Loaded uuids m) (entries : List (Bytes × Value Double)) :
    ∃ result, d.exportTo entries = .ok result ∧
      ∀ key, result.lookup key = (m.lookup key).or (entries.lookup key) := by
  have copied : ∃ result, d.exportTo entries = .ok result ∧ ∀ key, result.lookup key =
      if key ∈ d.index.map (·.1) then m.lookup key else entries.lookup key := by
    unfold DiskStore.exportTo
    apply foldlM_ok (fun (done : List (Bytes × Option Bytes)) (result : List (Bytes × Value Double)) =>
      ∀ key, result.lookup key =
        if key ∈ done.map (·.1) then m.lookup key else entries.lookup key)
    · intro key
      simp
    · intro done e rest result whole copied
      have member : e.1 ∈ d.index.map (·.1) := by
        rw [whole]
        simp
      obtain ⟨v, found⟩ := Finmap.mem_iff.mp (loaded.mem_iff.mp member)
      refine ⟨assign result e.1 v, ?_, fun key => ?_⟩
      · rw [loaded.getValue found, ok_bind, pure_ok]
      · have listed : key ∈ (done ++ [e]).map (·.1) ↔ key ∈ done.map (·.1) ∨ key = e.1 := by
          rw [List.map_append, List.mem_append, List.map_singleton, List.mem_singleton]
        rw [lookup_assign, copied]
        by_cases here : key = e.1
        · rw [if_pos here, if_pos (listed.mpr (.inr here)), here, found]
        · simp only [listed, here, or_false, if_false]
  obtain ⟨result, success, copied⟩ := copied
  refine ⟨result, success, fun key => ?_⟩
  rw [copied]
  split
  · rename_i member
    obtain ⟨v, found⟩ := Finmap.mem_iff.mp (loaded.mem_iff.mp member)
    rw [found, Option.some_or]
  · rename_i fresh
    rw [loaded.mem_iff] at fresh
    rw [Finmap.lookup_eq_none.mpr fresh, Option.none_or]

/-- An operation that gets no missing key answers as the map does, and the store
holds what the map does after it. -/
theorem Loaded.step (loaded : d.Loaded uuids m) (op : StoreOp Double)
    (present : ∀ key, op = .get key → key ∈ m) :
    ∃ answer next, d.step uuids op = .ok (answer, next) ∧ answer.read = (m.step op).1 ∧
      next.Loaded uuids (m.step op).2 := by
  cases op with
  | set key v =>
      obtain ⟨next, success, kept⟩ := loaded.set key v
      exact ⟨.done, next, by rw [DiskStore.step, success]; rfl, rfl, kept⟩
  | remove key =>
      obtain ⟨next, success, kept⟩ := loaded.removeIntern key
      exact ⟨.removed _, next, by rw [DiskStore.step, DiskStore.remove, success]; rfl, rfl, kept⟩
  | clear =>
      obtain ⟨next, success, kept⟩ := loaded.clear
      exact ⟨.done, next, by rw [DiskStore.step, success]; rfl, rfl, kept⟩
  | importFrom entries =>
      obtain ⟨next, success, kept⟩ := loaded.importFrom entries
      exact ⟨.done, next, by rw [DiskStore.step, success]; rfl, rfl, kept⟩
  | get key =>
      obtain ⟨v, found⟩ := Finmap.mem_iff.mp (present key rfl)
      refine ⟨.got (.ok v), d, ?_, ?_, loaded⟩
      · rw [DiskStore.step, loaded.get found]
        rfl
      · rw [Contents.step, found]
        rfl
  | has key =>
      refine ⟨.has (d.has key), d, rfl, ?_, loaded⟩
      rw [loaded.has]
      rfl
  | size =>
      refine ⟨.size d.size, d, rfl, ?_, loaded⟩
      rw [loaded.size]
      rfl
  | exportTo entries =>
      obtain ⟨result, success, copied⟩ := loaded.exportTo entries
      refine ⟨.exported result, d, by rw [DiskStore.step, success]; rfl, ?_, loaded⟩
      exact congrArg MapAnswer.exported (funext copied)

/-- A missing key that is read is in the index from then on, without an id. -/
theorem Loaded.get_missing (loaded : d.Loaded uuids m) (missing : key ∉ m) :
    (d.get key).2.index.lookup key = some none := by
  have absent : d.index.lookup key = none := by
    rw [← Option.not_isSome_iff_eq_none, ← mem_keys_iff, loaded.mem_iff]
    exact missing
  have some? : (!d.path.isEmpty) = true := not_isEmpty_of_ne_nil loaded.valid.loaded
  rw [DiskStore.get, some?, contract_true]
  simp only [DiskStore.getValue, absent]
  exact lookup_assign_self

theorem Loaded.get_missing_unfiled (loaded : d.Loaded uuids m) (missing : key ∉ m) :
    ¬(d.get key).2.Filed := by
  intro filed
  obtain ⟨id, same, -⟩ := (filed.exactly none).mp ⟨key, loaded.get_missing missing⟩
  cases same

/-- A loaded store is a map as long as no key is got that is not there. -/
theorem serves_iff_present (loaded : d.Loaded uuids m) (ops : List (StoreOp Double)) :
    d.Serves uuids m ops ↔ m.Present ops := by
  induction ops generalizing d m with
  | nil => exact Iff.rfl
  | cons op ops ih =>
      constructor
      · rintro ⟨answer, next, success, -, filed, serves⟩
        have present : ∀ key, op = .get key → key ∈ m := by
          intro key same
          by_contra missing
          subst same
          cases success
          exact loaded.get_missing_unfiled missing filed
        obtain ⟨_, _, again, -, kept⟩ := loaded.step op present
        cases again.symm.trans success
        exact ⟨present, (ih kept).mp serves⟩
      · rintro ⟨present, later⟩
        obtain ⟨answer, next, success, same, kept⟩ := loaded.step op present
        exact ⟨answer, next, success, same, kept.filed, (ih kept).mpr later⟩

end Loaded

end DiskStore

theorem emptyStore_loaded : emptyStore.Loaded zeros ∅ where
  valid := emptyStore_valid
  once := List.nodup_nil
  indexed _ written := by cases written
  stored _ := rfl

/-- What is set is got, and a key that was removed is gone. -/
theorem serves_set_get_remove : emptyStore.Serves zeros ∅
    [.set (ascii "k") .empty, .get (ascii "k"), .remove (ascii "k"), .has (ascii "k")] := by
  refine (DiskStore.serves_iff_present emptyStore_loaded _).mpr
    ⟨fun key same => ?_, fun key same => ?_, fun key same => ?_, fun key same => ?_, trivial⟩
  · cases same
  · cases same
    exact Finmap.mem_of_lookup_eq_some (Finmap.lookup_insert _)
  · cases same
  · cases same

/-- After a `get` that throws, the store of no data has the key that it did not
find. -/
theorem get_missing_then_has : emptyStore.Loaded zeros ∅ ∧
    ¬emptyStore.Serves zeros ∅ [.get (ascii "k"), .has (ascii "k")] ∧
    ∃ fault next, emptyStore.step zeros (.get (ascii "k")) = .ok (.got (.error fault), next) ∧
      next.step zeros (.has (ascii "k")) = .ok (.has true, next) ∧
      ((Contents.step ∅ (.get (ascii "k"))).2.step (.has (ascii "k"))).1 =
        (.has false : MapAnswer Unit) := by
  refine ⟨emptyStore_loaded, ?_, _, _, rfl, rfl, rfl⟩
  rintro ⟨answer, next, success, -, filed, -⟩
  cases success
  exact emptyStore_loaded.get_missing_unfiled (Finmap.notMem_empty) filed

end Firestr.Util
