import Firestr.Util.StoreFiles

/-! What a store writes, a new store on its directory reads. The files hold a map
from keys to values, which each call changes, and the index file lets a new store
find all of it but the empty key. -/

set_option autoImplicit false

namespace Firestr.Util

open Firestr.Library.Assoc Firestr.Library.Effects

variable {Double : Type} {context : StoreContext Double}

namespace StoreFiles

/-- The names in the index are those of value files, each under one key, and none
of them will be made again. An entry may be something else than a name. -/
structure Sound (context : StoreContext Double) (f : StoreFiles Double) : Prop where
  loaded : f.path ≠ []
  once : (f.index.map (·.1)).Nodup
  named : ∀ key id, f.index.lookup key = some (.bytes id) → id ≠ [] ∧ id ≠ indexName
  apart : ∀ key other id, f.index.lookup key = some (.bytes id) →
    f.index.lookup other = some (.bytes id) → key = other
  fresh : ∀ key n, f.made ≤ n → f.index.lookup key ≠ some (.bytes (context.names.uuid n))

/-- In `g` the key has the file name `id`: it had it before, or it is a new name. -/
structure Enters (context : StoreContext Double) (f g : StoreFiles Double) (key id : Bytes) :
    Prop where
  path : g.path = f.path
  files : g.files = f.files
  changes : g.changes = f.changes
  index : ∀ other, g.index.lookup other = if other = key then some (.bytes id) else f.index.lookup other
  once : (g.index.map (·.1)).Nodup
  name : id ≠ [] ∧ id ≠ indexName
  known : f.index.lookup key = some (.bytes id) ∧ g = f ∨
    f.index.lookup key = none ∧ id = context.names.uuid f.made
  elsewhere : ∀ other, other ≠ key → f.index.lookup other ≠ some (.bytes id)
  made : f.made ≤ g.made ∧ g.made ≤ f.made + 1
  fresh : ∀ n, g.made ≤ n → id ≠ context.names.uuid n

section Changes

variable {f g : StoreFiles Double} {m : Contents Double} {key : Bytes} {v : Value Double}

theorem change_ok (works : context.fails f.changes = false) (what : String)
    (update : (Bytes → Option Bytes) → Bytes → Option Bytes) :
    change context what update f =
      (.ok (), { f with files := update f.files, changes := f.changes + 1 }) := by
  simp only [change, Program.get_bind, Program.modify_bind, works, Bool.false_eq_true, if_false,
    Program.modify_apply]

theorem change_error (breaks : context.fails f.changes = true) (what : String)
    (update : (Bytes → Option Bytes) → Bytes → Option Bytes) :
    change context what update f =
      (.error (.thrown what), { f with changes := f.changes + 1 }) := by
  simp only [change, Program.get_bind, Program.modify_bind, breaks, if_true, Program.lift_apply]

theorem Sound.setIntern (sound : f.Sound context) (key : Bytes) (v : Value Double) :
    (setIntern context key v f = (.error (.thrown "value is not a string"), f) ∧
        ∃ entry, f.index.lookup key = some entry ∧ ∀ id, entry ≠ .bytes id) ∨
      ∃ id g, setIntern context key v f = saveToFile context id (v.encode context.doubles) g ∧
        Enters context f g key id := by
  cases found : f.index.lookup key with
  | none =>
      right
      let g : StoreFiles Double := { f with
        index := assign f.index key (.bytes (context.names.uuid f.made))
        made := f.made + 1 }
      have named : idFor context key f = (.ok (context.names.uuid f.made), g) := by
        simp only [idFor, Program.get_bind, found, Program.modify_bind, Program.pure_apply, g]
      have filled : (!(context.names.uuid f.made).isEmpty) = true := by
        simp [context.names.nonempty]
      refine ⟨context.names.uuid f.made, g, ?_, ?_⟩
      · rw [StoreFiles.setIntern, Program.bind_ok named, filled, check_true, Program.lift_bind_ok]
      · exact {
          path := rfl
          files := rfl
          changes := rfl
          index := fun other => lookup_assign other
          once := nodup_keys_assign sound.once
          name := ⟨context.names.nonempty _, context.names.notIndex _⟩
          known := .inr ⟨found, rfl⟩
          elsewhere := fun other _ => sound.fresh other f.made le_rfl
          made := ⟨Nat.le_succ _, le_rfl⟩
          fresh := fun n later same => by
            have equal := context.names.injective _ _ same
            exact absurd later (by rw [← equal]; exact Nat.not_succ_le_self _) }
  | some entry =>
      have named : idFor context key f = (entry.asString, f) := by
        simp only [idFor, Program.get_bind, found, Program.lift_apply]
      cases entry with
      | bytes id =>
          right
          obtain ⟨some?, other⟩ := sound.named key id found
          have filled : (!id.isEmpty) = true := not_isEmpty_of_ne_nil some?
          refine ⟨id, f, ?_, ?_⟩
          · rw [StoreFiles.setIntern, Program.bind_ok named, filled, check_true, Program.lift_bind_ok]
          · exact {
              path := rfl
              files := rfl
              changes := rfl
              index := fun key' => by
                split
                · rename_i same
                  rw [same, found]
                · rfl
              once := sound.once
              name := ⟨some?, other⟩
              known := .inl ⟨found, rfl⟩
              elsewhere := fun key' different there => different (sound.apart key' key id there found)
              made := ⟨le_rfl, Nat.le_succ _⟩
              fresh := fun n later same => sound.fresh key n later (same ▸ found) }
      | _ => exact .inl ⟨Program.bind_error named, _, rfl, by rintro id ⟨⟩⟩

theorem Enters.sound {id : Bytes} (enters : Enters context f g key id) (sound : f.Sound context) :
    g.Sound context where
  loaded := enters.path ▸ sound.loaded
  once := enters.once
  named other file found := by
    rw [enters.index] at found
    split at found
    · cases found
      exact enters.name
    · exact sound.named other file found
  apart first second file one two := by
    rw [enters.index] at one two
    split at one
    · rename_i here
      cases one
      split at two
      · rename_i also
        rw [here, also]
      · rename_i different
        exact absurd two (enters.elsewhere second different)
    · rename_i different
      split at two
      · cases two
        exact absurd one (enters.elsewhere first different)
      · exact sound.apart first second file one two
  fresh other n later found := by
    rw [enters.index] at found
    split at found
    · cases found
      exact enters.fresh n later rfl
    · exact sound.fresh other n (enters.made.1.trans later) found

end Changes

/-- Under each key of the map, and no other, the index has the name of a file that
holds the value. -/
structure Holds (context : StoreContext Double) (f : StoreFiles Double) (m : Contents Double) :
    Prop where
  sound : f.Sound context
  short : ∀ key ∈ f.index.map (·.1), key.length < 2 ^ 64
  absent : ∀ key, m.lookup key = none → f.index.lookup key = none
  stored : ∀ key v, m.lookup key = some v → ∃ id content, f.index.lookup key = some (.bytes id) ∧
    id.length < 2 ^ 64 ∧ f.files id = some content ∧
      Value.decode context.doubles content = .ok v.decoded ∧ v.Formed

section Calls

variable {f g : StoreFiles Double} {m : Contents Double} {key : Bytes} {v : Value Double}

theorem mem_keys_iff : key ∈ f.index.map (·.1) ↔ f.index.lookup key ≠ none := by
  constructor
  · intro member none?
    obtain ⟨e, inside, rfl⟩ := List.mem_map.mp member
    exact absurd rfl (bne_iff_ne.mp (List.lookup_eq_none_iff.mp none? e inside))
  · intro there
    obtain ⟨entry, found⟩ := Option.ne_none_iff_exists'.mp there
    exact List.mem_map.mpr ⟨_, mem_of_lookup found, rfl⟩

theorem Enters.short {id : Bytes} (enters : Enters context f g key id) (holds : f.Holds context m)
    (short : (context.names.uuid f.made).length < 2 ^ 64) : id.length < 2 ^ 64 := by
  rcases enters.known with ⟨found, -⟩ | ⟨-, rfl⟩
  · cases here : m.lookup key with
    | none => rw [holds.absent key here] at found; cases found
    | some v =>
        obtain ⟨file, content, known, short, -⟩ := holds.stored key v here
        cases known.symm.trans found
        exact short
  · exact short

/-- The value is written to the file of its key. -/
theorem Enters.holds {id : Bytes} (enters : Enters context f g key id) (holds : f.Holds context m)
    (formed : v.Formed) (small : key.length < 2 ^ 64)
    (short : (context.names.uuid f.made).length < 2 ^ 64) (changes : Nat) :
    Holds context { g with
      files := Function.update g.files id (some (v.encode context.doubles))
      changes := changes } (m.insert key v) where
  sound := by
    have sound := enters.sound holds.sound
    exact ⟨sound.loaded, sound.once, sound.named, sound.apart, sound.fresh⟩
  short other member := by
    have there : g.index.lookup other ≠ none := mem_keys_iff.mp member
    rw [enters.index] at there
    split at there
    · rename_i same
      exact same ▸ small
    · exact holds.short other (mem_keys_iff.mpr there)
  absent other gone := by
    by_cases same : other = key
    · rw [same, Finmap.lookup_insert] at gone
      cases gone
    · rw [Finmap.lookup_insert_of_ne _ same] at gone
      change g.index.lookup other = none
      rw [enters.index, if_neg same]
      exact holds.absent other gone
  stored other u found := by
    by_cases same : other = key
    · rw [same, Finmap.lookup_insert] at found
      cases found
      refine ⟨id, v.encode context.doubles, ?_, enters.short holds short, Function.update_self .., ?_, formed⟩
      · change g.index.lookup other = _
        rw [enters.index, if_pos same]
      · exact decode_encode context.doubles formed
    · rw [Finmap.lookup_insert_of_ne _ same] at found
      obtain ⟨file, content, known, short, kept, decodes, formed⟩ := holds.stored other u found
      have apart : file ≠ id := fun here => enters.elsewhere other same (here ▸ known)
      refine ⟨file, content, ?_, short, ?_, decodes, formed⟩
      · change g.index.lookup other = _
        rw [enters.index, if_neg same]
        exact known
      · change Function.update g.files id _ file = _
        rw [Function.update_of_ne apart, enters.files]
        exact kept

/-- What a new store on the directory has in its index. -/
def Saved (context : StoreContext Double) (f : StoreFiles Double) : Prop :=
  ∃ order, order.Perm f.index ∧
    f.opened context = .ok { f with index := decodedEntries [] order }

theorem Holds.entry (holds : f.Holds context m) {entry : Value Double}
    (found : f.index.lookup key = some entry) : ∃ id v content, entry = .bytes id ∧
      id.length < 2 ^ 64 ∧ m.lookup key = some v ∧ f.files id = some content ∧
        Value.decode context.doubles content = .ok v.decoded ∧ v.Formed := by
  cases here : m.lookup key with
  | none =>
      rw [holds.absent key here] at found
      cases found
  | some v =>
      obtain ⟨id, content, known, short, kept⟩ := holds.stored key v here
      cases known.symm.trans found
      exact ⟨id, v, content, rfl, short, rfl, kept⟩

theorem Holds.setIntern (works : ∀ n, context.fails n = false) (holds : f.Holds context m)
    (formed : v.Formed) (small : key.length < 2 ^ 64)
    (short : (context.names.uuid f.made).length < 2 ^ 64) :
    ∃ next, setIntern context key v f = (.ok (), next) ∧ next.Holds context (m.insert key v) ∧
      next.made ≤ f.made + 1 := by
  rcases holds.sound.setIntern key v with ⟨-, entry, found, other⟩ | ⟨id, g, same, enters⟩
  · obtain ⟨id, _, _, rfl, -⟩ := holds.entry found
    exact absurd rfl (other id)
  · rw [same]
    exact ⟨_, change_ok (works _) _ _, enters.holds holds formed small short _, enters.made.2⟩

/-- The index as it is saved. -/
theorem Holds.index_formed (holds : f.Holds context m) :
    (Value.dict (context.walk.order f.index)).Formed := by
  have perm := context.walk.perm f.index
  refine .dict ((perm.map _).nodup_iff.mpr holds.sound.once) (fun e member => ?_) fun e member => ?_
  · exact holds.short e.1 (List.mem_map_of_mem (perm.mem_iff.mp member))
  · have found := lookup_of_mem holds.sound.once (perm.mem_iff.mp member)
    obtain ⟨id, v, content, same, short, -⟩ := holds.entry found
    rw [same]
    exact .bytes short

theorem Holds.congr {m' : Contents Double} (holds : f.Holds context m)
    (same : ∀ key, m'.lookup key = m.lookup key) : f.Holds context m' where
  sound := holds.sound
  short := holds.short
  absent key none? := holds.absent key (same key ▸ none?)
  stored key v found := holds.stored key v (same key ▸ found)

/-- The index file is none of the value files. -/
theorem Holds.saveFile (holds : f.Holds context m) (content : Bytes) (changes : Nat) :
    Holds context { f with
      files := Function.update f.files indexName (some content)
      changes := changes } m where
  sound := ⟨holds.sound.loaded, holds.sound.once, holds.sound.named, holds.sound.apart,
    holds.sound.fresh⟩
  short := holds.short
  absent := holds.absent
  stored key v found := by
    obtain ⟨id, content, known, short, kept, decodes⟩ := holds.stored key v found
    refine ⟨id, content, known, short, ?_, decodes⟩
    change Function.update f.files indexName _ id = _
    rw [Function.update_of_ne (holds.sound.named key id known).2]
    exact kept

theorem saveIndex_eq (loaded : f.path ≠ []) : saveIndex context f = saveToFile context indexName
    ((Value.dict (context.walk.order f.index)).encode context.doubles) f := by
  have filled : (!f.path.isEmpty) = true := not_isEmpty_of_ne_nil loaded
  rw [StoreFiles.saveIndex, Program.get_bind, filled, contract_true, Program.lift_bind_ok]

theorem Holds.saveIndex (works : ∀ n, context.fails n = false) (holds : f.Holds context m) :
    ∃ next, saveIndex context f = (.ok (), next) ∧ next.Holds context m ∧ next.Saved context ∧
      next.made = f.made := by
  refine ⟨_, (saveIndex_eq holds.sound.loaded).trans (change_ok (works _) _ _),
    holds.saveFile _ _, ⟨context.walk.order f.index, context.walk.perm _, ?_⟩, rfl⟩
  have filled : (!f.path.isEmpty) = true := not_isEmpty_of_ne_nil holds.sound.loaded
  obtain ⟨after, read⟩ := readDict_eq context.doubles [] 0 holds.index_formed
  rw [List.append_nil] at read
  simp only [opened, filled, require_true, ok_bind, Function.update_self, read, pure_ok]

theorem Holds.set (works : ∀ n, context.fails n = false) (holds : f.Holds context m)
    (formed : v.Formed) (small : key.length < 2 ^ 64)
    (short : (context.names.uuid f.made).length < 2 ^ 64) :
    ∃ next, set context key v f = (.ok (), next) ∧ next.Holds context (m.insert key v) ∧
      next.Saved context ∧ next.made ≤ f.made + 1 := by
  obtain ⟨g, wrote, kept, made⟩ := holds.setIntern works formed small short
  obtain ⟨next, success, last, saved, same⟩ := kept.saveIndex works
  exact ⟨next, by rw [StoreFiles.set, Program.bind_ok wrote, success], last, saved, same ▸ made⟩

theorem lookup_unassign_some {other : Bytes} {entry : Value Double}
    (known : (unassign f.index key).lookup other = some entry) :
    other ≠ key ∧ f.index.lookup other = some entry := by
  rw [lookup_unassign] at known
  split at known
  · cases known
  · rename_i different
    exact ⟨different, known⟩

theorem Sound.dropped (sound : f.Sound context) (key : Bytes) (files : Bytes → Option Bytes)
    (changes : Nat) :
    Sound context { f with
      files := files
      index := unassign f.index key
      changes := changes } where
  loaded := sound.loaded
  once := nodup_keys_unassign sound.once
  named other id known := sound.named other id (lookup_unassign_some known).2
  apart other third id one two :=
    sound.apart other third id (lookup_unassign_some one).2 (lookup_unassign_some two).2
  fresh other n later known := sound.fresh other n later (lookup_unassign_some known).2

/-- The store without a key and its file. -/
theorem Holds.dropped {id : Bytes} (holds : f.Holds context m)
    (found : f.index.lookup key = some (.bytes id)) (changes : Nat) :
    Holds context { f with
      files := Function.update f.files id none
      index := unassign f.index key
      changes := changes } (m.erase key) := by
  constructor
  · exact holds.sound.dropped key _ changes
  · intro other member
    obtain ⟨entry, known⟩ := Option.ne_none_iff_exists'.mp (mem_keys_iff.mp member)
    refine holds.short other (mem_keys_iff.mpr ?_)
    rw [(lookup_unassign_some known).2]
    exact Option.some_ne_none entry
  · intro other gone
    change (unassign f.index key).lookup other = none
    rw [lookup_unassign]
    split
    · rfl
    · rename_i different
      rw [Finmap.lookup_erase_ne different] at gone
      exact holds.absent other gone
  · intro other u known
    by_cases same : other = key
    · rw [same, Finmap.lookup_erase] at known
      cases known
    · rw [Finmap.lookup_erase_ne same] at known
      obtain ⟨file, content, known, short, kept, decodes⟩ := holds.stored other u known
      have apart : file ≠ id := fun here => same (holds.sound.apart other key id (here ▸ known) found)
      refine ⟨file, content, ?_, short, ?_, decodes⟩
      · change (unassign f.index key).lookup other = _
        rw [lookup_unassign, if_neg same]
        exact known
      · change Function.update f.files id none file = _
        rw [Function.update_of_ne apart]
        exact kept

theorem Holds.erase_absent (holds : f.Holds context m) (none? : f.index.lookup key = none) :
    f.Holds context (m.erase key) := by
  have missing : m.lookup key = none := by
    by_contra there
    obtain ⟨v, found⟩ := Option.ne_none_iff_exists'.mp there
    obtain ⟨id, content, known, -⟩ := holds.stored key v found
    rw [none?] at known
    cases known
  refine holds.congr fun other => ?_
  by_cases same : other = key
  · rw [same, Finmap.lookup_erase, missing]
  · rw [Finmap.lookup_erase_ne same]

theorem Holds.removeIntern (works : ∀ n, context.fails n = false) (holds : f.Holds context m)
    (saved : f.Saved context) (key : Bytes) :
    ∃ some? next, removeIntern context key f = (.ok some?, next) ∧
      next.Holds context (m.erase key) ∧ next.Saved context ∧ next.made = f.made := by
  cases found : f.index.lookup key with
  | none =>
      refine ⟨false, f, ?_, holds.erase_absent found, saved, rfl⟩
      simp only [StoreFiles.removeIntern, Program.get_bind, found, Program.pure_apply]
  | some entry =>
      obtain ⟨id, v, content, rfl, -, -, kept, -⟩ := holds.entry found
      obtain ⟨next, success, last⟩ := (holds.dropped found (f.changes + 1)).saveIndex works
      refine ⟨true, next, ?_, last⟩
      have deleted : deleteFile context id f = (.ok true, { f with
          files := Function.update f.files id none
          changes := f.changes + 1 }) := by
        have there : (f.files id).isNone = false := by rw [kept]; rfl
        simp only [deleteFile, Program.get_bind, there, Bool.false_eq_true, if_false]
        exact Program.bind_ok (change_ok (works _) _ _)
      simp only [StoreFiles.removeIntern, Program.get_bind, found, Value.asString,
        Program.lift_bind_ok]
      rw [Program.bind_ok deleted, Program.modify_bind]
      exact Program.bind_ok success

theorem Holds.importFrom (works : ∀ n, context.fails n = false) (holds : f.Holds context m)
    {entries : List (Bytes × Value Double)}
    (formed : ∀ e ∈ entries, e.1.length < 2 ^ 64 ∧ e.2.Formed)
    (short : ∀ n < f.made + entries.length, (context.names.uuid n).length < 2 ^ 64) :
    ∃ next, importFrom context entries f = (.ok (), next) ∧
      next.Holds context (entries.foldl (fun m e => m.insert e.1 e.2) m) ∧ next.Saved context ∧
        next.made ≤ f.made + entries.length := by
  have filled : ∃ g, Program.forEach (fun e => StoreFiles.setIntern context e.1 e.2) entries f =
      (.ok (), g) ∧ g.Holds context (entries.foldl (fun m e => m.insert e.1 e.2) m) ∧
        g.made ≤ f.made + entries.length := by
    refine Program.forEach_ok (fun done (g : StoreFiles Double) =>
      g.Holds context (done.foldl (fun m e => m.insert e.1 e.2) m) ∧
        g.made ≤ f.made + done.length) entries ⟨holds, le_rfl⟩ ?_
    intro done e rest g whole kept
    have member : e ∈ entries := by
      rw [whole]
      simp
    have room : g.made < f.made + entries.length := by
      have lengths := congrArg List.length whole
      rw [List.length_append, List.length_cons] at lengths
      omega
    obtain ⟨next, wrote, last, made⟩ := Holds.setIntern works kept.1 (formed e member).2
      (formed e member).1 (short _ room)
    refine ⟨next, wrote, ?_, ?_⟩
    · rw [List.foldl_append]
      exact last
    · rw [List.length_append, List.length_singleton]
      omega
  obtain ⟨g, wrote, kept, made⟩ := filled
  obtain ⟨next, success, last, saved, same⟩ := kept.saveIndex works
  exact ⟨next, by rw [StoreFiles.importFrom, Program.bind_ok wrote, success], last, saved,
    same ▸ made⟩

theorem Holds.clear (works : ∀ n, context.fails n = false) (holds : f.Holds context m)
    (saved : f.Saved context) :
    ∃ next, clear context f = (.ok (), next) ∧ next.Holds context ∅ ∧ next.Saved context ∧
      next.made = f.made := by
  have emptied : ∀ keys : List Bytes, ∃ next, Program.forEach (fun key => do
        let _ ← StoreFiles.removeIntern context key
        pure ()) keys f = (.ok (), next) ∧
      next.Holds context (keys.foldl (fun m key => m.erase key) m) ∧ next.Saved context ∧
        next.made = f.made := by
    intro keys
    refine Program.forEach_ok (fun done (g : StoreFiles Double) =>
      g.Holds context (done.foldl (fun m key => m.erase key) m) ∧ g.Saved context ∧
        g.made = f.made) keys ⟨holds, saved, rfl⟩ ?_
    intro done key rest g _ kept
    obtain ⟨some?, next, success, last, saved, made⟩ := kept.1.removeIntern works kept.2.1 key
    refine ⟨next, Program.bind_ok success, ?_, saved, made.trans kept.2.2⟩
    rw [List.foldl_append]
    exact last
  obtain ⟨next, success, kept, saved, made⟩ := emptied
    ((f.index.map (·.1)).mergeSort fun k l =>
      @decide (@LE.le Bytes List.instLE k l) (List.decidableLE k l))
  refine ⟨next, success, kept.congr fun key => ?_, saved, made⟩
  rw [DiskStore.lookup_foldl_erase, Finmap.lookup_empty]
  split
  · rfl
  · rename_i unlisted
    rw [List.mem_mergeSort, mem_keys_iff, not_not] at unlisted
    by_contra there
    obtain ⟨v, found⟩ := Option.ne_none_iff_exists'.mp (Ne.symm there)
    obtain ⟨id, content, known, -⟩ := holds.stored key v found
    rw [unlisted] at known
    cases known

end Calls

end StoreFiles

namespace StoreCall

/-- The keys and values of the call, as their types have them. -/
def Formed : StoreCall Double → Prop
  | .set key v => key.length < 2 ^ 64 ∧ v.Formed
  | .remove _ => True
  | .clear => True
  | .importFrom entries => ∀ e ∈ entries, e.1.length < 2 ^ 64 ∧ e.2.Formed

/-- How many names the call may make. -/
def names : StoreCall Double → Nat
  | .set _ _ => 1
  | .remove _ => 0
  | .clear => 0
  | .importFrom entries => entries.length

/-- A call does on the files what the operation does on the map. -/
theorem run_holds (works : ∀ n, context.fails n = false) {f : StoreFiles Double}
    {m : Contents Double} (holds : f.Holds context m) (saved : f.Saved context)
    (call : StoreCall Double) (formed : call.Formed)
    (short : ∀ n < f.made + call.names, (context.names.uuid n).length < 2 ^ 64) :
    ∃ next, call.run context f = (.ok (), next) ∧ next.Holds context (m.step call.op).2 ∧
      next.Saved context ∧ next.made ≤ f.made + call.names := by
  cases call with
  | set key v => exact holds.set works formed.2 formed.1 (short _ (Nat.lt_succ_self _))
  | remove key =>
      obtain ⟨some?, next, success, last, saved, made⟩ := holds.removeIntern works saved key
      exact ⟨next, Program.bind_ok success, last, saved, made.le⟩
  | clear =>
      obtain ⟨next, success, last, saved, made⟩ := holds.clear works saved
      exact ⟨next, success, last, saved, made.le⟩
  | importFrom entries => exact holds.importFrom works formed short

end StoreCall

namespace StoreFiles

/-- A store as `load` leaves it. The index in its directory has names of value
files that can be read, if there is one, and the map is what they hold. -/
structure Loaded (context : StoreContext Double) (f : StoreFiles Double) (m : Contents Double) :
    Prop where
  opened : f.opened context = .ok f
  sound : f.Sound context
  small : ∀ name content, f.files name = some content → content.length < 2 ^ 64
  absent : ∀ key, m.lookup key = none → f.index.lookup key = none
  stored : ∀ key v, m.lookup key = some v → ∃ id content, f.index.lookup key = some (.bytes id) ∧
    f.files id = some content ∧ Value.decode context.doubles content = .ok v

/-- A new store on the directory has exactly the keys of the map, and the same
values under them. -/
def Keeps (context : StoreContext Double) (f : StoreFiles Double) (m : Contents Double) : Prop :=
  ∃ fresh, f.opened context = .ok fresh ∧ (∀ key, fresh.hasKey key = decide (key ∈ m)) ∧
    ∀ key v, m.lookup key = some v → ∃ w, (get context key fresh).1 = .ok w ∧ w.Same v

/-- A new store on the directory has exactly the keys of this one, and gives the
same values. -/
def Agrees (context : StoreContext Double) (f : StoreFiles Double) : Prop :=
  ∃ fresh, f.opened context = .ok fresh ∧ ∀ key, fresh.hasKey key = f.hasKey key ∧
    (f.hasKey key = true → (get context key fresh).1 = (get context key f).1)

section Persistence

variable {f fresh : StoreFiles Double} {m : Contents Double} {key : Bytes} {v : Value Double}

theorem Loaded.index_formed (loaded : f.Loaded context m) :
    (Value.dict f.index).Formed ∧ (Value.dict f.index).KeysNonempty := by
  have opened := loaded.opened
  obtain ⟨-, -, opened⟩ := bind_ok opened
  obtain ⟨index, read, same⟩ := bind_ok opened
  cases file : f.files indexName with
  | none =>
      rw [file] at read
      cases read
      rw [← Except.ok.inj same]
      exact ⟨.dict (by simp) (by simp) (by simp), .dict (by simp) (by simp)⟩
  | some content =>
      rw [file] at read
      obtain ⟨⟨entries, rest⟩, reads, ⟨⟩⟩ := bind_ok read
      rw [← Except.ok.inj same]
      exact formed_of_readDict (loaded.small _ _ file) reads

theorem Loaded.holds (loaded : f.Loaded context m) : f.Holds context m where
  sound := loaded.sound
  short key member := by
    obtain ⟨e, inside, rfl⟩ := List.mem_map.mp member
    cases loaded.index_formed.1 with
    | dict _ small _ => exact small e inside
  absent := loaded.absent
  stored key v found := by
    obtain ⟨id, content, known, kept, decodes⟩ := loaded.stored key v found
    obtain ⟨formed, nonempty⟩ := formed_of_decode (loaded.small id content kept) decodes
    refine ⟨id, content, known, ?_, kept, ?_, formed⟩
    · cases loaded.index_formed.1 with
      | dict _ _ values =>
          cases values _ (mem_of_lookup known) with
          | bytes short => exact short
    · rw [decodes, decoded_eq_self formed nonempty]

theorem Loaded.saved (loaded : f.Loaded context m) : f.Saved context := by
  obtain ⟨formed, nonempty⟩ := loaded.index_formed
  have same := decoded_eq_self formed nonempty
  rw [Value.decoded] at same
  refine ⟨f.index, List.Perm.refl _, ?_⟩
  rw [Value.dict.inj same]
  exact loaded.opened

theorem get_eq {id content : Bytes} (loaded : f.path ≠ [])
    (found : f.index.lookup key = some (.bytes id)) (kept : f.files id = some content) :
    (get context key f).1 = Value.decode context.doubles content := by
  have filled : (!f.path.isEmpty) = true := not_isEmpty_of_ne_nil loaded
  have entry : entryOf key f = (.ok (.bytes id), f) := by
    simp only [entryOf, Program.get_bind, found, Program.pure_apply]
  rw [get, Program.get_bind, filled, contract_true, Program.lift_bind_ok, getValue,
    Program.bind_ok entry, Value.asString, Program.lift_bind_ok, Program.get_bind, kept]
  rfl

theorem hasKey_iff : f.hasKey key = true ↔ f.index.lookup key ≠ none := by
  rw [hasKey, decide_eq_true_iff, mem_keys_iff]

theorem Holds.mem_iff (holds : f.Holds context m) : key ∈ m ↔ f.index.lookup key ≠ none := by
  rw [← Finmap.lookup_isSome, Option.isSome_iff_ne_none]
  constructor
  · intro there
    obtain ⟨v, found⟩ := Option.ne_none_iff_exists'.mp there
    obtain ⟨id, content, known, -⟩ := holds.stored key v found
    rw [known]
    exact Option.some_ne_none _
  · exact fun there gone => there (holds.absent key gone)

/-- Without an empty key a new store has the index that this one has. -/
theorem Holds.opened_eq (holds : f.Holds context m) (saved : f.Saved context) (nonempty : [] ∉ m) :
    ∃ index, f.opened context = .ok { f with index := index } ∧
      ∀ key, index.lookup key = f.index.lookup key := by
  obtain ⟨order, perm, opened⟩ := saved
  have distinct : (order.map (·.1)).Nodup := (perm.map _).nodup_iff.mpr holds.sound.once
  have named : ∀ e ∈ order, e.1 ≠ [] := by
    intro e member empty
    apply nonempty
    rw [holds.mem_iff, ← mem_keys_iff, ← empty]
    exact List.mem_map_of_mem (perm.mem_iff.mp member)
  have texts : order.map (fun e => (e.1, e.2.decoded)) = order := by
    refine (List.map_congr_left fun e member => ?_).trans (List.map_id order)
    obtain ⟨file, v, content, same, -⟩ := holds.entry
      (lookup_of_mem holds.sound.once (perm.mem_iff.mp member))
    have plain : e.2.decoded = e.2 := by
      rw [same]
      rfl
    rw [plain, id]
  rw [decodedEntries_eq named [] (by simpa using distinct), List.nil_append, texts] at opened
  exact ⟨order, opened, lookup_perm perm holds.sound.once⟩

/-- No new store has an empty key. -/
theorem Saved.not_hasKey_nil (saved : f.Saved context) (opened : f.opened context = .ok fresh) :
    fresh.hasKey [] = false := by
  obtain ⟨order, -, again⟩ := saved
  cases again.symm.trans opened
  rw [hasKey, decide_eq_false_iff_not]
  intro member
  obtain ⟨e, inside, empty⟩ := List.mem_map.mp member
  exact decodedEntries_nonempty (by simp) e inside empty

theorem Holds.agrees_iff (holds : f.Holds context m) (saved : f.Saved context) :
    f.Agrees context ↔ [] ∉ m := by
  constructor
  · rintro ⟨fresh, opened, same⟩ empty
    have has := hasKey_iff.mpr (holds.mem_iff.mp empty)
    rw [← (same []).1, saved.not_hasKey_nil opened] at has
    cases has
  · intro nonempty
    obtain ⟨index, opened, lookups⟩ := holds.opened_eq saved nonempty
    refine ⟨_, opened, fun key => ⟨?_, fun has => ?_⟩⟩
    · rw [Bool.eq_iff_iff, hasKey_iff, hasKey_iff, lookups]
    · obtain ⟨entry, found⟩ := Option.ne_none_iff_exists'.mp (hasKey_iff.mp has)
      obtain ⟨id, v, content, rfl, -, -, kept, -⟩ := holds.entry found
      rw [get_eq holds.sound.loaded found kept]
      exact get_eq holds.sound.loaded ((lookups key).trans found) kept

/-- What a new store gives under a key is what decoding makes of its value. -/
theorem Holds.keeps_iff (holds : f.Holds context m) (saved : f.Saved context) :
    f.Keeps context m ↔ [] ∉ m ∧ ∀ key v, m.lookup key = some v → v.KeysNonempty := by
  have read : [] ∉ m → ∃ fresh, f.opened context = .ok fresh ∧
      (∀ key, fresh.hasKey key = decide (key ∈ m)) ∧ ∀ key v, m.lookup key = some v →
        (get context key fresh).1 = .ok v.decoded ∧ v.Formed := by
    intro nonempty
    obtain ⟨index, opened, lookups⟩ := holds.opened_eq saved nonempty
    refine ⟨_, opened, fun key => ?_, fun key v found => ?_⟩
    · rw [Bool.eq_iff_iff, hasKey_iff, decide_eq_true_iff, holds.mem_iff, lookups]
    · obtain ⟨id, content, known, -, kept, decodes, formed⟩ := holds.stored key v found
      refine ⟨?_, formed⟩
      rw [← decodes]
      exact get_eq holds.sound.loaded ((lookups key).trans known) kept
  constructor
  · rintro ⟨fresh, opened, keys, values⟩
    have nonempty : [] ∉ m := by
      intro empty
      have has := keys []
      rw [saved.not_hasKey_nil opened] at has
      exact of_decide_eq_false has.symm empty
    refine ⟨nonempty, fun key v found => ?_⟩
    obtain ⟨again, opened', -, reads⟩ := read nonempty
    cases opened'.symm.trans opened
    obtain ⟨decodes, formed⟩ := reads key v found
    obtain ⟨w, got, same⟩ := values key v found
    cases got.symm.trans decodes
    exact (same_decoded_iff formed).mp same
  · rintro ⟨nonempty, clean⟩
    obtain ⟨fresh, opened, keys, reads⟩ := read nonempty
    refine ⟨fresh, opened, keys, fun key v found => ?_⟩
    obtain ⟨decodes, formed⟩ := reads key v found
    exact ⟨v.decoded, decodes, (same_decoded_iff formed).mpr (clean key v found)⟩

end Persistence

end StoreFiles

namespace StoreCall

def outcome (calls : List (StoreCall Double)) (m : Contents Double) : Contents Double :=
  calls.foldl (fun m call => (m.step call.op).2) m

/-- After calls on a loaded store, none of whose writes and deletions fails, a new
store on the directory has what the calls have stored exactly when no key is
empty, neither in the store nor in a value. It has what the old store has exactly
when no key of the store is empty. -/
theorem persists_iff (works : ∀ n, context.fails n = false) {f : StoreFiles Double}
    {m : Contents Double} (loaded : f.Loaded context m) (calls : List (StoreCall Double))
    (formed : ∀ call ∈ calls, call.Formed)
    (short : ∀ n < f.made + (calls.map names).sum, (context.names.uuid n).length < 2 ^ 64) :
    ∃ last, Program.forEach (run context) calls f = (.ok (), last) ∧
      (last.Keeps context (outcome calls m) ↔
        [] ∉ outcome calls m ∧ ∀ key v, (outcome calls m).lookup key = some v → v.KeysNonempty) ∧
      (last.Agrees context ↔ [] ∉ outcome calls m) := by
  obtain ⟨last, success, holds, saved, -⟩ := Program.forEach_ok
    (fun done (g : StoreFiles Double) => g.Holds context (outcome done m) ∧ g.Saved context ∧
      g.made ≤ f.made + (done.map names).sum) calls ⟨loaded.holds, loaded.saved, le_rfl⟩
    (fun done call rest g whole kept => by
      have member : call ∈ calls := by
        rw [whole]
        simp
      have room : g.made + call.names ≤ f.made + (calls.map names).sum := by
        rw [whole, List.map_append, List.map_cons, List.sum_append, List.sum_cons]
        have before := kept.2.2
        omega
      obtain ⟨next, success, holds, saved, made⟩ := run_holds works kept.1 kept.2.1 call
        (formed call member) fun n below => short n (below.trans_le room)
      refine ⟨next, success, ?_, saved, ?_⟩
      · rw [outcome, List.foldl_append]
        exact holds
      · rw [List.map_append, List.sum_append, List.map_singleton, List.sum_singleton]
        have before := kept.2.2
        omega)
  exact ⟨last, success, holds.keeps_iff saved, holds.agrees_iff saved⟩

end StoreCall

section EmptyKey

/-- Names of zeros, with writes and deletions that throw as given. -/
def zeroContext (fails : Nat → Bool) : StoreContext Unit where
  names := { zeros with
    notIndex := fun n same => by
      have letter : (105 : UInt8) ∈ List.replicate (n + 1) (48 : UInt8) := by
        rw [show List.replicate (n + 1) (48 : UInt8) = ascii "index" from same]
        decide
      exact absurd (List.eq_of_mem_replicate letter) (by decide) }
  doubles := loneDouble
  walk := ⟨id, walk_id_perm⟩
  fails := fails

def emptyFiles : StoreFiles Unit where
  path := ascii "/data"

theorem emptyFiles_loaded (fails : Nat → Bool) :
    emptyFiles.Loaded (zeroContext fails) ∅ where
  opened := rfl
  sound := {
    loaded := by decide
    once := List.nodup_nil
    named := fun _ _ found => by cases found
    apart := fun _ _ _ found => by cases found
    fresh := fun _ _ _ found => by cases found }
  small _ _ found := by cases found
  absent _ _ := rfl
  stored _ _ found := by cases found

theorem persists_name : ∃ last,
    Program.forEach (StoreCall.run (zeroContext fun _ => false))
        [.set (ascii "name") (.bytes (ascii "bob"))] emptyFiles = (.ok (), last) ∧
      last.Keeps (zeroContext fun _ => false)
        (StoreCall.outcome [.set (ascii "name") (.bytes (ascii "bob"))] ∅) := by
  obtain ⟨last, success, keeps, -⟩ := StoreCall.persists_iff (fun _ => rfl)
    (emptyFiles_loaded fun _ => false) [.set (ascii "name") (.bytes (ascii "bob"))]
    (by simpa [StoreCall.Formed] using ⟨by decide, .bytes (by decide)⟩)
    (by
      intro n below
      have first : n = 0 := by simpa [StoreCall.names, emptyFiles] using below
      subst first
      decide)
  refine ⟨last, success, keeps.mpr ⟨?_, fun key v found => ?_⟩⟩
  · intro empty
    have here : [] ∈ (∅ : Contents Unit).insert (ascii "name") (.bytes (ascii "bob")) := empty
    rcases Finmap.mem_insert.mp here with same | missing
    · cases same
    · exact Finmap.notMem_empty missing
  · have stored : ((∅ : Contents Unit).insert (ascii "name") (.bytes (ascii "bob"))).lookup key =
        some v := found
    by_cases same : key = ascii "name"
    · rw [same, Finmap.lookup_insert] at stored
      cases stored
      exact .bytes
    · rw [Finmap.lookup_insert_of_ne _ same, Finmap.lookup_empty] at stored
      cases stored

/-- A value under the empty key is under `0` for a new store. -/
theorem empty_key_moves : ∃ last fresh,
    Program.forEach (StoreCall.run (zeroContext fun _ => false)) [.set [] .empty] emptyFiles =
      (.ok (), last) ∧ last.hasKey [] = true ∧
    last.opened (zeroContext fun _ => false) = .ok fresh ∧ fresh.hasKey [] = false ∧
      fresh.hasKey (ascii "0") = true ∧ ¬last.Agrees (zeroContext fun _ => false) ∧
        ¬last.Keeps (zeroContext fun _ => false) (StoreCall.outcome [.set [] .empty] ∅) := by
  refine ⟨_, _, rfl, rfl, rfl, rfl, rfl, ?_, ?_⟩
  · rintro ⟨fresh, ⟨⟩, same⟩
    cases (same []).1
  · rintro ⟨fresh, ⟨⟩, keys, -⟩
    cases keys []

end EmptyKey

end Firestr.Util
