import Firestr.Library.Runs
import Firestr.Util.StoreFilesMap

/-! Calls on a store that end with an exception, because a write or a deletion
threw. What they had done before stays, but only to the keys that they name. -/

set_option autoImplicit false

namespace Firestr.Util

open Firestr.Library.Assoc Firestr.Library.Effects Firestr.Library.Effects.Program
  Firestr.Library.Runs

variable {Double : Type} {context : StoreContext Double}

namespace StoreFiles

/-- Only the keys that are named have another entry than before, and only value
files of theirs have another content. -/
structure Touches (named : Bytes → Prop) (f next : StoreFiles Double) : Prop where
  path : next.path = f.path
  entries : ∀ key, ¬named key → next.index.lookup key = f.index.lookup key
  files : ∀ name, next.files name ≠ f.files name → ∃ key, named key ∧
    (f.index.lookup key = some (.bytes name) ∨ next.index.lookup key = some (.bytes name))

section Touches

variable {named : Bytes → Prop} {f g next : StoreFiles Double} {key : Bytes} {v : Value Double}

theorem Touches.counted (changes : Nat) : f.Touches named { f with changes := changes } where
  path := rfl
  entries _ _ := rfl
  files _ changed := absurd rfl changed

theorem Sound.counted (sound : f.Sound context) (changes : Nat) :
    Sound context { f with changes := changes } :=
  ⟨sound.loaded, sound.once, sound.named, sound.apart, sound.fresh⟩

theorem change_leaves (what : String) (update : (Bytes → Option Bytes) → Bytes → Option Bytes) :
    Leaves (fun _ next => next = { f with changes := f.changes + 1 })
      (fun _ next => next = { f with
        files := update f.files
        changes := f.changes + 1 }) (change context what update f) := by
  cases breaks : context.fails f.changes with
  | true =>
      rw [change_error breaks]
      rfl
  | false =>
      rw [change_ok breaks]
      rfl

theorem deleteFile_leaves (name : Bytes) :
    Leaves (fun _ next => next = { f with changes := f.changes + 1 })
      (fun _ next => ∃ changes, next = { f with
        files := Function.update f.files name none
        changes := changes }) (deleteFile context name f) := by
  rw [deleteFile, Program.get_bind]
  cases there : (f.files name).isNone with
  | true =>
      refine ⟨f.changes, ?_⟩
      rw [← Option.isNone_iff_eq_none.mp there, Function.update_eq_self]
  | false =>
      exact (change_leaves _ _).bind fun _ next same => ⟨_, same⟩

theorem saveIndex_leaves (loaded : f.path ≠ []) :
    Leaves (fun _ next => next = { f with changes := f.changes + 1 })
      (fun _ next => ∃ content, next = { f with
        files := Function.update f.files indexName (some content)
        changes := f.changes + 1 }) (saveIndex context f) := by
  rw [saveIndex_eq loaded]
  exact (change_leaves _ _).mono (fun _ _ same => ⟨_, same⟩) fun _ _ same => same

theorem Touches.refl : f.Touches named f where
  path := rfl
  entries _ _ := rfl
  files _ changed := absurd rfl changed

/-- What setting one key does, whether it ends with an error or not. -/
structure Sets (context : StoreContext Double) (key : Bytes) (f next : StoreFiles Double) : Prop where
  sound : next.Sound context
  touches : f.Touches (· = key) next
  keeps : ∀ other entry, f.index.lookup other = some entry → next.index.lookup other = some entry

theorem Enters.sets {id : Bytes} (enters : Enters context f g key id) (sound : f.Sound context)
    (files : Bytes → Option Bytes) (changes : Nat)
    (elsewhere : ∀ name, name ≠ id → files name = f.files name) :
    Sets context key f { g with
      files := files
      changes := changes } where
  sound := by
    have sound := enters.sound sound
    exact ⟨sound.loaded, sound.once, sound.named, sound.apart, sound.fresh⟩
  touches := {
    path := enters.path
    entries := fun other different => (enters.index other).trans (if_neg different)
    files := fun name changed => by
      have same : name = id := by
        by_contra different
        exact changed (elsewhere name different)
      refine ⟨key, rfl, .inr ?_⟩
      rw [same]
      exact (enters.index key).trans (if_pos rfl) }
  keeps other entry found := by
    change g.index.lookup other = some entry
    rw [enters.index]
    split
    · rename_i same
      rw [same] at found
      rcases enters.known with ⟨known, -⟩ | ⟨none?, -⟩
      · exact known.symm.trans found
      · rw [none?] at found
        cases found
    · exact found

theorem Sound.setIntern_sets (sound : f.Sound context) (key : Bytes) (v : Value Double) :
    Leaves (fun _ => Sets context key f) (fun _ => Sets context key f)
      (StoreFiles.setIntern context key v f) := by
  rcases sound.setIntern key v with ⟨failure, -⟩ | ⟨id, g, same, enters⟩
  · rw [failure]
    exact ⟨sound, .refl, fun _ _ found => found⟩
  · rw [same]
    refine (change_leaves _ _).mono (fun _ next same => ?_) fun _ next same => ?_
    · rw [same]
      refine enters.sets sound _ _ fun name different => ?_
      rw [Function.update_of_ne different, enters.files]
    · rw [same]
      exact enters.sets sound _ _ fun name _ => congrFun enters.files name

/-- A call that changes some keys, after one that has changed others. -/
theorem Touches.trans_sets {last : StoreFiles Double} (first : f.Touches named g)
    (second : Sets context key g last) (names : named key) : f.Touches named last where
  path := second.touches.path.trans first.path
  entries other unnamed := by
    have different : other ≠ key := fun same => unnamed (same ▸ names)
    rw [second.touches.entries other different, first.entries other unnamed]
  files name changed := by
    by_cases before : g.files name = f.files name
    · rw [← before] at changed
      obtain ⟨other, same, entry⟩ := second.touches.files name changed
      subst same
      refine ⟨other, names, ?_⟩
      rcases entry with found | found
      · exact .inr (second.keeps other _ found)
      · exact .inr found
    · obtain ⟨other, member, entry⟩ := first.files name before
      refine ⟨other, member, ?_⟩
      rcases entry with found | found
      · exact .inl found
      · exact .inr (second.keeps other _ found)

end Touches

/-- What holds of the store when a call has failed, or has not. -/
abbrev FailsSafe {Result : Type} (context : StoreContext Double) (named : Bytes → Prop)
    (f : StoreFiles Double) : Outcome Result × StoreFiles Double → Prop :=
  Leaves (fun _ next => next.Sound context ∧ f.Touches named next) fun _ next => next.Sound context

section Calls

variable {named : Bytes → Prop} {f g : StoreFiles Double}

theorem Sound.saveIndex (sound : f.Sound context) :
    Leaves (fun _ next => next.Sound context ∧ next = { f with changes := f.changes + 1 })
      (fun _ next => next.Sound context) (StoreFiles.saveIndex context f) := by
  refine (saveIndex_leaves sound.loaded).mono (fun _ next same => ?_) fun _ next same => ?_
  · obtain ⟨content, rfl⟩ := same
    exact ⟨sound.loaded, sound.once, sound.named, sound.apart, sound.fresh⟩
  · subst same
    exact ⟨sound.counted _, rfl⟩

theorem Sound.importFrom (sound : f.Sound context) (entries : List (Bytes × Value Double)) :
    FailsSafe context (· ∈ entries.map (·.1)) f (StoreFiles.importFrom context entries f) := by
  have filled : Leaves (fun _ next => next.Sound context ∧ f.Touches (· ∈ entries.map (·.1)) next)
      (fun _ next => next.Sound context ∧ f.Touches (· ∈ entries.map (·.1)) next)
      (Program.forEach (fun e => StoreFiles.setIntern context e.1 e.2) entries f) := by
    refine @Leaves.forEach _ _ _ _ f (fun _ next => next.Sound context ∧
      f.Touches (· ∈ entries.map (·.1)) next) _ entries ⟨sound, .refl⟩ ?_
    intro done e rest g whole kept
    have member : e.1 ∈ entries.map (·.1) := by
      rw [whole]
      simp
    refine (kept.1.setIntern_sets e.1 e.2).mono (fun _ next sets => ?_) fun _ next sets => ?_
    · exact ⟨sets.sound, kept.2.trans_sets sets member⟩
    · exact ⟨sets.sound, kept.2.trans_sets sets member⟩
  refine filled.bind fun _ g kept => ?_
  refine kept.1.saveIndex.mono (fun _ _ sound => sound) fun _ next failed => ⟨failed.1, ?_⟩
  rw [failed.2]
  exact ⟨kept.2.path, kept.2.entries, kept.2.files⟩

theorem Sound.set (sound : f.Sound context) (key : Bytes) (v : Value Double) :
    FailsSafe context (· = key) f (StoreFiles.set context key v f) := by
  have wrote := sound.setIntern_sets key v
  refine (wrote.mono (fun _ _ sets => sets) fun _ next sets => ⟨sets.sound, sets.touches⟩).bind
    fun _ g sets => ?_
  refine sets.sound.saveIndex.mono (fun _ _ sound => sound) fun _ next failed => ⟨failed.1, ?_⟩
  rw [failed.2]
  exact ⟨sets.touches.path, sets.touches.entries, sets.touches.files⟩

theorem Sound.removeIntern (sound : f.Sound context) (key : Bytes) :
    FailsSafe context (· = key) f (StoreFiles.removeIntern context key f) := by
  rw [StoreFiles.removeIntern, Program.get_bind]
  cases found : f.index.lookup key with
  | none => exact sound
  | some entry =>
      cases entry with
      | bytes id =>
          simp only [Value.asString, Program.lift_bind_ok]
          refine Leaves.bind ((deleteFile_leaves id).mono (fun _ _ same => same) fun _ next same => ?_)
            fun _ g same => ?_
          · rw [same]
            exact ⟨sound.counted _, .counted _⟩
          · obtain ⟨changes, rfl⟩ := same
            rw [Program.modify_bind]
            have dropped := sound.dropped key (Function.update f.files id none) changes
            refine (dropped.saveIndex.mono (fun _ _ sound => sound)
              fun _ next failed => ⟨failed.1, ?_⟩).bind fun _ _ sound => sound
            rw [failed.2]
            refine ⟨rfl, fun other different => ?_, fun name changed => ?_⟩
            · exact (lookup_unassign other).trans (if_neg different)
            · refine ⟨key, rfl, .inl ?_⟩
              by_cases same : name = id
              · rw [same, found]
              · exact absurd (Function.update_of_ne same ..) changed
      | _ => exact ⟨sound, .refl⟩

theorem Sound.clear (sound : f.Sound context) :
    Leaves (fun _ next => next.Sound context) (fun _ next => next.Sound context)
      (StoreFiles.clear context f) := by
  rw [StoreFiles.clear, Program.get_bind]
  refine @Leaves.forEach _ _ _ _ f (fun _ next => next.Sound context) _ _ sound ?_
  intro done key rest g _ kept
  exact Leaves.bind ((kept.removeIntern key).mono (fun _ _ sound => sound) fun _ _ failed => failed.1)
    fun _ _ sound => sound

/-- What `get` gives. -/
def answer (context : StoreContext Double) (f : StoreFiles Double) (key : Bytes) :
    Outcome (Value Double) := do
  let id ← ((f.index.lookup key).getD .empty).asString
  match f.files id with
  | none => .ok .empty
  | some content => Value.decode context.doubles content

/-- A read enters its key, if it is not there. -/
def looked (f : StoreFiles Double) (key : Bytes) : StoreFiles Double :=
  match f.index.lookup key with
  | some _ => f
  | none => { f with index := assign f.index key .empty }

theorem get_apply (loaded : f.path ≠ []) (key : Bytes) :
    StoreFiles.get context key f = (f.answer context key, f.looked key) := by
  have filled : (!f.path.isEmpty) = true := not_isEmpty_of_ne_nil loaded
  have entry : entryOf key f = (.ok ((f.index.lookup key).getD .empty), f.looked key) := by
    rw [entryOf, Program.get_bind, looked]
    cases f.index.lookup key with
    | none => rfl
    | some entry => rfl
  have files : (f.looked key).files = f.files := by
    rw [looked]
    split <;> rfl
  rw [StoreFiles.get, Program.get_bind, filled, contract_true, Program.lift_bind_ok, getValue,
    Program.bind_ok entry, answer]
  cases id? : ((f.index.lookup key).getD .empty).asString with
  | error fault => rfl
  | ok id =>
      rw [Program.lift_bind_ok, Program.get_bind, files, ok_bind]
      cases f.files id with
      | none => rfl
      | some content => rfl

theorem Sound.get (sound : f.Sound context) (key : Bytes) :
    (StoreFiles.get context key f).2.Sound context := by
  rw [get_apply sound.loaded, looked]
  cases found : f.index.lookup key with
  | some entry => exact sound
  | none =>
      have before : ∀ {other id : Bytes}, (assign f.index key (.empty : Value Double)).lookup other =
          some (.bytes id) → f.index.lookup other = some (.bytes id) := by
        intro other id known
        rw [lookup_assign] at known
        split at known
        · cases known
        · exact known
      exact {
        loaded := sound.loaded
        once := nodup_keys_assign sound.once
        named := fun other id known => sound.named other id (before known)
        apart := fun other third id one two => sound.apart other third id (before one) (before two)
        fresh := fun other n later known => sound.fresh other n later (before known) }

end Calls

end StoreFiles

/-- What is done with a store: a call, which may fail, or a read. -/
inductive StoreUse (Double : Type) where
  | call (call : StoreCall Double)
  | get (key : Bytes)

def StoreUse.after (context : StoreContext Double) (f : StoreFiles Double) :
    StoreUse Double → StoreFiles Double
  | .call c => (c.run context f).2
  | .get key => (StoreFiles.get context key f).2

/-- The states of a store that was loaded, with any of its writes and deletions
failing. -/
abbrev StoreRun (context : StoreContext Double) : List (StoreUse Double) → StoreFiles Double → Prop :=
  Run (fun f => ∃ m, f.Loaded context m) fun f use next => next = use.after context f

namespace StoreCall

/-- The keys that a call names. -/
def Names : StoreCall Double → Bytes → Prop
  | .set key _ => (· = key)
  | .remove key => (· = key)
  | .clear => fun _ => True
  | .importFrom entries => (· ∈ entries.map (·.1))

theorem run_safe {f : StoreFiles Double} (sound : f.Sound context) (call : StoreCall Double)
    (kind : call ≠ .clear) : StoreFiles.FailsSafe context call.Names f (call.run context f) := by
  cases call with
  | set key v => exact sound.set key v
  | remove key => exact (sound.removeIntern key).bind fun _ _ sound => sound
  | clear => exact absurd rfl kind
  | importFrom entries => exact sound.importFrom entries

theorem run_sound {f : StoreFiles Double} (sound : f.Sound context) (call : StoreCall Double) :
    (call.run context f).2.Sound context := by
  have leaves : Leaves (fun _ next => next.Sound context) (fun _ next => next.Sound context)
      (call.run context f) := by
    by_cases kind : call = .clear
    · subst kind
      exact sound.clear
    · exact (run_safe sound call kind).mono (fun _ _ sound => sound) fun _ _ failed => failed.1
  cases ran : call.run context f with
  | mk outcome next =>
      rw [ran] at leaves
      cases outcome with
      | ok value => exact leaves
      | error fault => exact leaves

end StoreCall

theorem sound_of_storeRun {uses : List (StoreUse Double)} {f : StoreFiles Double}
    (run : StoreRun context uses f) : f.Sound context := by
  induction run with
  | start loaded =>
      obtain ⟨m, loaded⟩ := loaded
      exact loaded.sound
  | @step _ _ _ use _ stepped ih =>
      rw [stepped]
      cases use with
      | call c => exact c.run_sound ih
      | get key => exact ih.get key

namespace StoreFiles

section Answers

variable {f next fresh : StoreFiles Double} {named : Bytes → Prop} {key : Bytes}

def SameAt (context : StoreContext Double) (f next : StoreFiles Double) (key : Bytes) : Prop :=
  next.hasKey key = f.hasKey key ∧
    (StoreFiles.get context key next).1 = (StoreFiles.get context key f).1

theorem sameAt_of_entry (loaded : f.path ≠ []) (path : next.path = f.path)
    (entry : next.index.lookup key = f.index.lookup key)
    (file : ∀ id, f.index.lookup key = some (.bytes id) → next.files id = f.files id) :
    SameAt context f next key := by
  constructor
  · rw [Bool.eq_iff_iff, hasKey_iff, hasKey_iff, entry]
  · rw [get_apply loaded, get_apply (path ▸ loaded)]
    simp only [answer, entry]
    cases found : f.index.lookup key with
    | none => rfl
    | some value =>
        cases value with
        | bytes id =>
            simp only [Option.getD_some, Value.asString, ok_bind]
            rw [file id found]
        | _ => rfl

theorem Touches.sameAt (touches : f.Touches named next) (sound : f.Sound context)
    (later : next.Sound context) (unnamed : ¬named key) : SameAt context f next key := by
  refine sameAt_of_entry sound.loaded touches.path (touches.entries key unnamed) fun id found => ?_
  by_contra changed
  obtain ⟨other, names, entry⟩ := touches.files id changed
  rcases entry with before | after
  · exact unnamed (sound.apart key other id found before ▸ names)
  · rw [← touches.entries key unnamed] at found
    exact unnamed (later.apart key other id found after ▸ names)

/-- The index file is not touched. -/
theorem Touches.indexFile (touches : f.Touches named next) (sound : f.Sound context)
    (later : next.Sound context) : next.files indexName = f.files indexName := by
  by_contra changed
  obtain ⟨key, -, entry⟩ := touches.files indexName changed
  rcases entry with before | after
  · exact (sound.named key indexName before).2 rfl
  · exact (later.named key indexName after).2 rfl

theorem opened_congr (path : next.path = f.path) (file : next.files indexName = f.files indexName)
    (opened : f.opened context = .ok fresh) :
    next.opened context = .ok { next with index := fresh.index } ∧
      fresh = { f with index := fresh.index } := by
  obtain ⟨⟨⟩, required, rest⟩ := bind_ok opened
  obtain ⟨index, read, ⟨⟩⟩ := bind_ok rest
  refine ⟨?_, rfl⟩
  rw [StoreFiles.opened, path, required, ok_bind, file, read]
  rfl

end Answers

end StoreFiles

namespace StoreCall

/-- A key named by the call has the value file that `fresh` has for `key`. -/
def Shares (call : StoreCall Double) (f next fresh : StoreFiles Double) (key : Bytes) : Prop :=
  ∃ other id, call.Names other ∧ fresh.index.lookup key = some (.bytes id) ∧
    (f.index.lookup other = some (.bytes id) ∨ next.index.lookup other = some (.bytes id))

/-- The first file that the call would change is one that a key of the store has. -/
def Known (f : StoreFiles Double) : StoreCall Double → Prop
  | .set key _ => f.hasKey key = true
  | .remove key => ∃ id content, f.index.lookup key = some (.bytes id) ∧ f.files id = some content
  | .clear => False
  | .importFrom entries => ∀ e, entries.head? = some e → f.hasKey e.1 = true

/-- What a call that ends with an exception leaves as it was, in this store and in
a new one on the directory. -/
structure Contained (context : StoreContext Double) (call : StoreCall Double)
    (f next : StoreFiles Double) : Prop where
  here : ∀ key, ¬call.Names key → StoreFiles.SameAt context f next key
  opened : ∀ fresh, f.opened context = .ok fresh → ∃ fresh', next.opened context = .ok fresh' ∧
    ∀ key, fresh'.hasKey key = fresh.hasKey key ∧
      (¬call.Shares f next fresh key → StoreFiles.SameAt context fresh fresh' key)
  first : call.Known f → context.fails f.changes = true →
    (∀ key, StoreFiles.SameAt context f next key) ∧
      ∀ fresh, f.opened context = .ok fresh → ∃ fresh', next.opened context = .ok fresh' ∧
        ∀ key, StoreFiles.SameAt context fresh fresh' key

section Failures

variable {f next : StoreFiles Double} {call : StoreCall Double}

private theorem all_sameAt (loaded : f.path ≠ []) (path : next.path = f.path)
    (index : next.index = f.index) (files : next.files = f.files) :
    (∀ key, StoreFiles.SameAt context f next key) ∧
      ∀ fresh, f.opened context = .ok fresh → ∃ fresh', next.opened context = .ok fresh' ∧
        ∀ key, StoreFiles.SameAt context fresh fresh' key := by
  refine ⟨fun key => ?_, fun fresh opened => ?_⟩
  · exact StoreFiles.sameAt_of_entry loaded path (by rw [index]) fun _ _ => by rw [files]
  · obtain ⟨again, shape⟩ := StoreFiles.opened_congr path (by rw [files]) opened
    refine ⟨_, again, fun key => ?_⟩
    have here : fresh.path ≠ [] := by
      rw [shape]
      exact loaded
    refine StoreFiles.sameAt_of_entry here (by rw [shape]; exact path) rfl fun id _ => ?_
    rw [shape]
    exact congrFun files id

private theorem setIntern_first {key : Bytes} {v : Value Double} (sound : f.Sound context)
    (has : f.hasKey key = true) (breaks : context.fails f.changes = true) :
    ∃ fault changes, StoreFiles.setIntern context key v f =
      (.error fault, { f with changes := changes }) := by
  rcases sound.setIntern key v with ⟨failure, -⟩ | ⟨id, g, same, enters⟩
  · exact ⟨_, f.changes, failure⟩
  · rcases enters.known with ⟨-, rfl⟩ | ⟨none?, -⟩
    · exact ⟨_, _, same.trans (StoreFiles.change_error breaks _ _)⟩
    · exact absurd none? (StoreFiles.hasKey_iff.mp has)

private theorem run_first (sound : f.Sound context) (known : call.Known f)
    (breaks : context.fails f.changes = true) :
    (call.run context f).2.path = f.path ∧ (call.run context f).2.index = f.index ∧
      (call.run context f).2.files = f.files := by
  cases call with
  | set key v =>
      obtain ⟨fault, changes, failure⟩ := setIntern_first (v := v) sound known breaks
      have ran : StoreFiles.set context key v f = (.error fault, { f with changes := changes }) :=
        Program.bind_error failure
      rw [StoreCall.run, ran]
      exact ⟨rfl, rfl, rfl⟩
  | remove key =>
      obtain ⟨id, content, found, kept⟩ := known
      have there : (f.files id).isNone = false := by
        rw [kept]
        rfl
      have failed : StoreFiles.deleteFile context id f =
          (.error (.thrown "boost::filesystem::remove"), { f with changes := f.changes + 1 }) := by
        rw [StoreFiles.deleteFile, Program.get_bind]
        simp only [there, Bool.false_eq_true, if_false]
        exact Program.bind_error (StoreFiles.change_error breaks _ _)
      have removed : StoreFiles.removeIntern context key f =
          (.error (.thrown "boost::filesystem::remove"), { f with changes := f.changes + 1 }) := by
        simp only [StoreFiles.removeIntern, Program.get_bind, found, Value.asString,
          Program.lift_bind_ok]
        exact Program.bind_error failed
      rw [StoreCall.run, Program.bind_error removed]
      exact ⟨rfl, rfl, rfl⟩
  | clear => exact known.elim
  | importFrom entries =>
      cases entries with
      | nil =>
          have ran : StoreFiles.importFrom context [] f =
              StoreFiles.saveIndex context f := rfl
          rw [StoreCall.run, ran, StoreFiles.saveIndex_eq sound.loaded, StoreFiles.saveToFile,
            StoreFiles.change_error breaks]
          exact ⟨rfl, rfl, rfl⟩
      | cons e rest =>
          obtain ⟨fault, changes, failure⟩ :=
            setIntern_first (v := e.2) sound (known e rfl) breaks
          have ran : StoreFiles.importFrom context (e :: rest) f =
              (.error fault, { f with changes := changes }) :=
            Program.bind_error (Program.bind_error failure)
          rw [StoreCall.run, ran]
          exact ⟨rfl, rfl, rfl⟩

/-- A call that fails changes the answers for the keys it names at most, and none
if it fails before it has changed a file and has its first key. -/
theorem failed_call_contained {uses : List (StoreUse Double)} (run : StoreRun context uses f)
    (kind : call ≠ .clear) {fault : Fault} (failed : (call.run context f).1 = .error fault) :
    call.Contained context f (call.run context f).2 := by
  have sound := sound_of_storeRun run
  have safe := run_safe sound call kind
  cases ran : call.run context f with
  | mk outcome next =>
      rw [ran] at failed safe
      cases failed
      obtain ⟨later, touches⟩ := safe
      constructor
      · exact fun key unnamed => touches.sameAt sound later unnamed
      · intro fresh opened
        obtain ⟨again, shape⟩ := StoreFiles.opened_congr touches.path
          (touches.indexFile sound later) opened
        refine ⟨_, again, fun key => ⟨rfl, fun apart => ?_⟩⟩
        have here : fresh.path ≠ [] := by
          rw [shape]
          exact sound.loaded
        refine StoreFiles.sameAt_of_entry here (by rw [shape]; exact touches.path) rfl
          fun id found => ?_
        by_contra changed
        rw [shape] at changed
        obtain ⟨other, names, entry⟩ := touches.files id changed
        exact apart ⟨other, id, names, found, entry⟩
      · intro known breaks
        have unchanged := run_first sound known breaks
        rw [ran] at unchanged
        exact all_sameAt sound.loaded unchanged.1 unchanged.2.1 unchanged.2.2

end Failures

end StoreCall

section Examples

def setName : StoreCall Unit := .set (ascii "name") (.bytes (ascii "bob"))

def removeName : StoreCall Unit := .remove (ascii "name")

/-- The store with a name, where the change of this number throws. -/
def namedFiles (broken : Nat) : StoreFiles Unit :=
  (setName.run (zeroContext (· == broken)) emptyFiles).2

theorem namedFiles_run (broken : Nat) :
    StoreRun (zeroContext (· == broken)) [.call setName] (namedFiles broken) :=
  .single ⟨∅, emptyFiles_loaded _⟩ rfl

/-- A deletion that throws leaves all as it was. -/
theorem failed_deletion_contained :
    removeName.Contained (zeroContext (· == 2)) (namedFiles 2)
      (removeName.run (zeroContext (· == 2)) (namedFiles 2)).2 := by
  have failed : (removeName.run (zeroContext (· == 2)) (namedFiles 2)).1 =
      .error (.thrown "boost::filesystem::remove") := rfl
  exact StoreCall.failed_call_contained (namedFiles_run 2) (by rintro ⟨⟩) failed

/-- A key whose value was not written is in the store, and a key whose file is
deleted is in a new one. -/
theorem failed_calls_change_answers :
    (StoreRun (zeroContext (· == 0)) [] emptyFiles ∧
      (setName.run (zeroContext (· == 0)) emptyFiles).1 = .error (.thrown "unable to save") ∧
      emptyFiles.hasKey (ascii "name") = false ∧
      (setName.run (zeroContext (· == 0)) emptyFiles).2.hasKey (ascii "name") = true) ∧
    (StoreRun (zeroContext (· == 3)) [.call setName] (namedFiles 3) ∧
      (removeName.run (zeroContext (· == 3)) (namedFiles 3)).1 = .error (.thrown "unable to save") ∧
      ∃ before fresh, (namedFiles 3).opened (zeroContext (· == 3)) = .ok before ∧
        (removeName.run (zeroContext (· == 3)) (namedFiles 3)).2.opened (zeroContext (· == 3)) =
          .ok fresh ∧
        (StoreFiles.get (zeroContext (· == 3)) (ascii "name") before).1 =
          .ok (.bytes (ascii "bob")) ∧
        fresh.hasKey (ascii "name") = true ∧
        (StoreFiles.get (zeroContext (· == 3)) (ascii "name") fresh).1 = .ok .empty) :=
  ⟨⟨.start ⟨∅, emptyFiles_loaded _⟩, rfl, rfl, rfl⟩, namedFiles_run 3, rfl, _, _, rfl, rfl, rfl, rfl,
    rfl⟩

end Examples

end Firestr.Util
