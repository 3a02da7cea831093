import Mathlib.Data.Fintype.EquivFin
import Firestr.Gui.AppService
import Firestr.Util.FileSystemProperties
import Firestr.Util.MencodeProperties

/-! Where the app service makes directories, writes files and deletes for an app
that came in a message. That is the temporary home as long as the id of the app
does not lead out of it. -/

set_option autoImplicit false

namespace Firestr.Gui

open Firestr.Library.Assoc Firestr.Messages Firestr.Util

variable {Double : Type}

namespace AppService

/-- The location of the temporary home. -/
def root (s : AppService Double) : Location := locate s.cwd s.tmpAppHome

/-- A directory that is there because the home of the user is. -/
def HomeHas (s : AppService Double) (loc : Location) : Prop :=
  ∃ seen ∈ startOf s.cwd s.home :: visited s.cwd s.home, loc <+: seen

/-- What holds of a file system, and of the home of the user in it: a file named
`index` in the temporary home is one that a disk store has written. -/
structure Holds (s : AppService Double) (fs : FileSystem) : Prop where
  above : ∀ loc below, loc <+: below → loc ≠ below →
    (fs.directories below = true ∨ (fs.files below).isSome = true) → fs.directories loc = true
  apart : ∀ loc, fs.directories loc = true → fs.files loc = none
  home : ∀ seen ∈ startOf s.cwd s.home :: visited s.cwd s.home, fs.directories seen = true
  index : ∀ loc content entries, s.root <+: loc → fs.files (loc ++ [ascii "index"]) = some content →
    s.readIndex (some content) = .ok entries → ∀ key id, (key, some id) ∈ entries → FileName id

/-- The directory of an app and its data, and each directory on the way there, is
in the temporary home. A way past directories that the home is under is no harm,
and neither is an id with a NUL in it, which no app gets. -/
structure StaysHome (s : AppService Double) (id : Bytes) : Prop where
  way : ∀ loc ∈ visited s.cwd (s.getAppDataDir (s.getAppDir s.tmpAppHome id)),
    s.root <+: loc ∨ s.HomeHas loc
  ends : 0 ∉ id → s.root <+: locate s.cwd (s.getAppDir s.tmpAppHome id)

/-- What the message with this id changes is in the temporary home, and so is
what goes with the app. -/
def KeepsOut (s : AppService Double) (id : Bytes) : Prop :=
  ∀ made m fs, s.Holds fs → extraString m "app_id" = .ok id →
    FileSystem.Confined s.root fs (s.createApp made m fs).2 ∧
      ∀ a, (s.createApp made m fs).1 = .ok a →
        ∀ later, FileSystem.Confined s.root later (s.destroyApp a later).2

end AppService

section Names

theorem fileName_tmp : FileName (ascii "tmp") := ⟨by decide, by decide, by decide, by decide⟩

theorem fileName_data : FileName (ascii "data") := ⟨by decide, by decide, by decide, by decide⟩

theorem fileName_index : FileName (ascii "index") := ⟨by decide, by decide, by decide, by decide⟩

end Names

namespace AppService

section Paths

variable (s : AppService Double) {id : Bytes}

theorem tmpAppHome_ne_nil : s.tmpAppHome ≠ [] := s.paths.append_ne_nil s.nonempty _

theorem tmpAppHome_noNul : 0 ∉ s.tmpAppHome := by
  obtain ⟨rest, same, bytes⟩ := s.paths.append_eq_append s.nonempty (ascii "tmp")
  rw [tmpAppHome, same, List.mem_append, not_or]
  refine ⟨s.noNul, fun member => ?_⟩
  rcases bytes 0 member with nul | nul
  · exact absurd nul (by decide)
  · exact absurd nul (by decide)

theorem root_eq : s.root = locate s.cwd s.home ++ [ascii "tmp"] :=
  s.paths.locate_append s.cwd s.nonempty s.noNul fileName_tmp

theorem getAppDir_ne_nil (id : Bytes) : s.getAppDir s.tmpAppHome id ≠ [] :=
  s.paths.append_ne_nil s.tmpAppHome_ne_nil id

theorem nul_getAppDir : 0 ∈ s.getAppDir s.tmpAppHome id ↔ 0 ∈ id := by
  constructor
  · intro nul
    obtain ⟨rest, same, bytes⟩ := s.paths.append_eq_append s.tmpAppHome_ne_nil id
    rw [getAppDir, same] at nul
    rcases List.mem_append.mp nul with first | second
    · exact absurd first s.tmpAppHome_noNul
    · exact (bytes 0 second).resolve_left (by decide)
  · exact fun nul => s.paths.mem_append s.tmpAppHome_ne_nil nul

theorem getAppDataDir_ne_nil (id : Bytes) : s.getAppDataDir (s.getAppDir s.tmpAppHome id) ≠ [] :=
  s.paths.append_ne_nil (s.getAppDir_ne_nil id) _

theorem nul_getAppDataDir : 0 ∈ s.getAppDataDir (s.getAppDir s.tmpAppHome id) ↔ 0 ∈ id := by
  refine Iff.trans ?_ s.nul_getAppDir
  rw [getAppDataDir, s.paths.append_eq (s.getAppDir_ne_nil id) fileName_data]
  constructor
  · intro nul
    rcases List.mem_append.mp nul with first | second
    · rcases List.mem_append.mp first with before | sep
      · exact before
      · rw [separator] at sep
        split at sep
        · cases sep
        · exact absurd sep (by decide)
    · exact absurd second (by decide)
  · exact fun nul => List.mem_append_left _ (List.mem_append_left _ nul)

theorem locate_getAppDataDir (noNul : 0 ∉ id) :
    locate s.cwd (s.getAppDataDir (s.getAppDir s.tmpAppHome id)) =
      locate s.cwd (s.getAppDir s.tmpAppHome id) ++ [ascii "data"] :=
  s.paths.locate_append s.cwd (s.getAppDir_ne_nil id) (s.nul_getAppDir.not.mpr noNul) fileName_data

end Paths

section Store

variable {s : AppService Double} {d next : DiskStore Double} {key : Bytes} {v : Value Double}
  {fs : FileSystem} {root : Location} {ok : Bytes → Prop}

theorem setIntern_spec (success : d.setIntern s.uuids key v = .ok next) :
    next.path = d.path ∧ ∃ id, next.idOf key = some id ∧
      ((key, some id) ∈ d.index ∨ id = s.uuids.uuid d.made) ∧
      ∀ other filed, (other, some filed) ∈ next.index →
        (other, some filed) ∈ d.index ∨ filed = s.uuids.uuid d.made := by
  rw [DiskStore.setIntern] at success
  cases found : d.index.lookup key with
  | some entry =>
      simp only [found] at success
      obtain ⟨⟨id, same⟩, named, success⟩ := bind_ok success
      obtain ⟨id', string, named⟩ := bind_ok named
      cases named
      obtain ⟨_, -, success⟩ := bind_ok success
      cases success
      cases entry with
      | none => cases string
      | some entry =>
          cases string
          refine ⟨rfl, id, ?_, .inl (mem_of_lookup found), fun other filed member => .inl member⟩
          change (d.index.lookup key).join = some id
          rw [found]
          rfl
  | none =>
      simp only [found] at success
      obtain ⟨⟨id, made⟩, named, success⟩ := bind_ok success
      cases named
      obtain ⟨_, -, success⟩ := bind_ok success
      cases success
      refine ⟨rfl, s.uuids.uuid d.made, ?_, .inr rfl, fun other filed member => ?_⟩
      · change ((assign d.index key (some (s.uuids.uuid d.made))).lookup key).join = _
        rw [lookup_assign_self]
        rfl
      · rcases eq_or_mem_of_mem_assign member with same | ⟨before, -⟩
        · cases same
          exact .inr rfl
        · exact .inl before

/-- Files of the store may be saved under names that are `ok`: in the directory,
or where a directory prevents it. -/
structure Bounded (s : AppService Double) (root : Location) (ok : Bytes → Prop) (path : Bytes)
    (fs : FileSystem) : Prop where
  uuids : ∀ n, ok (s.uuids.uuid n)
  index : ok (ascii "index")
  target : ∀ name, ok name → fs.directories (locate s.cwd (s.paths.append path name)) = true ∨
    root <+: locate s.cwd (s.paths.append path name)

/-- The store under a path, with `ok` names in its index, after changes inside. -/
structure Keeps (root : Location) (ok : Bytes → Prop) (path : Bytes) (fs : FileSystem)
    (result : Outcome (DiskStore Double) × FileSystem) : Prop where
  confined : FileSystem.Confined root fs result.2
  directories : result.2.directories = fs.directories
  path : ∀ next, result.1 = .ok next → next.path = path
  ids : ∀ next, result.1 = .ok next → ∀ key id, (key, some id) ∈ next.index → ok id

theorem saveToFile_directories (cwd : Location) (p content : Bytes) (fs : FileSystem) :
    (saveToFile cwd p content fs).2.directories = fs.directories := by
  rcases saveToFile_cases cwd p content fs with ⟨fault, failed⟩ | ⟨-, done⟩
  · rw [failed]
  · rw [done]

private theorem setIntern_keeps (bounded : Bounded s root ok d.path fs)
    (ids : ∀ key id, (key, some id) ∈ d.index → ok id) :
    Keeps root ok d.path fs (s.setIntern d key v fs) := by
  rcases DiskM.bind_cases (DiskM.lift (d.setIntern s.uuids key v)) (fun next => do
      saveToFile s.cwd (s.paths.append d.path ((next.idOf key).getD [])) (v.encode s.doubles)
      pure next) fs with ⟨fault, after, failed, runs⟩ | ⟨next, after, done, runs⟩
  · obtain ⟨-, rfl⟩ := Prod.mk.inj failed
    rw [AppService.setIntern, runs]
    exact ⟨.rfl, rfl, fun _ success => (by cases success), fun _ success => by cases success⟩
  · obtain ⟨success, rfl⟩ := Prod.mk.inj done
    obtain ⟨path, id, named, filed, later⟩ := setIntern_spec success
    have plain : ok id := by
      rcases filed with before | fresh
      · exact ids key id before
      · rw [fresh]
        exact bounded.uuids _
    rw [AppService.setIntern, runs, named, Option.getD_some]
    have inside := @saveToFile_confined s.cwd root fs (s.paths.append d.path id)
      (v.encode s.doubles) (bounded.target id plain)
    have same := saveToFile_directories s.cwd (s.paths.append d.path id) (v.encode s.doubles) fs
    have kept : ∀ other filed, (other, some filed) ∈ next.index → ok filed := by
      intro other filed member
      rcases later other filed member with before | fresh
      · exact ids other filed before
      · rw [fresh]
        exact bounded.uuids _
    rcases DiskM.bind_cases (saveToFile s.cwd (s.paths.append d.path id) (v.encode s.doubles))
      (fun _ => pure next) fs with ⟨fault, after, failed, runs⟩ | ⟨_, after, saved, runs⟩
    · rw [runs]
      rw [failed] at inside same
      exact ⟨inside, same, fun _ success => (by cases success), fun _ success => by cases success⟩
    · rw [runs]
      rw [saved] at inside same
      refine ⟨inside, same, fun _ success => ?_, fun _ success => ?_⟩
      · cases success
        exact path
      · cases success
        exact kept

private theorem Bounded.moved {after : FileSystem} {path : Bytes}
    (bounded : Bounded s root ok path fs) (same : after.directories = fs.directories) :
    Bounded s root ok path after where
  uuids := bounded.uuids
  index := bounded.index
  target name plain := by
    rw [same]
    exact bounded.target name plain

private theorem setAll_keeps (entries : List (Bytes × Value Double))
    (bounded : Bounded s root ok d.path fs)
    (ids : ∀ key id, (key, some id) ∈ d.index → ok id) :
    Keeps root ok d.path fs (s.setAll d entries fs) := by
  induction entries generalizing d fs with
  | nil =>
      refine ⟨.rfl, rfl, fun _ success => ?_, fun _ success => ?_⟩
      · cases success
        rfl
      · cases success
        exact ids
  | cons entry rest ih =>
      obtain ⟨key, v⟩ := entry
      have first : Keeps root ok d.path fs (s.setIntern d key v fs) := setIntern_keeps bounded ids
      rcases DiskM.bind_cases (s.setIntern d key v) (fun d => s.setAll d rest) fs with
        ⟨fault, after, failed, runs⟩ | ⟨next, after, done, runs⟩
      · rw [setAll, runs]
        rw [failed] at first
        exact ⟨first.confined, first.directories, fun _ success => (by cases success),
          fun _ success => by cases success⟩
      · rw [setAll, runs]
        rw [done] at first
        have path := first.path next rfl
        have later := ih (path.symm ▸ bounded.moved first.directories) (first.ids next rfl)
        rw [path] at later
        exact ⟨first.confined.trans later.confined, later.directories.trans first.directories,
          later.path, later.ids⟩

/-- What an import changes is inside, and it fails where a directory prevents
that the index is saved. -/
private theorem importFrom_keeps (entries : List (Bytes × Value Double))
    (bounded : Bounded s root ok d.path fs)
    (ids : ∀ key id, (key, some id) ∈ d.index → ok id) :
    FileSystem.Confined root fs (s.importFrom d entries fs).2 ∧
      ∀ next, (s.importFrom d entries fs).1 = .ok next →
        fs.directories (locate s.cwd (s.paths.append d.path (ascii "index"))) = false := by
  have first := setAll_keeps entries bounded ids
  rcases DiskM.bind_cases (s.setAll d entries) (fun d => do
      DiskM.lift d.saveIndex
      saveToFile s.cwd (s.paths.append d.path (ascii "index"))
        ((Value.dict (indexDict d.index)).encode s.doubles)
      pure d) fs with ⟨fault, after, failed, runs⟩ | ⟨next, after, done, runs⟩
  · rw [AppService.importFrom, runs]
    rw [failed] at first
    exact ⟨first.confined, fun _ success => by cases success⟩
  · rw [AppService.importFrom, runs]
    rw [done] at first
    have path := first.path next rfl
    have target := (bounded.moved first.directories).target (ascii "index") bounded.index
    rw [← path] at target
    rcases DiskM.bind_cases (DiskM.lift next.saveIndex) (fun _ => do
        saveToFile s.cwd (s.paths.append next.path (ascii "index"))
          ((Value.dict (indexDict next.index)).encode s.doubles)
        pure next) after with ⟨fault, last, failed, runs⟩ | ⟨_, last, checked, runs⟩
    · obtain ⟨-, rfl⟩ := Prod.mk.inj failed
      rw [runs]
      exact ⟨first.confined, fun _ success => by cases success⟩
    · obtain ⟨-, rfl⟩ := Prod.mk.inj checked
      rw [runs]
      have inside := @saveToFile_confined s.cwd root after
        (s.paths.append next.path (ascii "index"))
        ((Value.dict (indexDict next.index)).encode s.doubles) target
      rcases saveToFile_cases s.cwd (s.paths.append next.path (ascii "index"))
        ((Value.dict (indexDict next.index)).encode s.doubles) after with
        ⟨fault, failed⟩ | ⟨free, saved⟩
      · rcases DiskM.bind_cases (saveToFile s.cwd (s.paths.append next.path (ascii "index"))
            ((Value.dict (indexDict next.index)).encode s.doubles)) (fun _ => pure next) after with
          ⟨_, last, failed', runs⟩ | ⟨_, last, saved, runs⟩
        · rw [runs]
          rw [failed'] at inside
          exact ⟨first.confined.trans inside, fun _ success => by cases success⟩
        · cases failed.symm.trans saved
      · rw [DiskM.bind_ok saved]
        rw [saved] at inside
        refine ⟨first.confined.trans inside, fun _ _ => ?_⟩
        rw [← first.directories, ← path]
        exact free

private theorem load_spec (s : AppService Double) (made : Nat) (path : Bytes) (fs : FileSystem) :
    (s.load made path fs).2 = fs ∧ ∀ d, (s.load made path fs).1 = .ok d →
      d.path = path ∧ ∃ content, s.readIndex content = .ok d.index ∧
        (content = none ∨ content = some ((fs.files (locate s.cwd
          (s.paths.append path (ascii "index")))).getD [])) := by
  rw [load, DiskM.lift_bind]
  split
  · cases there : fs.has s.cwd path with
    | false =>
        have absent : pathExists s.cwd path fs = (.ok false, fs) := by rw [pathExists, there]
        rw [DiskM.bind_ok absent]
        exact ⟨rfl, fun _ success => by cases success⟩
    | true =>
        have found : pathExists s.cwd path fs = (.ok true, fs) := by rw [pathExists, there]
        have loads : ∃ content, loadFromFile s.cwd (s.paths.append path (ascii "index")) fs =
            (.ok content, fs) ∧ (content = none ∨ content = some ((fs.files (locate s.cwd
              (s.paths.append path (ascii "index")))).getD [])) := by
          rw [loadFromFile]
          split
          · exact ⟨_, rfl, .inr rfl⟩
          · exact ⟨_, rfl, .inl rfl⟩
        obtain ⟨content, loaded, read⟩ := loads
        rw [DiskM.bind_ok found, if_pos rfl, DiskM.bind_ok loaded, DiskM.lift_bind]
        split
        · rename_i index entries
          refine ⟨rfl, fun d success => ?_⟩
          cases success
          exact ⟨rfl, content, entries, read⟩
        · exact ⟨rfl, fun _ success => by cases success⟩
  · exact ⟨rfl, fun _ success => by cases success⟩

/-- What the constructor of the app changes is inside, and there is an app only
if the index of its data could be saved. -/
private theorem newApp_keeps (made : Nat) {appDir : Bytes} (m : Message Double)
    (bounded : Bounded s root ok (s.getAppDataDir appDir) fs)
    (read : ∀ content index, content = none ∨ content = some ((fs.files (locate s.cwd
      (s.paths.append (s.getAppDataDir appDir) (ascii "index")))).getD []) →
        s.readIndex content = .ok index → ∀ key id, (key, some id) ∈ index → ok id) :
    FileSystem.Confined root fs (s.newApp made appDir m fs).2 ∧
      ∀ a, (s.newApp made appDir m fs).1 = .ok a → a.path = appDir ∧
        fs.directories (locate s.cwd (s.paths.append (s.getAppDataDir appDir) (ascii "index"))) =
          false := by
  have nothing (fault : Fault) (result : Outcome (App Double) × FileSystem)
      (failed : result = (.error fault, fs)) : FileSystem.Confined root fs result.2 ∧
        ∀ a, result.1 = .ok a → a.path = appDir ∧ fs.directories (locate s.cwd
          (s.paths.append (s.getAppDataDir appDir) (ascii "index"))) = false := by
    subst failed
    exact ⟨.rfl, fun _ success => by cases success⟩
  rw [newApp, DiskM.lift_bind]
  split
  · rw [DiskM.lift_bind]
    split
    · rw [DiskM.lift_bind]
      split
      · rw [DiskM.lift_bind]
        split
        · have loads := load_spec s made (s.getAppDataDir appDir) fs
          cases loaded : s.load made (s.getAppDataDir appDir) fs with
          | mk outcome after =>
              rw [loaded] at loads
              obtain ⟨rfl, loads⟩ := loads
              cases outcome with
              | error fault => exact nothing _ _ (DiskM.bind_error loaded)
              | ok d =>
                  obtain ⟨path, content, index, from'⟩ := loads d rfl
                  rw [DiskM.bind_ok loaded, DiskM.lift_bind]
                  split
                  · rename_i entries _
                    have imports := importFrom_keeps entries.1 (path.symm ▸ bounded)
                      (read content d.index from' index)
                    rw [path] at imports
                    cases imported : s.importFrom d entries.1 after with
                    | mk outcome last =>
                        rw [imported] at imports
                        cases outcome with
                        | error fault =>
                            rw [DiskM.bind_error imported]
                            exact ⟨imports.1, fun _ success => by cases success⟩
                        | ok d' =>
                            rw [DiskM.bind_ok imported]
                            split
                            · exact ⟨imports.1, fun _ success => by cases success⟩
                            · refine ⟨imports.1, fun a success => ?_⟩
                              cases success
                              exact ⟨rfl, imports.2 d' rfl⟩
                  · exact nothing _ _ rfl
        · exact nothing _ _ rfl
      · exact nothing _ _ rfl
    · exact nothing _ _ rfl
  · exact nothing _ _ rfl

end Store

section Inside

variable {s : AppService Double} {id : Bytes} {fs : FileSystem}

theorem Holds.directories (holds : s.Holds fs) {loc : Location} (has : s.HomeHas loc) :
    fs.directories loc = true := by
  obtain ⟨seen, member, below⟩ := has
  by_cases same : loc = seen
  · exact same ▸ holds.home seen member
  · exact holds.above loc seen below same (.inl (holds.home seen member))

private theorem setupTmpDir_run {m : Message Double} (named : extraString m "app_id" = .ok id)
    {outcome : Outcome Bool} {next : FileSystem}
    (created : createDirectory s.cwd (s.getAppDataDir (s.getAppDir s.tmpAppHome id)) fs =
      (outcome, next)) :
    s.setupTmpDir m s.tmpAppHome fs =
      (outcome.map fun _ => s.getAppDir s.tmpAppHome id, next) := by
  rw [setupTmpDir, DiskM.lift_bind, named]
  cases outcome with
  | error fault => exact DiskM.bind_error created
  | ok there => exact DiskM.bind_ok created

/-- The names under which the app may store files do not lead out of the home. -/
private theorem StaysHome.bounded (stays : s.StaysHome id) (holds : s.Holds fs)
    {next : FileSystem} (kept : ∀ loc, fs.directories loc = true → next.directories loc = true) :
    Bounded s s.root (fun name => 0 ∈ id ∨ FileName name)
      (s.getAppDataDir (s.getAppDir s.tmpAppHome id)) next where
  uuids n := .inr (s.uuidNames n)
  index := .inr fileName_index
  target name plain := by
    by_cases nul : 0 ∈ id
    · rw [s.paths.append_unseen s.cwd (s.getAppDataDir_ne_nil id) (s.nul_getAppDataDir.mpr nul)]
      rcases stays.way _ (locate_mem_visited _ _) with inside | has
      · exact .inr inside
      · exact .inl (kept _ (holds.directories has))
    · rw [s.paths.locate_append s.cwd (s.getAppDataDir_ne_nil id) (s.nul_getAppDataDir.not.mpr nul)
        (plain.resolve_left nul), s.locate_getAppDataDir nul, List.append_assoc]
      exact .inr ((stays.ends nul).trans (List.prefix_append ..))

/-- An index that the app may read names files that it may store. -/
private theorem StaysHome.reads (stays : s.StaysHome id) (holds : s.Holds fs)
    {content : Option Bytes} {index : List (Bytes × Option Bytes)}
    (from' : content = none ∨ content = some ((fs.files (locate s.cwd (s.paths.append
      (s.getAppDataDir (s.getAppDir s.tmpAppHome id)) (ascii "index")))).getD []))
    (read : s.readIndex content = .ok index) {key file : Bytes} (member : (key, some file) ∈ index) :
    0 ∈ id ∨ FileName file := by
  by_cases nul : 0 ∈ id
  · exact .inl nul
  · refine .inr ?_
    rcases from' with rfl | rfl
    · cases read
      cases member
    · rw [s.paths.locate_append s.cwd (s.getAppDataDir_ne_nil id)
        (s.nul_getAppDataDir.not.mpr nul) fileName_index, s.locate_getAppDataDir nul] at read
      have inside := (stays.ends nul).trans (List.prefix_append _ [ascii "data"])
      cases found : fs.files (locate s.cwd (s.getAppDir s.tmpAppHome id) ++ [ascii "data"] ++
          [ascii "index"]) with
      | none =>
          rw [found] at read
          cases read
          cases member
      | some content =>
          rw [found] at read
          exact holds.index _ content index inside found read key file member

private theorem destroyApp_confined {app : App Double} (home : s.root <+: locate s.cwd app.path)
    (later : FileSystem) : FileSystem.Confined s.root later
      (s.destroyApp { app with isTmp := true } later).2 := by
  rw [destroyApp, if_neg (by exact Bool.false_ne_true), DiskM.lift_bind]
  split
  · have deletes := deleteDirectory_confined home later
    cases deleted : deleteDirectory s.cwd app.path later with
    | mk outcome last =>
        rw [deleted] at deletes
        cases outcome with
        | error fault =>
            rw [DiskM.bind_error deleted]
            exact deletes
        | ok gone =>
            rw [DiskM.bind_ok deleted]
            exact deletes
  · exact .rfl

private theorem StaysHome.keepsOut (stays : s.StaysHome id) : s.KeepsOut id := by
  intro made m fs holds named
  have dataDir := s.getAppDataDir_ne_nil id
  have grows := @createDirectory_grows s.cwd _ dataDir fs
  have inside := grows.confined fun loc member =>
    (stays.way loc member).imp_right holds.directories
  cases created : createDirectory s.cwd (s.getAppDataDir (s.getAppDir s.tmpAppHome id)) fs with
  | mk outcome next =>
      rw [created] at grows inside
      have setup := setupTmpDir_run (s := s) named created
      cases outcome with
      | error fault =>
          rw [createApp, DiskM.bind_error setup]
          exact ⟨inside, fun _ success => by cases success⟩
      | ok there =>
          rw [createApp, DiskM.bind_ok setup]
          have keeps := newApp_keeps made m (stays.bounded holds grows.kept)
            fun content index from' read key file member =>
              stays.reads holds (grows.files ▸ from') read member
          cases built : s.newApp made (s.getAppDir s.tmpAppHome id) m next with
          | mk outcome last =>
              rw [built] at keeps
              cases outcome with
              | error fault =>
                  rw [DiskM.bind_error built]
                  exact ⟨inside.trans keeps.1, fun _ success => by cases success⟩
              | ok app =>
                  rw [DiskM.bind_ok built]
                  refine ⟨inside.trans keeps.1, fun a success later => ?_⟩
                  obtain ⟨path, free⟩ := keeps.2 app rfl
                  have home : s.root <+: locate s.cwd app.path := by
                    rw [path]
                    by_cases nul : 0 ∈ id
                    · -- The index is saved where the path ends before its NUL.
                      have cut := s.paths.append_unseen s.cwd (s.getAppDir_ne_nil id)
                        (s.nul_getAppDir.mpr nul) (ascii "data")
                      rw [s.paths.append_unseen s.cwd dataDir (s.nul_getAppDataDir.mpr nul)] at free
                      rw [← cut]
                      refine (stays.way _ (locate_mem_visited _ _)).resolve_right fun has => ?_
                      cases free.symm.trans (grows.kept _ (holds.directories has))
                    · exact stays.ends nul
                  cases success
                  exact destroyApp_confined home later

end Inside

section Outside

/-- A disk with the directories that the home is under, and nothing else. -/
def bareDisk (s : AppService Double) : FileSystem where
  directories loc := (startOf s.cwd s.home :: visited s.cwd s.home).any (loc.isPrefixOf ·)
  files _ := none

variable {s : AppService Double} {id : Bytes}

theorem bareDisk_directories {loc : Location} :
    s.bareDisk.directories loc = true ↔ s.HomeHas loc := by
  rw [bareDisk, List.any_eq_true]
  constructor
  · rintro ⟨seen, member, below⟩
    exact ⟨seen, member, List.isPrefixOf_iff_prefix.mp below⟩
  · rintro ⟨seen, member, below⟩
    exact ⟨seen, member, List.isPrefixOf_iff_prefix.mpr below⟩

theorem bareDisk_holds : s.Holds s.bareDisk where
  above loc below lower _ there := by
    rcases there with directory | file
    · obtain ⟨seen, member, under⟩ := bareDisk_directories.mp directory
      exact bareDisk_directories.mpr ⟨seen, member, lower.trans under⟩
    · cases file
  apart _ _ := rfl
  home seen member := bareDisk_directories.mpr ⟨seen, member, List.prefix_rfl⟩
  index _ _ _ _ file := by cases file

def bareMessage (id : Bytes) : Message Double where
  metadata := { extra := [(ascii "app_id", .bytes id)] }

private theorem KeepsOut.way (keeps : s.KeepsOut id) :
    ∀ loc ∈ visited s.cwd (s.getAppDataDir (s.getAppDir s.tmpAppHome id)),
      s.root <+: loc ∨ s.HomeHas loc := by
  intro loc member
  by_contra outside
  rw [not_or] at outside
  obtain ⟨⟨there, success⟩, all⟩ := @createDirectory_all s.cwd _ _
    (s.getAppDataDir_ne_nil id) (fun _ => rfl : ∀ loc, s.bareDisk.files loc = none)
  have named : extraString (bareMessage id : Message Double) "app_id" = .ok id := rfl
  have setup := setupTmpDir_run (s := s) named (Prod.ext success rfl :
    createDirectory s.cwd (s.getAppDataDir (s.getAppDir s.tmpAppHome id)) s.bareDisk = (_, _))
  have confined := (keeps 0 (bareMessage id) s.bareDisk bareDisk_holds named).1
  have made := confined.directories loc outside.1
  have untyped (fs : FileSystem) : (s.newApp 0 (s.getAppDir s.tmpAppHome id) (bareMessage id) fs) =
      (.error (.raised .require "m.meta.type == APP_MESSAGE"), fs) := rfl
  rw [createApp, DiskM.bind_ok setup, DiskM.bind_error (untyped _), all loc member] at made
  exact outside.2 (bareDisk_directories.mp made.symm)

/-- What is below a location and in the home is below a location in the home,
unless it is the home itself. -/
private theorem root_prefix_of_concat {loc : Location} {name : Bytes}
    (inside : s.root <+: loc ++ [name]) (other : name ≠ ascii "tmp") : s.root <+: loc := by
  rcases List.prefix_concat_iff.mp inside with same | below
  · rw [s.root_eq] at same
    have last := congrArg List.getLast? same
    rw [List.getLast?_concat, List.getLast?_concat] at last
    exact absurd (Option.some.inj last).symm other
  · exact below

/-- There is a uuid that no directory above the home has as its name. -/
private theorem fresh_uuid (s : AppService Double) (taken : List Bytes) :
    ∃ made, s.uuids.uuid made ∉ taken := by
  have injective : Function.Injective s.uuids.uuid := fun m n same => s.uuids.injective m n same
  obtain ⟨made, fresh⟩ :=
    Infinite.exists_notMem_finset (taken.toFinset.preimage s.uuids.uuid injective.injOn)
  rw [Finset.mem_preimage, List.mem_toFinset] at fresh
  exact ⟨made, fresh⟩

/-- A message with an app that stores one value. -/
def storingMessage (s : AppService Double) (id : Bytes) : Message Double where
  metadata := {
    type := ascii "app_message"
    extra := [(ascii "app_id", .bytes id), (ascii "app_name", .bytes []), (ascii "code", .bytes [])] }
  data := (Value.dict [(ascii "k", .empty)] : Value Double).encode s.doubles

private theorem storingMessage_data (s : AppService Double) (id : Bytes) :
    ∃ key after, readDict s.doubles { rest := (s.storingMessage id).data } =
      .ok ([(key, (.empty : Value Double))], after) := by
  have formed : (Value.dict [(ascii "k", (.empty : Value Double))]).Formed :=
    .dict (List.nodup_singleton _) (by simpa using (by decide : (ascii "k").length < 2 ^ 64))
      (by simpa using .empty)
  obtain ⟨after, read⟩ := @readDict_eq Double s.doubles [] 0 _ formed
  rw [List.append_nil] at read
  exact ⟨_, _, read⟩

/-- The store of a directory, with the index that was read. -/
theorem load_of_has {fs : FileSystem} {path : Bytes} (made : Nat) (nonempty : path ≠ [])
    (there : fs.has s.cwd path = true) {content : Option Bytes}
    {index : List (Bytes × Option Bytes)}
    (read : loadFromFile s.cwd (s.paths.append path (ascii "index")) fs = (.ok content, fs))
    (success : s.readIndex content = .ok index) :
    s.load made path fs = (.ok { path := path, index := index, made := made }, fs) := by
  have found : pathExists s.cwd path fs = (.ok true, fs) := by rw [pathExists, there]
  unfold load
  rw [DiskM.bind_ok (lift_require nonempty fs), DiskM.bind_ok found, if_pos rfl,
    DiskM.bind_ok read, DiskM.lift_bind, success]
  rfl

private theorem load_of_empty {fs : FileSystem} {path : Bytes} (made : Nat) (nonempty : path ≠ [])
    (there : fs.has s.cwd path = true) (none? : ∀ loc, fs.files loc = none) :
    s.load made path fs = (.ok { path := path, made := made }, fs) := by
  have loads : ∃ content, loadFromFile s.cwd (s.paths.append path (ascii "index")) fs =
      (.ok content, fs) ∧ s.readIndex content = .ok [] := by
    rw [loadFromFile, none?]
    split
    · exact ⟨_, rfl, rfl⟩
    · exact ⟨_, rfl, rfl⟩
  obtain ⟨content, loaded, empty⟩ := loads
  exact load_of_has made nonempty there loaded empty

private theorem importFrom_stores {fs : FileSystem} {path : Bytes} {made : Nat} (key : Bytes)
    (v : Value Double)
    (before : ∀ loc ∈ (visited s.cwd (s.paths.append path (s.uuids.uuid made))).dropLast,
      fs.directories loc = true)
    (free : fs.directories (locate s.cwd (s.paths.append path (s.uuids.uuid made))) = false) :
    ((s.importFrom { path := path, made := made } [(key, v)] fs).2.files
      (locate s.cwd (s.paths.append path (s.uuids.uuid made)))).isSome = true := by
  have named : (s.uuids.uuid made).isEmpty = false :=
    List.isEmpty_eq_false_iff.mpr (s.uuids.nonempty made)
  have filed : ∃ next, ({ path := path, made := made } : DiskStore Double).setIntern s.uuids key v =
      .ok next ∧ next.idOf key = some (s.uuids.uuid made) := by
    rw [DiskStore.setIntern]
    simp only [List.lookup_nil, pure_ok, ok_bind, named, Bool.not_false, check_true]
    refine ⟨_, rfl, ?_⟩
    change ((assign [] key (some (s.uuids.uuid made))).lookup key).join = _
    rw [lookup_assign_self]
    rfl
  obtain ⟨next, success, id⟩ := filed
  have path' : next.path = path := (setIntern_spec success).1
  have stored : s.setIntern { path := path, made := made } key v fs = (.ok next, { fs with
      files := Function.update fs.files (locate s.cwd (s.paths.append path (s.uuids.uuid made)))
        (some (v.encode s.doubles)) }) := by
    rw [AppService.setIntern, DiskM.lift_bind, success]
    simp only [id, Option.getD_some]
    exact DiskM.bind_ok (saveToFile_ok before free)
  have all : s.setAll { path := path, made := made } [(key, v)] fs = (.ok next, { fs with
      files := Function.update fs.files (locate s.cwd (s.paths.append path (s.uuids.uuid made)))
        (some (v.encode s.doubles)) }) := DiskM.bind_ok stored
  rw [importFrom, DiskM.bind_ok all, DiskM.lift_bind]
  split
  · rcases saveToFile_cases s.cwd (s.paths.append next.path (ascii "index"))
      ((Value.dict (indexDict next.index)).encode s.doubles) { fs with
        files := Function.update fs.files (locate s.cwd (s.paths.append path (s.uuids.uuid made)))
          (some (v.encode s.doubles)) } with ⟨fault, failed⟩ | ⟨-, saved⟩
    · rw [DiskM.bind_error failed]
      simp only [Function.update_self, Option.isSome_some]
    · rw [DiskM.bind_ok saved]
      refine (congrArg Option.isSome (Function.update_apply ..)).trans ?_
      split
      · rfl
      · simp only [Function.update_self, Option.isSome_some]
  · simp only [Function.update_self, Option.isSome_some]

private theorem newApp_stores (id : Bytes) {fs : FileSystem} {appDir : Bytes} {made : Nat}
    (nonempty : s.getAppDataDir appDir ≠ []) (there : fs.has s.cwd (s.getAppDataDir appDir) = true)
    (none? : ∀ loc, fs.files loc = none)
    (before : ∀ loc ∈ (visited s.cwd (s.paths.append (s.getAppDataDir appDir)
      (s.uuids.uuid made))).dropLast, fs.directories loc = true)
    (free : fs.directories (locate s.cwd (s.paths.append (s.getAppDataDir appDir)
      (s.uuids.uuid made))) = false) :
    ((s.newApp made appDir (s.storingMessage id) fs).2.files (locate s.cwd
      (s.paths.append (s.getAppDataDir appDir) (s.uuids.uuid made)))).isSome = true := by
  obtain ⟨key, after, read⟩ := storingMessage_data s id
  have loaded := load_of_empty made nonempty there none?
  have stores := importFrom_stores key (.empty : Value Double) before free
  have runs : s.newApp made appDir (s.storingMessage id) fs =
      (s.load made (s.getAppDataDir appDir) >>= fun data => do
        let entries ← DiskM.lift (readDict s.doubles { rest := (s.storingMessage id).data })
        let data ← s.importFrom data entries.1
        if id.isEmpty then
          DiskM.lift (.error (.thrown ("received app `" ++ bytesText [] ++ "' with empty id")))
        else
          pure {
            path := appDir
            id := id
            name := []
            code := []
            data := data }) fs := rfl
  rw [runs, DiskM.bind_ok loaded, DiskM.lift_bind, read]
  change (((s.importFrom _ [(key, .empty)] >>= _) fs).2.files _).isSome = true
  rw [DiskM.bind_state]
  · exact stores
  · intro data fs
    split
    · rfl
    · rfl

private theorem KeepsOut.ends (keeps : s.KeepsOut id) (noNul : 0 ∉ id) :
    s.root <+: locate s.cwd (s.getAppDir s.tmpAppHome id) := by
  by_contra outside
  obtain ⟨made, fresh⟩ := fresh_uuid s
    (ascii "tmp" :: (startOf s.cwd s.home :: visited s.cwd s.home).flatten)
  rw [List.mem_cons, not_or] at fresh
  have dataDir := s.getAppDataDir_ne_nil id
  have noNul' := s.nul_getAppDataDir.not.mpr noNul
  have plain := s.uuidNames made
  have target := s.paths.locate_append s.cwd dataDir noNul' plain
  have far : ¬s.root <+: locate s.cwd (s.getAppDataDir (s.getAppDir s.tmpAppHome id)) := by
    intro inside
    rw [s.locate_getAppDataDir noNul] at inside
    exact outside (root_prefix_of_concat inside (by decide))
  have farther : ¬s.root <+: locate s.cwd (s.paths.append
      (s.getAppDataDir (s.getAppDir s.tmpAppHome id)) (s.uuids.uuid made)) := by
    intro inside
    rw [target] at inside
    exact far (root_prefix_of_concat inside fresh.1)
  have apart : ¬s.HomeHas (locate s.cwd (s.paths.append
      (s.getAppDataDir (s.getAppDir s.tmpAppHome id)) (s.uuids.uuid made))) := by
    rintro ⟨seen, member, below⟩
    rw [target] at below
    exact fresh.2 (List.mem_flatten.mpr ⟨seen, member, below.subset (by simp)⟩)
  have none? : ∀ loc, s.bareDisk.files loc = none := fun _ => rfl
  obtain ⟨⟨there, success⟩, all⟩ := @createDirectory_all s.cwd _ _ dataDir none?
  have grows := @createDirectory_grows s.cwd _ dataDir s.bareDisk
  cases created : createDirectory s.cwd (s.getAppDataDir (s.getAppDir s.tmpAppHome id))
    s.bareDisk with
  | mk outcome next =>
      rw [created] at success all grows
      cases success
      have named : extraString (s.storingMessage id) "app_id" = .ok id := rfl
      have setup := setupTmpDir_run (s := s) named created
      have empty : ∀ loc, next.files loc = none := fun loc => (congrFun grows.files loc).trans rfl
      have has : next.has s.cwd (s.getAppDataDir (s.getAppDir s.tmpAppHome id)) = true := by
        refine has_of_directories ?_ all
        rw [cString_of_not_mem noNul']
        exact dataDir
      have before := fun loc member => all loc (s.paths.visited_append s.cwd dataDir noNul' plain member)
      have free : next.directories (locate s.cwd (s.paths.append
          (s.getAppDataDir (s.getAppDir s.tmpAppHome id)) (s.uuids.uuid made))) = false := by
        rw [Bool.eq_false_iff]
        intro directory
        rcases grows.only _ directory with bare | visit
        · exact apart (bareDisk_directories.mp bare)
        · rcases keeps.way _ visit with inside | has
          · exact farther inside
          · exact apart has
      have stored := newApp_stores id dataDir has empty before free
      have confined := (keeps made (s.storingMessage id) s.bareDisk bareDisk_holds named).1
      have same := confined.files _ farther
      have state : (s.createApp made (s.storingMessage id) s.bareDisk).2 =
          (s.newApp made (s.getAppDir s.tmpAppHome id) (s.storingMessage id) next).2 := by
        rw [createApp, DiskM.bind_ok setup]
        exact DiskM.bind_state (fun _ _ => rfl) next
      rw [state] at same
      rw [same] at stored
      cases stored

/-- What an app changes stays in the temporary home exactly for the ids that
do not lead out of it. -/
theorem keepsOut_iff_staysHome (s : AppService Double) (id : Bytes) :
    s.KeepsOut id ↔ s.StaysHome id :=
  ⟨fun keeps => ⟨keeps.way, keeps.ends⟩, StaysHome.keepsOut⟩

/-- `operator/`, as it is written. -/
def joined (p q : Bytes) : Bytes :=
  if q = [] then p
  else if q.head? = some slash then p ++ q
  else p ++ (if p = [] then [] else separator p) ++ q

def joinedPaths : Paths where
  append := joined
  empty p := if_pos rfl
  absolute p q absolute := by
    have some? : q ≠ [] := fun none? => by
      rw [none?] at absolute
      cases absolute
    rw [joined, if_neg some?, if_pos absolute]
  relative p q nonempty some? relative := by
    rw [joined, if_neg some?, if_neg relative, if_neg nonempty]

private theorem fileName_zeros (n : Nat) : FileName (zeros.uuid n) := by
  have bytes : ∀ byte ∈ zeros.uuid n, byte = 48 := fun byte member => List.eq_of_mem_replicate member
  have first : (zeros.uuid n).head? = some 48 := by
    cases n with
    | zero => rfl
    | succ n => rfl
  refine ⟨zeros.nonempty n, fun slashed => ?_, fun nul => ?_, fun dot => ?_, fun dots => ?_⟩
  · exact absurd (bytes _ slashed) (by decide)
  · exact absurd (bytes _ nul) (by decide)
  · rw [dot] at first
    exact absurd first (by decide)
  · rw [dots] at first
    exact absurd first (by decide)

/-- The service of a user with the home `/h`. -/
def shortHome : AppService Unit where
  paths := joinedPaths
  doubles := loneDouble
  uuids := zeros
  uuidNames := fileName_zeros
  cwd := []
  home := ascii "/h"
  nonempty := by decide
  noNul := by decide

def keptDisk : FileSystem where
  directories loc := loc ∈ [[], [ascii "h"], [ascii "h", ascii "x"]]
  files loc := if loc = [ascii "h", ascii "x", ascii "keep"] then some (ascii "k") else none

private theorem keptDisk_file {loc : Location} (file : (keptDisk.files loc).isSome = true) :
    loc = [ascii "h", ascii "x", ascii "keep"] := by
  by_contra other
  have none? : keptDisk.files loc = none := if_neg other
  rw [none?] at file
  cases file

theorem keptDisk_holds : shortHome.Holds keptDisk where
  above loc below lower apart there := by
    have known : below ∈ [[], [ascii "h"], [ascii "h", ascii "x"],
        [ascii "h", ascii "x", ascii "keep"]] := by
      rcases there with directory | file
      · exact List.mem_append_left [_] (of_decide_eq_true directory)
      · exact List.mem_append_right [[], [ascii "h"], [ascii "h", ascii "x"]]
          (List.mem_singleton.mpr (keptDisk_file file))
    have checked : ∀ below ∈ [[], [ascii "h"], [ascii "h", ascii "x"],
        [ascii "h", ascii "x", ascii "keep"]], ∀ loc ∈ below.inits, loc ≠ below →
          keptDisk.directories loc = true := by decide +kernel
    exact checked below known loc ((List.mem_inits _ _).mpr lower) apart
  apart loc directory := by
    have listed : loc ∈ [[], [ascii "h"], [ascii "h", ascii "x"]] := of_decide_eq_true directory
    have checked : ∀ loc ∈ [[], [ascii "h"], [ascii "h", ascii "x"]],
        keptDisk.files loc = none := by decide +kernel
    exact checked loc listed
  home := by decide +kernel
  index loc content entries inside file := by
    have last := congrArg List.getLast? (keptDisk_file (Option.isSome_of_eq_some file))
    rw [List.getLast?_concat] at last
    exact absurd last (by decide)

/-- The id `../x` leads beside the temporary home. A directory is made there, and
the end of the app deletes the file of the user. -/
theorem parent_app_deletes :
    shortHome.Holds keptDisk ∧ ¬shortHome.KeepsOut (ascii "../x") ∧
      keptDisk.directories [ascii "h", ascii "x", ascii "data"] = false ∧
      (shortHome.createApp 0 (shortHome.storingMessage (ascii "../x")) keptDisk).2.directories
        [ascii "h", ascii "x", ascii "data"] = true ∧
      keptDisk.files [ascii "h", ascii "x", ascii "keep"] = some (ascii "k") ∧
      ((shortHome.createApp 0 (shortHome.storingMessage (ascii "../x")) >>= shortHome.destroyApp)
        keptDisk).2.files [ascii "h", ascii "x", ascii "keep"] = none := by
  have made : (shortHome.createApp 0 (shortHome.storingMessage (ascii "../x")) keptDisk).2.directories
      [ascii "h", ascii "x", ascii "data"] = true := by decide +kernel
  have missing : keptDisk.directories [ascii "h", ascii "x", ascii "data"] = false := by decide
  have beside : ¬shortHome.root <+: [ascii "h", ascii "x", ascii "data"] := by decide +kernel
  refine ⟨keptDisk_holds, fun keeps => ?_, missing, made, by decide, by decide +kernel⟩
  have confined := (keeps 0 (shortHome.storingMessage (ascii "../x")) keptDisk keptDisk_holds rfl).1
  cases missing.symm.trans ((confined.directories _ beside).symm.trans made)

end Outside

end AppService

end Firestr.Gui
