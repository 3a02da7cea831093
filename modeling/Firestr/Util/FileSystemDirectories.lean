import Firestr.Util.FileSystemProperties

/-! Directories by their paths: the files in them, and what is there after a directory has been
removed and made again. -/

set_option autoImplicit false

namespace Firestr.Util

variable {cwd : Location} {fs : FileSystem} {p content : Bytes}

theorem FileSystem.reaches_dropLast {locs : List Location} (reaches : fs.reaches locs = true) :
    ∀ loc ∈ locs.dropLast, fs.directories loc = true := by
  induction locs with
  | nil =>
      intro loc member
      cases member
  | cons here rest ih =>
      cases rest with
      | nil =>
          intro loc member
          cases member
      | cons next rest =>
          rw [FileSystem.reaches, Bool.and_eq_true] at reaches
          intro loc member
          cases member with
          | head => exact reaches.1
          | tail _ later => exact ih reaches.2 loc later

theorem FileSystem.reaches_concat {locs : List Location} {last : Location}
    (before : ∀ loc ∈ locs, fs.directories loc = true) :
    fs.reaches (locs ++ [last]) = (fs.directories last || (fs.files last).isSome) := by
  induction locs with
  | nil => rfl
  | cons here rest ih =>
      have later := ih fun loc member => before loc (.tail _ member)
      cases rest with
      | nil =>
          rw [List.singleton_append, FileSystem.reaches, before here List.mem_cons_self,
            Bool.true_and]
          rfl
      | cons next rest =>
          rw [List.cons_append, List.cons_append, FileSystem.reaches,
            before here List.mem_cons_self, Bool.true_and]
          exact later

/-- A path without NUL that leads through directories alone. -/
structure FileSystem.Opens (fs : FileSystem) (cwd : Location) (p : Bytes) : Prop where
  nonempty : p ≠ []
  noNul : 0 ∉ p
  there : ∀ loc ∈ visited cwd p, fs.directories loc = true

theorem visited_eq_concat (cwd : Location) (p : Bytes) :
    ∃ way, visited cwd p = way ++ [locate cwd p] := by
  obtain ⟨before, last, same⟩ := List.eq_nil_or_concat (names p) |>.resolve_left (names_ne_nil p)
  refine ⟨visits (startOf cwd p) before, ?_⟩
  rw [List.concat_eq_append] at same
  rw [visited, locate, same, visits_append, List.foldl_append]
  rfl

section Opens

variable {paths : Paths} {name : Bytes}

theorem mem_visited_cases (nonempty : p ≠ []) (noNul : 0 ∉ p) (plain : FileName name)
    {loc : Location} (member : loc ∈ visited cwd (paths.append p name)) :
    loc ∈ visited cwd p ∨ loc = locate cwd p ++ [name] := by
  obtain ⟨way, same⟩ := visited_eq_concat cwd (paths.append p name)
  have before := (paths.mem_visited_append cwd nonempty noNul plain loc).mp
  rw [same, List.dropLast_concat] at before
  rw [same, List.mem_append, paths.locate_append cwd nonempty noNul plain] at member
  exact member.imp before List.mem_singleton.mp

theorem noNul_append (nonempty : p ≠ []) (noNul : 0 ∉ p) (plain : FileName name) :
    0 ∉ paths.append p name := by
  rw [paths.append_eq nonempty plain, List.mem_append, List.mem_append, separator]
  rintro ((inside | inside) | inside)
  · exact noNul inside
  · split at inside
    · cases inside
    · cases List.mem_singleton.mp inside
  · exact plain.noNul inside

theorem FileSystem.Opens.has (opens : fs.Opens cwd p) : fs.has cwd p = true := by
  refine has_of_directories ?_ opens.there
  rw [cString_of_not_mem opens.noNul]
  exact opens.nonempty

theorem FileSystem.Opens.has_append (opens : fs.Opens cwd p) (plain : FileName name) :
    fs.has cwd (paths.append p name) = (fs.directories (locate cwd p ++ [name]) ||
      (fs.files (locate cwd p ++ [name])).isSome) := by
  obtain ⟨way, same⟩ := visited_eq_concat cwd (paths.append p name)
  have before : ∀ loc ∈ way, fs.directories loc = true := by
    intro loc member
    refine opens.there loc ((paths.mem_visited_append cwd opens.nonempty opens.noNul plain loc).mp ?_)
    rw [same, List.dropLast_concat]
    exact member
  rw [FileSystem.has, cString_of_not_mem (noNul_append opens.nonempty opens.noNul plain), same,
    FileSystem.reaches_concat before, paths.locate_append cwd opens.nonempty opens.noNul plain,
    List.isEmpty_eq_false_iff.mpr (paths.append_ne_nil opens.nonempty name), Bool.not_false,
    Bool.true_and]

theorem FileSystem.Opens.save (opens : fs.Opens cwd p) (plain : FileName name)
    (free : fs.directories (locate cwd p ++ [name]) = false) :
    saveToFile cwd (paths.append p name) content fs = (.ok (), { fs with
      files := Function.update fs.files (locate cwd p ++ [name]) (some content) }) := by
  have here := paths.locate_append cwd opens.nonempty opens.noNul plain
  rw [← here] at free ⊢
  exact saveToFile_ok (fun loc member => opens.there loc
    (paths.visited_append cwd opens.nonempty opens.noNul plain member)) free

theorem FileSystem.Opens.load (opens : fs.Opens cwd p) (plain : FileName name)
    (file : fs.files (locate cwd p ++ [name]) = some content) :
    loadFromFile cwd (paths.append p name) fs = (.ok (some content), fs) := by
  rw [loadFromFile, opens.has_append plain, file,
    paths.locate_append cwd opens.nonempty opens.noNul plain, file, Option.isSome_some,
    Bool.or_true, if_pos rfl, Option.getD_some]

/-- Where there is no file, or no way to it, nothing is read. -/
theorem loadFromFile_lost (nonempty : p ≠ []) (noNul : 0 ∉ p) (plain : FileName name)
    (lost : fs.files (locate cwd p ++ [name]) = none ∨
      ∃ loc ∈ visited cwd p, fs.directories loc = false) :
    ∃ content, loadFromFile cwd (paths.append p name) fs = (.ok content, fs) ∧
      (content = none ∨ content = some []) := by
  rw [loadFromFile, paths.locate_append cwd nonempty noNul plain]
  split
  · rename_i there
    rcases lost with none? | ⟨loc, member, missing⟩
    · exact ⟨_, rfl, .inr (by rw [none?, Option.getD_none])⟩
    · rw [FileSystem.has, Bool.and_eq_true] at there
      have directory := FileSystem.reaches_dropLast there.2 loc
        ((paths.mem_visited_append cwd nonempty noNul plain loc).mpr member)
      cases missing.symm.trans directory
  · exact ⟨_, rfl, .inl rfl⟩

end Opens

def FileSystem.withDirectories (fs : FileSystem) (locs : List Location) : FileSystem :=
  { fs with directories := fun loc => fs.directories loc || decide (loc ∈ locs) }

@[simp] theorem FileSystem.withDirectories_directories (fs : FileSystem) (locs : List Location)
    (loc : Location) :
    (fs.withDirectories locs).directories loc = (fs.directories loc || decide (loc ∈ locs)) := rfl

theorem FileSystem.has_withDirectories (nonempty : p ≠ []) (noNul : 0 ∉ p) :
    (fs.withDirectories (visited cwd p)).has cwd p = true := by
  refine has_of_directories ?_ fun loc member => ?_
  · rw [cString_of_not_mem noNul]
    exact nonempty
  · rw [withDirectories_directories, decide_eq_true member, Bool.or_true]

/-- Directories are made where there is one already, or no file. -/
theorem makeDirectories_ok {locs : List Location}
    (room : ∀ loc ∈ locs, fs.directories loc = true ∨ fs.files loc = none) :
    makeDirectories locs fs = (.ok (), fs.withDirectories locs) := by
  induction locs generalizing fs with
  | nil =>
      have same : fs.withDirectories [] = fs := by simp [FileSystem.withDirectories]
      rw [same]
      rfl
  | cons here rest ih =>
      have first : makeDirectory here fs = (.ok (), fs.withDirectories [here]) := by
        rw [makeDirectory]
        split
        · rename_i there
          have same : fs.withDirectories [here] = fs := by
            have kept : (fun loc => fs.directories loc || decide (loc ∈ [here])) =
                fs.directories := by
              funext loc
              by_cases same : loc = here
              · simp [same, there]
              · simp [same]
            rw [FileSystem.withDirectories, kept]
          rw [same]
        · rename_i missing
          have none? : fs.files here = none := (room here List.mem_cons_self).resolve_left missing
          have made : Function.update fs.directories here true =
              fun loc => fs.directories loc || decide (loc ∈ [here]) := by
            funext loc
            by_cases same : loc = here
            · simp [same]
            · simp [same]
          rw [none?, made]
          rfl
      have later := @ih (fs.withDirectories [here]) fun loc member => by
        refine (room loc (.tail _ member)).imp_left fun there => ?_
        rw [FileSystem.withDirectories_directories, there, Bool.true_or]
      have all : (fs.withDirectories [here]).withDirectories rest =
          fs.withDirectories (here :: rest) := by
        unfold FileSystem.withDirectories
        congr 1
        funext loc
        rw [Bool.or_assoc]
        congr 1
        simp [List.mem_cons]
      rw [makeDirectories, DiskM.bind_ok first, later, all]

/-- The directories of a path are made if it is not there. -/
theorem createDirectory_made (nonempty : p ≠ []) (noNul : 0 ∉ p) (missing : fs.has cwd p = false)
    (room : ∀ loc ∈ visited cwd p, fs.directories loc = true ∨ fs.files loc = none) :
    createDirectory cwd p fs = (.ok true, fs.withDirectories (visited cwd p)) := by
  rw [createDirectory_of_not_has nonempty missing, DiskM.bind_ok (makeDirectories_ok room),
    pathExists, FileSystem.has_withDirectories nonempty noNul]

/-- What is there when a directory has been removed with all that is in it, and the way to it
has been made again. -/
def FileSystem.cleared (fs : FileSystem) (directory : Location) (way : List Location) :
    FileSystem where
  directories loc := (fs.directories loc && !directory.isPrefixOf loc) || decide (loc ∈ way)
  files loc := if directory.isPrefixOf loc then none else fs.files loc

theorem deleteDirectory_of_has (nonempty : p ≠ []) (there : fs.has cwd p = true) :
    ∃ gone, deleteDirectory cwd p fs = (.ok gone, (removeAll cwd p fs).2) := by
  have found : pathExists cwd p fs = (.ok true, fs) := by rw [pathExists, there]
  rw [deleteDirectory, DiskM.bind_ok (lift_require nonempty fs), DiskM.bind_ok found]
  exact ⟨_, rfl⟩

section Cleared

variable {paths : Paths} {name : Bytes}

/-- A directory in an open one is there after `create_directory`, or a file in its place. -/
theorem createDirectory_append (opens : fs.Opens cwd p) (plain : FileName name) :
    ∃ there made, createDirectory cwd (paths.append p name) fs = (.ok there, made) ∧
      made.files = fs.files ∧ made.has cwd (paths.append p name) = true ∧
      ∀ loc, loc ≠ locate cwd p ++ [name] → made.directories loc = fs.directories loc := by
  have nonempty := paths.append_ne_nil opens.nonempty name
  have noNul := @noNul_append _ paths _ opens.nonempty opens.noNul plain
  cases there : fs.has cwd (paths.append p name) with
  | true => exact ⟨true, fs, createDirectory_of_has nonempty there, rfl, there, fun _ _ => rfl⟩
  | false =>
      have absent := there
      rw [opens.has_append plain, Bool.or_eq_false_iff] at absent
      have room : ∀ loc ∈ visited cwd (paths.append p name),
          fs.directories loc = true ∨ fs.files loc = none := by
        intro loc member
        rcases mem_visited_cases opens.nonempty opens.noNul plain member with inside | last
        · exact .inl (opens.there loc inside)
        · rw [last]
          exact .inr (Option.not_isSome_iff_eq_none.mp (Bool.eq_false_iff.mp absent.2))
      refine ⟨true, fs.withDirectories (visited cwd (paths.append p name)),
        createDirectory_made nonempty noNul there room, rfl,
        FileSystem.has_withDirectories nonempty noNul, ?_⟩
      intro loc other
      by_cases member : loc ∈ visited cwd (paths.append p name)
      · rcases mem_visited_cases opens.nonempty opens.noNul plain member with inside | last
        · simp [opens.there loc inside]
        · exact absurd last other
      · simp [member]

/-- A directory in an open one is removed and made again. -/
theorem clear_append (opens : fs.Opens cwd p) (plain : FileName name) :
    ∃ there gone again made removed,
      createDirectory cwd (paths.append p name) fs = (.ok there, made) ∧
      deleteDirectory cwd (paths.append p name) made = (.ok gone, removed) ∧
      createDirectory cwd (paths.append p name) removed = (.ok again,
        fs.cleared (locate cwd p ++ [name]) (visited cwd (paths.append p name))) := by
  have nonempty := paths.append_ne_nil opens.nonempty name
  have noNul := @noNul_append _ paths _ opens.nonempty opens.noNul plain
  have here := paths.locate_append cwd opens.nonempty opens.noNul plain
  obtain ⟨there, made, created, files, has, others⟩ := @createDirectory_append _ _ _ paths _ opens plain
  obtain ⟨gone, deleted⟩ := deleteDirectory_of_has nonempty has
  have directories : ∀ loc, (removeAll cwd (paths.append p name) made).2.directories loc =
      (fs.directories loc && !(locate cwd p ++ [name]).isPrefixOf loc) := by
    intro loc
    change (made.directories loc && !(locate cwd (paths.append p name)).isPrefixOf loc) = _
    rw [here]
    by_cases same : loc = locate cwd p ++ [name]
    · rw [same, List.isPrefixOf_iff_prefix.mpr (List.prefix_refl _), Bool.not_true, Bool.and_false,
        Bool.and_false]
    · rw [others loc same]
  have files : ∀ loc, (removeAll cwd (paths.append p name) made).2.files loc =
      if (locate cwd p ++ [name]).isPrefixOf loc then none else fs.files loc := by
    intro loc
    change (if (locate cwd (paths.append p name)).isPrefixOf loc then none else made.files loc) = _
    rw [here, files]
  have self : (locate cwd p ++ [name]).isPrefixOf (locate cwd p ++ [name]) = true :=
    List.isPrefixOf_iff_prefix.mpr (List.prefix_refl _)
  have missing : (removeAll cwd (paths.append p name) made).2.has cwd (paths.append p name) =
      false := by
    rw [Bool.eq_false_iff]
    intro still
    have last := visited_of_has still _ (locate_mem_visited cwd (paths.append p name))
    rw [here, directories, files, self] at last
    simp at last
  have room : ∀ loc ∈ visited cwd (paths.append p name),
      (removeAll cwd (paths.append p name) made).2.directories loc = true ∨
        (removeAll cwd (paths.append p name) made).2.files loc = none := by
    intro loc member
    rw [directories, files]
    cases below : (locate cwd p ++ [name]).isPrefixOf loc with
    | true => exact .inr rfl
    | false =>
        rcases mem_visited_cases opens.nonempty opens.noNul plain member with inside | last
        · exact .inl (by rw [opens.there loc inside]; rfl)
        · rw [last] at below
          cases below.symm.trans self
  refine ⟨there, gone, true, made, _, created, deleted, ?_⟩
  rw [createDirectory_made nonempty noNul missing room]
  congr 1
  refine congrArg₂ FileSystem.mk (funext fun loc => ?_) (funext fun loc => files loc)
  rw [directories]

section

variable {directory loc : Location} {way : List Location}

theorem FileSystem.cleared_directories_of_below (below : directory <+: loc) :
    (fs.cleared directory way).directories loc = decide (loc ∈ way) := by
  change ((fs.directories loc && !directory.isPrefixOf loc) || decide (loc ∈ way)) = _
  rw [List.isPrefixOf_iff_prefix.mpr below, Bool.not_true, Bool.and_false, Bool.false_or]

theorem FileSystem.cleared_files_of_not_below (outside : ¬ directory <+: loc) :
    (fs.cleared directory way).files loc = fs.files loc :=
  if_neg fun below => outside (List.isPrefixOf_iff_prefix.mp below)

theorem FileSystem.cleared_files_of_below (below : directory <+: loc) :
    (fs.cleared directory way).files loc = none :=
  if_pos (List.isPrefixOf_iff_prefix.mpr below)

/-- What is below the directory on the way to it is made again. -/
theorem FileSystem.Opens.cleared (opens : fs.Opens cwd p)
    (spared : ∀ loc ∈ visited cwd p, directory <+: loc → loc ∈ way) :
    (fs.cleared directory way).Opens cwd p where
  nonempty := opens.nonempty
  noNul := opens.noNul
  there loc member := by
    by_cases below : directory <+: loc
    · rw [cleared_directories_of_below below]
      exact decide_eq_true (spared loc member below)
    · change ((fs.directories loc && !directory.isPrefixOf loc) || decide (loc ∈ way)) = _
      have outside : directory.isPrefixOf loc = false :=
        Bool.eq_false_iff.mpr fun prefix? => below (List.isPrefixOf_iff_prefix.mp prefix?)
      rw [opens.there loc member, outside]
      rfl

end

theorem FileSystem.Opens.cleared_append (opens : fs.Opens cwd p) (plain : FileName name) :
    (fs.cleared (locate cwd p ++ [name]) (visited cwd (paths.append p name))).Opens cwd
      (paths.append p name) where
  nonempty := paths.append_ne_nil opens.nonempty name
  noNul := noNul_append opens.nonempty opens.noNul plain
  there _ member := Bool.or_eq_true_iff.mpr (.inr (decide_eq_true member))

end Cleared

end Firestr.Util
