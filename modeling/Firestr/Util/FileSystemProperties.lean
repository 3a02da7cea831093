import Firestr.Util.FileSystem

/-! Which locations a path leads through when a name is appended to it, and what
the operations on the file system change. -/

set_option autoImplicit false

namespace Firestr.Util

section Names

variable {p q name : Bytes}

theorem cString_append (noNul : 0 ∉ p) : cString (p ++ q) = p ++ cString q := by
  induction p with
  | nil => rfl
  | cons byte p ih =>
      rw [List.mem_cons, not_or] at noNul
      rw [List.cons_append, cString, List.takeWhile_cons, if_pos (decide_eq_true (Ne.symm noNul.1))]
      exact congrArg (byte :: ·) (ih noNul.2)

theorem cString_of_not_mem (noNul : 0 ∉ p) : cString p = p := by
  have whole := cString_append (q := []) noNul
  rwa [List.append_nil, show cString [] = [] from rfl, List.append_nil] at whole

theorem cString_append_of_mem (nul : 0 ∈ p) : cString (p ++ q) = cString p := by
  induction p with
  | nil => cases nul
  | cons byte p ih =>
      rw [List.cons_append, cString, cString, List.takeWhile_cons, List.takeWhile_cons]
      split
      · rename_i other
        have later : 0 ∈ p := by
          cases nul with
          | head => simp at other
          | tail _ later => exact later
        exact congrArg (byte :: ·) (ih later)
      · rfl

theorem names_append (noNul : 0 ∉ p) : names (p ++ slash :: q) = names p ++ names q := by
  have cut : cString (slash :: q) = slash :: cString q :=
    List.takeWhile_cons_of_pos (by decide)
  rw [names, cString_append noNul, cut, names, names, cString_of_not_mem noNul]
  exact List.splitOnP_append_cons _ _ (beq_self_eq_true slash)

theorem names_fileName (plain : FileName name) : names name = [name] := by
  rw [names, cString_of_not_mem plain.noNul]
  refine List.splitOnP_eq_singleton fun byte member => ?_
  exact beq_eq_false_iff_ne.mpr fun same => plain.noSlash (same ▸ member)

theorem enter_fileName (plain : FileName name) (here : Location) :
    enter here name = here ++ [name] := by
  rw [enter, if_neg, if_neg plain.noDots.2]
  exact not_or.mpr ⟨plain.nonempty, plain.noDots.1⟩

theorem visits_append (here : Location) (first second : List Bytes) :
    visits here (first ++ second) = visits here first ++ visits (first.foldl enter here) second := by
  induction first generalizing here with
  | nil => rfl
  | cons name rest ih => exact congrArg (enter here name :: ·) (ih (enter here name))

theorem foldl_enter_mem_visits (here : Location) {list : List Bytes} (some? : list ≠ []) :
    list.foldl enter here ∈ visits here list := by
  induction list generalizing here with
  | nil => exact absurd rfl some?
  | cons name rest ih =>
      cases rest with
      | nil => exact List.mem_cons_self
      | cons next rest => exact List.mem_cons_of_mem _ (ih _ (List.cons_ne_nil _ _))

theorem names_ne_nil (p : Bytes) : names p ≠ [] := List.splitOnP_ne_nil _ _

theorem locate_mem_visited (cwd : Location) (p : Bytes) : locate cwd p ∈ visited cwd p :=
  foldl_enter_mem_visits _ (names_ne_nil p)

end Names

namespace Paths

variable (paths : Paths) (cwd : Location) {p name : Bytes}

/-- A path stays in front of what is appended to it. -/
theorem append_eq_append (nonempty : p ≠ []) (q : Bytes) :
    ∃ rest, paths.append p q = p ++ rest ∧ ∀ byte, byte ∈ rest → byte = slash ∨ byte ∈ q := by
  by_cases none? : q = []
  · exact ⟨[], by rw [none?, paths.empty, List.append_nil], fun _ member => by cases member⟩
  · by_cases absolute : q.head? = some slash
    · exact ⟨q, paths.absolute p q absolute, fun _ member => .inr member⟩
    · refine ⟨separator p ++ q, ?_, fun byte member => ?_⟩
      · rw [paths.relative p q nonempty none? absolute, List.append_assoc]
      · rcases List.mem_append.mp member with first | second
        · rw [separator] at first
          split at first
          · cases first
          · exact .inl (List.mem_singleton.mp first)
        · exact .inr second

theorem mem_append (nonempty : p ≠ []) {q : Bytes} {byte : UInt8} (member : byte ∈ q) :
    byte ∈ paths.append p q := by
  by_cases absolute : q.head? = some slash
  · rw [paths.absolute p q absolute]
    exact List.mem_append_right _ member
  · rw [paths.relative p q nonempty (List.ne_nil_of_mem member) absolute]
    exact List.mem_append_right _ member

theorem append_ne_nil (nonempty : p ≠ []) (q : Bytes) : paths.append p q ≠ [] := by
  obtain ⟨rest, same, -⟩ := paths.append_eq_append nonempty q
  rw [same]
  exact List.append_ne_nil_of_left_ne_nil nonempty _

theorem append_eq (nonempty : p ≠ []) (plain : FileName name) :
    paths.append p name = p ++ separator p ++ name := by
  refine paths.relative p name nonempty plain.nonempty fun absolute => ?_
  exact plain.noSlash (List.mem_of_mem_head? absolute)

private theorem startOf_append {rest : Bytes} (nonempty : p ≠ []) :
    startOf cwd (p ++ rest) = startOf cwd p := by
  rw [startOf, startOf, List.head?_append_of_ne_nil _ nonempty]

private theorem names_append_name (nonempty : p ≠ []) (noNul : 0 ∉ p) (plain : FileName name) :
    ∃ start, start ≠ [] ∧ (names p = start ∨ names p = start ++ [[]]) ∧
      names (paths.append p name) = start ++ [name] := by
  rw [paths.append_eq nonempty plain, separator]
  split
  · rename_i ends
    obtain ⟨before, rfl⟩ : ∃ before, p = before ++ [slash] :=
      ⟨p.dropLast, (List.dropLast_append_getLast? _ ends).symm⟩
    have noNul' : 0 ∉ before := fun member => noNul (List.mem_append_left _ member)
    refine ⟨names before, names_ne_nil before, .inr ?_, ?_⟩
    · exact names_append noNul'
    · rw [List.append_nil, List.append_assoc]
      exact (names_append noNul').trans (congrArg (names before ++ ·) (names_fileName plain))
  · refine ⟨names p, names_ne_nil p, .inl rfl, ?_⟩
    rw [List.append_assoc]
    exact (names_append noNul).trans (congrArg (names p ++ ·) (names_fileName plain))

/-- A path with a name appended names the location below. -/
theorem locate_append (nonempty : p ≠ []) (noNul : 0 ∉ p) (plain : FileName name) :
    locate cwd (paths.append p name) = locate cwd p ++ [name] := by
  obtain ⟨start, -, before, after⟩ := paths.names_append_name nonempty noNul plain
  have from' : startOf cwd (paths.append p name) = startOf cwd p := by
    rw [paths.append_eq nonempty plain, List.append_assoc, startOf_append cwd nonempty]
  have ends : locate cwd p = start.foldl enter (startOf cwd p) := by
    rcases before with same | same
    · rw [locate, same]
    · rw [locate, same, List.foldl_append]
      rfl
  rw [locate, after, from', List.foldl_append, ← ends]
  exact enter_fileName plain _

/-- Before the name the path leads through the locations of the path. -/
theorem mem_visited_append (nonempty : p ≠ []) (noNul : 0 ∉ p) (plain : FileName name)
    (loc : Location) :
    loc ∈ (visited cwd (paths.append p name)).dropLast ↔ loc ∈ visited cwd p := by
  obtain ⟨start, some?, before, after⟩ := paths.names_append_name nonempty noNul plain
  have from' : startOf cwd (paths.append p name) = startOf cwd p := by
    rw [paths.append_eq nonempty plain, List.append_assoc, startOf_append cwd nonempty]
  have last : (visited cwd (paths.append p name)).dropLast = visits (startOf cwd p) start := by
    rw [visited, after, from', visits_append]
    exact List.dropLast_concat ..
  rw [last, visited]
  rcases before with same | same
  · rw [same]
  · rw [same, visits_append, List.mem_append]
    constructor
    · exact .inl
    · intro member
      rcases member with inside | last
      · exact inside
      · rw [List.mem_singleton.mp last]
        exact foldl_enter_mem_visits _ some?

theorem visited_append (nonempty : p ≠ []) (noNul : 0 ∉ p) (plain : FileName name) :
    (visited cwd (paths.append p name)).dropLast ⊆ visited cwd p :=
  fun loc => (paths.mem_visited_append cwd nonempty noNul plain loc).mp

/-- What is appended after a NUL is not seen. -/
theorem append_unseen (nonempty : p ≠ []) (nul : 0 ∈ p) (q : Bytes) :
    locate cwd (paths.append p q) = locate cwd p := by
  obtain ⟨rest, same, -⟩ := paths.append_eq_append nonempty q
  rw [same, locate, names, cString_append_of_mem nul, startOf_append cwd nonempty]
  rfl

end Paths

namespace FileSystem

/-- Outside of a directory everything is as it was. -/
structure Confined (root : Location) (fs next : FileSystem) : Prop where
  directories : ∀ loc, ¬root <+: loc → next.directories loc = fs.directories loc
  files : ∀ loc, ¬root <+: loc → next.files loc = fs.files loc

/-- Only directories have come, at some of the locations. -/
structure Grows (locs : List Location) (fs next : FileSystem) : Prop where
  files : next.files = fs.files
  kept : ∀ loc, fs.directories loc = true → next.directories loc = true
  only : ∀ loc, next.directories loc = true → fs.directories loc = true ∨ loc ∈ locs

variable {root : Location} {fs between next : FileSystem} {locs : List Location}

theorem Confined.rfl : Confined root fs fs := ⟨fun _ _ => .refl _, fun _ _ => .refl _⟩

theorem Confined.trans (first : Confined root fs between) (second : Confined root between next) :
    Confined root fs next where
  directories loc outside := (second.directories loc outside).trans (first.directories loc outside)
  files loc outside := (second.files loc outside).trans (first.files loc outside)

theorem Grows.rfl : Grows locs fs fs := ⟨.refl _, fun _ there => there, fun _ there => .inl there⟩

/-- New directories inside leave the outside as it was. -/
theorem Grows.confined (grows : Grows locs fs next)
    (inside : ∀ loc ∈ locs, root <+: loc ∨ fs.directories loc = true) : Confined root fs next where
  directories loc outside := by
    rw [Bool.eq_iff_iff]
    refine ⟨fun there => ?_, grows.kept loc⟩
    rcases grows.only loc there with before | made
    · exact before
    · exact (inside loc made).resolve_left outside
  files loc _ := congrFun grows.files loc

theorem reaches_of_directories (some? : locs ≠ [])
    (there : ∀ loc ∈ locs, fs.directories loc = true) : fs.reaches locs = true := by
  induction locs with
  | nil => exact absurd (.refl _) some?
  | cons here rest ih =>
      cases rest with
      | nil =>
          rw [reaches, there here List.mem_cons_self]
          exact Bool.true_or _
      | cons next rest =>
          rw [reaches, there here List.mem_cons_self]
          exact ih (List.cons_ne_nil _ _) fun loc member => there loc (.tail _ member)

theorem there_of_reaches (reaches : fs.reaches locs = true) :
    ∀ loc ∈ locs, fs.directories loc = true ∨ (fs.files loc).isSome = true := by
  induction locs with
  | nil => exact fun loc member => by cases member
  | cons here rest ih =>
      cases rest with
      | nil =>
          intro loc member
          cases List.mem_singleton.mp member
          exact (Bool.or_eq_true _ _).mp reaches
      | cons next rest =>
          rw [FileSystem.reaches, Bool.and_eq_true] at reaches
          intro loc member
          cases member with
          | head => exact .inl reaches.1
          | tail _ later => exact ih reaches.2 loc later

end FileSystem

section Operations

variable {Value Result : Type} {cwd root : Location} {fs next : FileSystem} {p content : Bytes}

/-- A computation ends in its first part with a fault, or goes on in the second. -/
theorem DiskM.bind_cases (x : DiskM Value) (rest : Value → DiskM Result) (fs : FileSystem) :
    (∃ fault next, x fs = (.error fault, next) ∧ (x >>= rest) fs = (.error fault, next)) ∨
      ∃ v next, x fs = (.ok v, next) ∧ (x >>= rest) fs = rest v next := by
  cases result : x fs with
  | mk outcome next =>
      cases outcome with
      | error fault =>
          refine .inl ⟨fault, next, rfl, ?_⟩
          simp only [bind, result]
      | ok v =>
          refine .inr ⟨v, next, rfl, ?_⟩
          simp only [bind, result]

theorem DiskM.bind_ok {x : DiskM Value} {rest : Value → DiskM Result} {v : Value}
    (success : x fs = (.ok v, next)) : (x >>= rest) fs = rest v next := by
  rcases bind_cases x rest fs with ⟨fault, other, failed, -⟩ | ⟨w, other, done, runs⟩
  · cases success.symm.trans failed
  · cases success.symm.trans done
    exact runs

theorem DiskM.bind_error {x : DiskM Value} {rest : Value → DiskM Result} {fault : Fault}
    (failure : x fs = (.error fault, next)) : (x >>= rest) fs = (.error fault, next) := by
  rcases bind_cases x rest fs with ⟨other, after, failed, runs⟩ | ⟨w, after, done, -⟩
  · cases failure.symm.trans failed
    exact runs
  · cases failure.symm.trans done

/-- What only returns a value leaves the state of the first part. -/
theorem DiskM.bind_state {x : DiskM Value} {rest : Value → DiskM Result}
    (quiet : ∀ v fs, (rest v fs).2 = fs) (fs : FileSystem) :
    ((x >>= rest) fs).2 = (x fs).2 := by
  rcases bind_cases x rest fs with ⟨fault, next, failed, runs⟩ | ⟨v, next, done, runs⟩
  · rw [runs, failed]
  · rw [runs, done, quiet]

theorem DiskM.lift_bind (outcome : Outcome Value) (rest : Value → DiskM Result)
    (fs : FileSystem) : (DiskM.lift outcome >>= rest) fs =
      match outcome with
      | .ok v => rest v fs
      | .error fault => (.error fault, fs) := by
  cases outcome <;> rfl

theorem makeDirectories_grows (locs : List Location) (fs : FileSystem) :
    FileSystem.Grows locs fs (makeDirectories locs fs).2 := by
  induction locs generalizing fs with
  | nil => exact .rfl
  | cons here rest ih =>
      have first : FileSystem.Grows [here] fs (makeDirectory here fs).2 := by
        rw [makeDirectory]
        split
        · exact .rfl
        · split
          · exact .rfl
          · refine ⟨rfl, fun loc there => ?_, fun loc there => ?_⟩
            · simp only [Function.update_apply]
              split
              · rfl
              · exact there
            · simp only [Function.update_apply] at there
              split at there
              · rename_i same
                exact .inr (List.mem_singleton.mpr same)
              · exact .inl there
      rcases DiskM.bind_cases (makeDirectory here) (fun _ => makeDirectories rest) fs with
        ⟨fault, next, failed, runs⟩ | ⟨v, next, done, runs⟩
      · rw [makeDirectories, runs]
        rw [failed] at first
        exact ⟨first.files, first.kept, fun loc there =>
          (first.only loc there).imp_right fun made => List.mem_cons.mpr
            (.inl (List.mem_singleton.mp made))⟩
      · rw [makeDirectories, runs]
        rw [done] at first
        have later := ih next
        refine ⟨later.files.trans first.files, fun loc there => later.kept loc (first.kept loc there),
          fun loc there => ?_⟩
        rcases later.only loc there with before | made
        · exact (first.only loc before).imp_right fun made => List.mem_cons.mpr
            (.inl (List.mem_singleton.mp made))
        · exact .inr (.tail _ made)

theorem makeDirectories_all (locs : List Location) {fs : FileSystem} (none? : ∀ loc, fs.files loc = none) :
    (makeDirectories locs fs).1 = .ok () ∧
      ∀ loc ∈ locs, (makeDirectories locs fs).2.directories loc = true := by
  induction locs generalizing fs with
  | nil => exact ⟨rfl, fun loc member => by cases member⟩
  | cons here rest ih =>
      have first : ∃ next, makeDirectory here fs = (.ok (), next) ∧ next.directories here = true ∧
          ∀ loc, next.files loc = none := by
        rw [makeDirectory]
        split
        · rename_i there
          exact ⟨fs, rfl, there, none?⟩
        · rw [none? here]
          exact ⟨_, rfl, by simp, none?⟩
      obtain ⟨next, done, there, empty⟩ := first
      obtain ⟨success, made⟩ := ih empty
      have runs : makeDirectories (here :: rest) fs = makeDirectories rest next :=
        DiskM.bind_ok done
      rw [runs]
      refine ⟨success, fun loc member => ?_⟩
      cases member with
      | head => exact (makeDirectories_grows rest next).kept here there
      | tail _ later => exact made loc later

theorem lift_require {expression : String} (nonempty : p ≠ []) (fs : FileSystem) :
    DiskM.lift (require (!p.isEmpty) expression) fs = (.ok (), fs) := by
  cases p with
  | nil => exact absurd rfl nonempty
  | cons byte rest => rfl

/-- A directory that is there is left as it is. -/
theorem createDirectory_of_has (nonempty : p ≠ []) (there : fs.has cwd p = true) :
    createDirectory cwd p fs = (.ok true, fs) := by
  have found : pathExists cwd p fs = (.ok true, fs) := by rw [pathExists, there]
  rw [createDirectory, DiskM.bind_ok (lift_require nonempty fs), DiskM.bind_ok found]
  rfl

theorem createDirectory_of_not_has (nonempty : p ≠ []) (missing : fs.has cwd p = false) :
    createDirectory cwd p fs = (do
      makeDirectories (visited cwd p)
      pathExists cwd p) fs := by
  have absent : pathExists cwd p fs = (.ok false, fs) := by rw [pathExists, missing]
  rw [createDirectory, DiskM.bind_ok (lift_require nonempty fs), DiskM.bind_ok absent]
  rfl

theorem createDirectory_grows (nonempty : p ≠ []) (fs : FileSystem) :
    FileSystem.Grows (visited cwd p) fs (createDirectory cwd p fs).2 := by
  cases there : fs.has cwd p with
  | true =>
      rw [createDirectory_of_has nonempty there]
      exact .rfl
  | false =>
      have grows := makeDirectories_grows (visited cwd p) fs
      rw [createDirectory_of_not_has nonempty there]
      rcases DiskM.bind_cases (makeDirectories (visited cwd p)) (fun _ => pathExists cwd p) fs with
        ⟨fault, next, failed, runs⟩ | ⟨v, next, done, runs⟩
      · rw [runs]
        rw [failed] at grows
        exact grows
      · rw [runs]
        rw [done] at grows
        exact grows

theorem visited_of_has (there : fs.has cwd p = true) :
    ∀ loc ∈ visited cwd p, fs.directories loc = true ∨ (fs.files loc).isSome = true := by
  rw [FileSystem.has, Bool.and_eq_true] at there
  exact FileSystem.there_of_reaches there.2

theorem visited_ne_nil (cwd : Location) (p : Bytes) : visited cwd p ≠ [] :=
  List.ne_nil_of_mem (locate_mem_visited cwd p)

theorem has_of_directories (nonempty : cString p ≠ [])
    (there : ∀ loc ∈ visited cwd p, fs.directories loc = true) : fs.has cwd p = true := by
  rw [FileSystem.has, FileSystem.reaches_of_directories (visited_ne_nil cwd p) there,
    Bool.and_true, Bool.not_eq_true', List.isEmpty_eq_false_iff]
  exact nonempty

/-- Without files, every location of the path is a directory after `create_directory`. -/
theorem createDirectory_all (nonempty : p ≠ []) (none? : ∀ loc, fs.files loc = none) :
    (∃ there, (createDirectory cwd p fs).1 = .ok there) ∧
      ∀ loc ∈ visited cwd p, (createDirectory cwd p fs).2.directories loc = true := by
  cases there : fs.has cwd p with
  | true =>
      rw [createDirectory_of_has nonempty there]
      refine ⟨⟨_, rfl⟩, fun loc member => ?_⟩
      rcases visited_of_has there loc member with directory | file
      · exact directory
      · rw [none? loc] at file
        cases file
  | false =>
      obtain ⟨success, all⟩ := makeDirectories_all (visited cwd p) none?
      have done : makeDirectories (visited cwd p) fs =
          (.ok (), (makeDirectories (visited cwd p) fs).2) := Prod.ext success rfl
      rw [createDirectory_of_not_has nonempty there, DiskM.bind_ok done]
      exact ⟨⟨_, rfl⟩, all⟩

/-- A file is saved where no directory is, or nothing is. -/
theorem saveToFile_cases (cwd : Location) (p content : Bytes) (fs : FileSystem) :
    (∃ fault, saveToFile cwd p content fs = (.error fault, fs)) ∨
      (fs.directories (locate cwd p) = false ∧ saveToFile cwd p content fs = (.ok (), { fs with
        files := Function.update fs.files (locate cwd p) (some content) })) := by
  rw [saveToFile]
  split
  · rename_i writable
    rw [Bool.and_eq_true, Bool.not_eq_true'] at writable
    exact .inr ⟨writable.2, rfl⟩
  · exact .inl ⟨_, rfl⟩

theorem saveToFile_ok (before : ∀ loc ∈ (visited cwd p).dropLast, fs.directories loc = true)
    (free : fs.directories (locate cwd p) = false) :
    saveToFile cwd p content fs = (.ok (), { fs with
      files := Function.update fs.files (locate cwd p) (some content) }) := by
  rw [saveToFile, if_pos]
  rw [Bool.and_eq_true, Bool.not_eq_true']
  exact ⟨List.all_eq_true.mpr before, free⟩

theorem saveToFile_confined (inside : fs.directories (locate cwd p) = true ∨ root <+: locate cwd p) :
    FileSystem.Confined root fs (saveToFile cwd p content fs).2 := by
  rcases saveToFile_cases cwd p content fs with ⟨fault, failed⟩ | ⟨free, done⟩
  · rw [failed]
    exact .rfl
  · rw [done]
    refine ⟨fun _ _ => rfl, fun loc outside => ?_⟩
    have below : root <+: locate cwd p := by
      rcases inside with directory | below
      · cases free.symm.trans directory
      · exact below
    have apart : loc ≠ locate cwd p := fun same => outside (same ▸ below)
    exact Function.update_of_ne apart _ _

theorem deleteDirectory_confined (inside : root <+: locate cwd p) (fs : FileSystem) :
    FileSystem.Confined root fs (deleteDirectory cwd p fs).2 := by
  have removes : FileSystem.Confined root fs (removeAll cwd p fs).2 := by
    have apart (loc : Location) (outside : ¬root <+: loc) :
        (locate cwd p).isPrefixOf loc = false := by
      rw [Bool.eq_false_iff]
      exact fun below => outside (inside.trans (List.isPrefixOf_iff_prefix.mp below))
    refine ⟨fun loc outside => ?_, fun loc outside => ?_⟩
    · simp only [removeAll, apart loc outside, Bool.not_false, Bool.and_true]
    · simp only [removeAll, apart loc outside, Bool.false_eq_true, if_false]
  by_cases nonempty : p = []
  · subst nonempty
    exact .rfl
  · have unfolds : deleteDirectory cwd p fs = (if fs.has cwd p then
        (.ok (!((removeAll cwd p fs).2.has cwd p)), (removeAll cwd p fs).2) else (.ok false, fs)) := by
      rw [deleteDirectory, DiskM.bind_ok (lift_require nonempty fs)]
      cases there : fs.has cwd p with
      | true =>
          have found : pathExists cwd p fs = (.ok true, fs) := by rw [pathExists, there]
          rw [DiskM.bind_ok found]
          rfl
      | false =>
          have absent : pathExists cwd p fs = (.ok false, fs) := by rw [pathExists, there]
          rw [DiskM.bind_ok absent]
          rfl
    rw [unfolds]
    split
    · exact removes
    · exact .rfl

end Operations

end Firestr.Util
