import Firestr.Gui.AppFiles
import Firestr.Gui.AppSaving
import Firestr.Util.FileSystemDirectories
import Firestr.Util.SerializeProperties

/-! What comes back of an app that was saved to a directory. The code comes back if it ends in
a newline, and the data if it does not lie in the directory for the data. -/

set_option autoImplicit false

namespace Firestr.Gui

open Firestr.Library.Assoc Firestr.Util

variable {Double : Type}

section Code

/-- Code that is empty, or ends in a newline. -/
def NewlineEnded (code : Bytes) : Prop := code = [] ∨ code.getLast? = some 10

instance decidableNewlineEnded (code : Bytes) : Decidable (NewlineEnded code) :=
  inferInstanceAs (Decidable (_ ∨ _))

def withNewline (code : Bytes) : Bytes := if NewlineEnded code then code else code ++ [10]

theorem withNewline_line {line : Bytes} (plain : 10 ∉ line) (nonempty : line ≠ []) :
    withNewline line = line ++ [10] := by
  refine if_neg fun ended => ?_
  rcases ended with none? | last
  · exact nonempty none?
  · exact plain (List.mem_of_getLast? last)

theorem withNewline_lines (line rest : Bytes) :
    withNewline (line ++ 10 :: rest) = line ++ 10 :: withNewline rest := by
  have ended : NewlineEnded (line ++ 10 :: rest) ↔ NewlineEnded rest := by
    unfold NewlineEnded
    cases rest with
    | nil => simp
    | cons byte rest => simp
  unfold withNewline
  split
  · rename_i whole
    rw [if_pos (ended.mp whole)]
  · rename_i cut
    rw [if_neg (ended.not.mp cut), List.append_assoc]
    rfl

/-- The loop puts a newline behind the last line, whether there was one or not. -/
theorem codeLoop_eq (fuel : Nat) (rest code : Bytes) (enough : rest.length < fuel) :
    codeLoop fuel rest code = .ok (code ++ withNewline rest) := by
  induction fuel generalizing rest code with
  | zero => cases enough
  | succ fuel ih =>
      unfold codeLoop
      cases rest with
      | nil => exact congrArg Except.ok (List.append_nil code).symm
      | cons byte rest =>
          have split := List.takeWhile_append_dropWhile (p := fun c : UInt8 => decide (c ≠ 10))
            (l := byte :: rest)
          have plain : 10 ∉ (byte :: rest).takeWhile fun c => decide (c ≠ 10) := by
            intro member
            have other := List.all_eq_true.mp (List.all_takeWhile ..) _ member
            simp at other
          cases left : (byte :: rest).dropWhile fun c => decide (c ≠ 10) with
          | nil =>
              rw [left, List.append_nil] at split
              have last := ih [] (code ++ (byte :: rest) ++ [10])
                (Nat.lt_of_le_of_lt (Nat.zero_le _) (Nat.lt_of_succ_lt_succ enough))
              rw [split] at plain
              simp only [getline, left, split, List.drop_nil]
              rw [last, withNewline_line plain (List.cons_ne_nil _ _)]
              simp [withNewline, NewlineEnded]
          | cons newline later =>
              have first : newline = 10 := by
                have head := List.head?_dropWhile_not (fun c : UInt8 => decide (c ≠ 10)) (byte :: rest)
                rw [left] at head
                simpa using head
              subst first
              rw [left] at split
              have shorter : later.length < fuel := by
                have size := congrArg List.length split
                simp only [List.length_append, List.length_cons] at size enough
                omega
              simp only [getline, left, List.drop_succ_cons, List.drop_zero]
              rw [ih later _ shorter, ← split, withNewline_lines]
              rw [split]
              simp

theorem readCode_eq (content : Bytes) : readCode content = .ok (withNewline content) :=
  codeLoop_eq (content.length + 1) content [] (Nat.lt_succ_self _)

theorem withNewline_eq_self_iff (code : Bytes) : withNewline code = code ↔ NewlineEnded code := by
  unfold withNewline
  split
  · rename_i ended
    exact iff_of_true rfl ended
  · rename_i cut
    exact iff_of_false (by simp) cut

end Code

namespace AppService

/-- The names in a saved app that are no uuids. -/
def savedNames : List Bytes := [ascii "index", ascii "metadata", ascii "code.lua", ascii "data"]

theorem fileName_saved {name : Bytes} (member : name ∈ savedNames) : FileName name := by
  have all : ∀ name ∈ savedNames, name ≠ [] ∧ slash ∉ name ∧ 0 ∉ name ∧
      name ≠ ascii "." ∧ name ≠ ascii ".." := by
    decide
  obtain ⟨nonempty, noSlash, noNul, noDots⟩ := all name member
  exact ⟨nonempty, noSlash, noNul, noDots⟩

/-- The uuids are not the names of the other files, and the first of them have a `size_t`
length. -/
structure PlainUuids (s : AppService Double) (count : Nat) : Prop where
  apart : ∀ n, s.uuids.uuid n ∉ savedNames
  small : ∀ n < count, (s.uuids.uuid n).length < 2 ^ 64

/-- The store has a file under a uuid for each of the entries. -/
structure Filed (s : AppService Double) (fs : FileSystem) (d : DiskStore Double)
    (entries : List (Bytes × Value Double)) : Prop where
  keys : d.index.map (·.1) = entries.map (·.1)
  distinct : (entries.map (·.1)).Nodup
  filed : ∀ e ∈ entries, ∃ n, d.index.lookup e.1 = some (some (s.uuids.uuid n)) ∧
    fs.files (locate s.cwd d.path ++ [s.uuids.uuid n]) = some (e.2.encode s.doubles)

section Reading

variable {s : AppService Double} {fs : FileSystem} {d : DiskStore Double}
  {entries : List (Bytes × Value Double)}

theorem decode_good {v : Value Double} (good : v.Good) :
    Value.decode s.doubles (v.encode s.doubles) = .ok v := by
  rw [decode_encode s.doubles good.formed, decoded_eq_self good.formed good.nonempty]

/-- The value of an entry is read from its file. -/
theorem Filed.getValue (filed : s.Filed fs d entries) (opens : fs.Opens s.cwd d.path)
    {e : Bytes × Value Double} (member : e ∈ entries) (good : e.2.Good) :
    s.getValue d e.1 fs = (.ok e.2, fs) := by
  obtain ⟨n, found, file⟩ := filed.filed e member
  unfold AppService.getValue
  rw [found, DiskM.lift_bind]
  simp only [Option.getD_some, DiskStore.asString]
  rw [DiskM.bind_ok (opens.load (s.uuidNames n) file)]
  simp only [decode_good good]
  rfl

/-- Where the files are lost, the empty value is read. -/
theorem Filed.getValue_lost (filed : s.Filed fs d entries) (nonempty : d.path ≠ [])
    (noNul : 0 ∉ d.path) {next : FileSystem}
    (lost : ∀ n, next.files (locate s.cwd d.path ++ [s.uuids.uuid n]) = none ∨
      ∃ loc ∈ visited s.cwd d.path, next.directories loc = false)
    {e : Bytes × Value Double} (member : e ∈ entries) :
    s.getValue d e.1 next = (.ok .empty, next) := by
  obtain ⟨n, found, -⟩ := filed.filed e member
  obtain ⟨content, read, none?⟩ := @loadFromFile_lost _ _ _ s.paths _ nonempty noNul
    (s.uuidNames n) (lost n)
  unfold AppService.getValue
  rw [found, DiskM.lift_bind]
  simp only [Option.getD_some, DiskStore.asString]
  rw [DiskM.bind_ok read]
  rcases none? with rfl | rfl
  · rfl
  · rfl

private theorem exportKeys_eq (entries before : List (Bytes × Value Double))
    (reads : ∀ e ∈ entries, s.getValue d e.1 fs = (.ok e.2, fs))
    (distinct : ((before ++ entries).map (·.1)).Nodup) :
    s.exportKeys d (entries.map (·.1)) before fs = (.ok (before ++ entries), fs) := by
  induction entries generalizing before with
  | nil =>
      rw [List.append_nil]
      rfl
  | cons e entries ih =>
      have fresh : e.1 ∉ before.map (·.1) := by
        intro member
        rw [List.map_append, List.map_cons] at distinct
        exact (List.nodup_append.mp distinct).2.2 _ member _ List.mem_cons_self rfl
      have later := ih (before ++ [e]) (fun other member => reads other (.tail _ member))
        (by rwa [List.append_assoc])
      rw [List.append_assoc] at later
      rw [List.map_cons, exportKeys, DiskM.bind_ok (reads e List.mem_cons_self),
        assign_of_not_mem fresh]
      exact later

theorem exportTo_eq (keys : d.index.map (·.1) = entries.map (·.1))
    (distinct : (entries.map (·.1)).Nodup)
    (reads : ∀ e ∈ entries, s.getValue d e.1 fs = (.ok e.2, fs)) :
    s.exportTo d fs = (.ok entries, fs) := by
  unfold exportTo
  rw [keys]
  exact exportKeys_eq entries [] reads distinct

theorem Filed.exportTo (filed : s.Filed fs d entries) (opens : fs.Opens s.cwd d.path)
    (good : EveryItem Value.Good entries) : s.exportTo d fs = (.ok entries, fs) :=
  exportTo_eq filed.keys filed.distinct fun e member =>
    filed.getValue opens member (good e member)

end Reading

section Writing

variable {s : AppService Double} {fs : FileSystem} {d : DiskStore Double}
  {entries : List (Bytes × Value Double)}

/-- The names in the index are among those that have been made. -/
def Made (s : AppService Double) (d : DiskStore Double) : Prop :=
  ∀ key id, d.index.lookup key = some (some id) → ∃ n < d.made, id = s.uuids.uuid n

def StoreName (s : AppService Double) (name : Bytes) : Prop :=
  name = ascii "index" ∨ ∃ n, name = s.uuids.uuid n

/-- A directory where the values can be saved. -/
structure Free (s : AppService Double) (fs : FileSystem) (path : Bytes) : Prop where
  opens : fs.Opens s.cwd path
  free : ∀ name, s.StoreName name → fs.directories (locate s.cwd path ++ [name]) = false

def entered (s : AppService Double) (d : DiskStore Double) (key : Bytes) (v : Value Double) :
    DiskStore Double :=
  { d with
    index := assign d.index key (some (s.uuids.uuid d.made))
    made := d.made + 1
    files := Function.update d.files (s.uuids.uuid d.made) (some v) }

/-- A new key gets a file of its own. -/
theorem setIntern_new (free : s.Free fs d.path) {key : Bytes} (v : Value Double)
    (absent : d.index.lookup key = none) :
    s.setIntern d key v fs = (.ok (s.entered d key v), { fs with
      files := Function.update fs.files (locate s.cwd d.path ++ [s.uuids.uuid d.made])
        (some (v.encode s.doubles)) }) := by
  have some? : (!(s.uuids.uuid d.made).isEmpty) = true :=
    not_isEmpty_of_ne_nil (s.uuids.nonempty d.made)
  have made : d.setIntern s.uuids key v = .ok (s.entered d key v) := by
    simp only [DiskStore.setIntern, absent, some?, check_true, ok_bind, pure_ok]
    rfl
  have id : (s.entered d key v).idOf key = some (s.uuids.uuid d.made) := by
    change ((assign d.index key (some (s.uuids.uuid d.made))).lookup key).join = _
    rw [lookup_assign_self]
    rfl
  unfold AppService.setIntern
  rw [DiskM.lift_bind, made]
  simp only [id, Option.getD_some]
  exact DiskM.bind_ok (free.opens.save (s.uuidNames d.made) (free.free _ (.inr ⟨_, rfl⟩)))

theorem Filed.entered (filed : s.Filed fs d entries) (made : s.Made d) {key : Bytes}
    (v : Value Double) (fresh : key ∉ entries.map (·.1)) :
    s.Filed { fs with
      files := Function.update fs.files (locate s.cwd d.path ++ [s.uuids.uuid d.made])
        (some (v.encode s.doubles)) } (s.entered d key v) (entries ++ [(key, v)]) where
  keys := by
    change (assign d.index key _).map (·.1) = _
    rw [assign_of_not_mem (filed.keys ▸ fresh), List.map_append, List.map_append, filed.keys]
    rfl
  distinct := by
    rw [List.map_append, List.nodup_append]
    refine ⟨filed.distinct, List.nodup_singleton _, ?_⟩
    rintro k before other last rfl
    have same : k = key := List.mem_singleton.mp last
    exact fresh (same ▸ before)
  filed e member := by
    rcases List.mem_append.mp member with before | last
    · obtain ⟨n, found, file⟩ := filed.filed e before
      obtain ⟨m, earlier, same⟩ := made e.1 _ found
      have apart : locate s.cwd d.path ++ [s.uuids.uuid n] ≠
          locate s.cwd d.path ++ [s.uuids.uuid d.made] := by
        intro equal
        have names := List.singleton_inj.mp (List.append_cancel_left equal)
        have equal := s.uuids.injective m d.made (same.symm.trans names)
        omega
      refine ⟨n, ?_, ?_⟩
      · change (assign d.index key _).lookup e.1 = _
        have other : e.1 ≠ key := fun same => fresh (same ▸ List.mem_map_of_mem before)
        rw [lookup_assign, if_neg other]
        exact found
      · exact (Function.update_of_ne apart _ _).trans file
    · rw [List.mem_singleton.mp last]
      refine ⟨d.made, ?_, Function.update_self ..⟩
      exact lookup_assign_self

theorem Made.entered (made : s.Made d) (key : Bytes) (v : Value Double) :
    s.Made (s.entered d key v) := by
  intro other id found
  change (assign d.index key _).lookup other = _ at found
  rw [lookup_assign] at found
  split at found
  · cases found
    exact ⟨d.made, Nat.lt_succ_self _, rfl⟩
  · obtain ⟨n, earlier, same⟩ := made other id found
    exact ⟨n, Nat.lt_succ_of_lt earlier, same⟩

/-- What is saved in a directory changes no other files. -/
structure Writes (root : Location) (fs after : FileSystem) : Prop where
  directories : after.directories = fs.directories
  files : ∀ loc, ¬ root <+: loc → after.files loc = fs.files loc

theorem Writes.update {root : Location} (name content : Bytes) :
    Writes root fs { fs with
      files := Function.update fs.files (root ++ [name]) (some content) } where
  directories := rfl
  files loc outside := by
    have other : loc ≠ root ++ [name] := by
      rintro rfl
      exact outside (List.prefix_append ..)
    exact Function.update_of_ne other _ _

theorem Writes.trans {root : Location} {between after : FileSystem}
    (first : Writes root fs between) (second : Writes root between after) :
    Writes root fs after where
  directories := second.directories.trans first.directories
  files loc outside := (second.files loc outside).trans (first.files loc outside)

theorem Writes.opens {root : Location} {after : FileSystem} {path : Bytes}
    (writes : Writes root fs after) (opens : fs.Opens s.cwd path) : after.Opens s.cwd path where
  nonempty := opens.nonempty
  noNul := opens.noNul
  there loc member := by
    rw [writes.directories]
    exact opens.there loc member

theorem Writes.free {root : Location} {after : FileSystem} {path : Bytes}
    (writes : Writes root fs after) (free : s.Free fs path) : s.Free after path where
  opens := writes.opens free.opens
  free name file := by
    rw [writes.directories]
    exact free.free name file

theorem setAll_eq (entries before : List (Bytes × Value Double)) (filed : s.Filed fs d before)
    (made : s.Made d) (free : s.Free fs d.path)
    (distinct : ((before ++ entries).map (·.1)).Nodup) :
    ∃ next after, s.setAll d entries fs = (.ok next, after) ∧
      s.Filed after next (before ++ entries) ∧ s.Made next ∧
      next.made = d.made + entries.length ∧ next.path = d.path ∧
      Writes (locate s.cwd d.path) fs after := by
  induction entries generalizing fs d before with
  | nil =>
      rw [List.append_nil]
      exact ⟨d, fs, rfl, filed, made, rfl, rfl, rfl, fun _ _ => rfl⟩
  | cons e entries ih =>
      obtain ⟨key, v⟩ := e
      have fresh : key ∉ before.map (·.1) := by
        intro member
        rw [List.map_append, List.map_cons] at distinct
        exact (List.nodup_append.mp distinct).2.2 _ member _ List.mem_cons_self rfl
      have absent : d.index.lookup key = none := by
        rw [← Option.not_isSome_iff_eq_none, ← DiskStore.mem_keys_iff, filed.keys]
        exact fresh
      have first : Writes (locate s.cwd d.path) fs _ :=
        .update (s.uuids.uuid d.made) (v.encode s.doubles)
      obtain ⟨next, after, success, filed', made', count, path, writes⟩ :=
        ih (before ++ [(key, v)]) (filed.entered made v fresh) (made.entered key v)
          (first.free free) (by rwa [List.append_assoc])
      rw [List.append_assoc] at filed'
      refine ⟨next, after, ?_, filed', made', ?_, path, first.trans writes⟩
      · rw [setAll, DiskM.bind_ok (setIntern_new free v absent)]
        exact success
      · rw [count, List.length_cons, Nat.add_comm entries.length, ← Nat.add_assoc]
        rfl

/-- A directory without files has an empty store. -/
theorem load_empty {path : Bytes} (opens : fs.Opens s.cwd path) (made : Nat)
    (none? : fs.files (locate s.cwd path ++ [ascii "index"]) = none) :
    s.load made path fs = (.ok { path := path, made := made }, fs) := by
  obtain ⟨content, read, empty⟩ := @loadFromFile_lost _ fs _ s.paths _ opens.nonempty opens.noNul
    (fileName_saved (by decide)) (.inl none?)
  refine load_of_has made opens.nonempty opens.has read ?_
  rcases empty with rfl | rfl
  · rfl
  · rfl

/-- The index is read as it was saved. -/
theorem readIndex_eq {index : List (Bytes × Option Bytes)} (keys : GoodKeys (index.map (·.1)))
    (ids : ∀ e ∈ index, ∃ id, e.2 = some id ∧ id.length < 2 ^ 64) :
    s.readIndex (some ((Value.dict (indexDict index)).encode s.doubles)) = .ok index := by
  have same : (indexDict index : List (Bytes × Value Double)).map (·.1) = index.map (·.1) := by
    unfold indexDict
    rw [List.map_map]
    rfl
  have items : EveryItem Value.Good (indexDict index : List (Bytes × Value Double)) := by
    intro e member
    obtain ⟨entry, inside, rfl⟩ := List.mem_map.mp member
    obtain ⟨id, found, small⟩ := ids entry inside
    simp only [found, Option.map_some, Option.getD_some]
    exact ⟨.bytes small, .bytes⟩
  have good : (Value.dict (indexDict index : List (Bytes × Value Double))).Good :=
    .dict_of_perm (.refl _) (same ▸ keys) items
  obtain ⟨after, read⟩ := @readDict_good _ s.doubles _ good [] 0
  rw [List.append_nil] at read
  have back : (indexDict index : List (Bytes × Value Double)).map
      (fun e => (e.1, e.2.asString.toOption)) = index := by
    unfold indexDict
    rw [List.map_map]
    refine (List.map_congr_left fun entry inside => ?_).trans (List.map_id index)
    obtain ⟨id, found, -⟩ := ids entry inside
    obtain ⟨key, value⟩ := entry
    cases found
    rfl
  unfold readIndex
  simp only [read, ok_bind, back, pure_ok]

theorem Filed.ids (filed : s.Filed fs d entries) (made : s.Made d)
    (plain : s.PlainUuids d.made) : ∀ e ∈ d.index, ∃ id, e.2 = some id ∧ id.length < 2 ^ 64 := by
  intro e member
  have key : e.1 ∈ entries.map (·.1) := filed.keys ▸ List.mem_map_of_mem member
  obtain ⟨entry, inside, same⟩ := List.mem_map.mp key
  obtain ⟨n, found, -⟩ := filed.filed entry inside
  rw [same] at found
  obtain ⟨m, earlier, name⟩ := made e.1 _ found
  have distinct : (d.index.map (·.1)).Nodup := filed.keys ▸ filed.distinct
  have there := lookup_of_mem distinct (show (e.1, e.2) ∈ d.index from member)
  refine ⟨s.uuids.uuid n, Option.some.inj (there.symm.trans found), ?_⟩
  rw [name]
  exact plain.small m earlier

/-- An empty store in a free directory holds the entries after the import, and its index is
saved. -/
theorem importFrom_eq {path : Bytes} (made : Nat)
    (plain : s.PlainUuids (made + entries.length)) (free : s.Free fs path) (distinct : (entries.map (·.1)).Nodup) :
    ∃ next after, s.importFrom { path := path, made := made } entries fs = (.ok next, after) ∧
      s.Filed after next entries ∧ (∀ e ∈ next.index, ∃ id, e.2 = some id ∧ id.length < 2 ^ 64) ∧
      next.path = path ∧ Writes (locate s.cwd path) fs after ∧
      after.files (locate s.cwd path ++ [ascii "index"]) =
        some ((Value.dict (indexDict next.index)).encode s.doubles) := by
  have start : s.Filed fs { path := path, made := made } ([] : List (Bytes × Value Double)) :=
    ⟨rfl, List.nodup_nil, fun e member => by cases member⟩
  have none? : s.Made ({ path := path, made := made } : DiskStore Double) :=
    fun key id found => by cases found
  obtain ⟨next, between, success, filed, named, count, same, writes⟩ :=
    setAll_eq entries [] start none? free distinct
  have ids := filed.ids named (by rw [count]; exact plain)
  have same : next.path = path := same
  have writes : Writes (locate s.cwd path) fs between := writes
  rw [List.nil_append] at filed
  have some? : (!next.path.isEmpty) = true := by
    rw [same]
    exact not_isEmpty_of_ne_nil free.opens.nonempty
  have index : saveToFile s.cwd (s.paths.append next.path (ascii "index"))
      ((Value.dict (indexDict next.index)).encode s.doubles) between = (.ok (), { between with
        files := Function.update between.files (locate s.cwd path ++ [ascii "index"])
          (some ((Value.dict (indexDict next.index)).encode s.doubles)) }) := by
    have free := writes.free free
    rw [same]
    exact free.opens.save (fileName_saved (by decide)) (free.free _ (.inl rfl))
  refine ⟨next, _, ?_, ?_, ids, same, writes.trans (.update _ _), Function.update_self ..⟩
  · unfold importFrom
    rw [DiskM.bind_ok success, DiskM.lift_bind, DiskStore.saveIndex, some?, contract_true]
    exact DiskM.bind_ok index
  · refine ⟨filed.keys, filed.distinct, fun e member => ?_⟩
    obtain ⟨n, found, file⟩ := filed.filed e member
    refine ⟨n, found, ?_⟩
    rw [same] at file ⊢
    have apart : locate s.cwd path ++ [s.uuids.uuid n] ≠ locate s.cwd path ++ [ascii "index"] := by
      intro equal
      have names := List.singleton_inj.mp (List.append_cancel_left equal)
      exact plain.apart n (names ▸ List.mem_cons_self)
    exact (Function.update_of_ne apart _ _).trans file

end Writing

section Saving

variable {s : AppService Double} {walk : Walk Double} {fs : FileSystem} {dir : Bytes}
  {a : App Double} {entries dc : List (Bytes × Value Double)}

/-- Where the data of a directory lies. -/
def dataLocation (s : AppService Double) (dir : Bytes) : Location :=
  locate s.cwd dir ++ [ascii "data"]

/-- A directory that is there, where no directory is in the way of a file that is written. -/
structure Target (s : AppService Double) (fs : FileSystem) (dir : Bytes) : Prop where
  opens : fs.Opens s.cwd dir
  metadata : fs.directories (locate s.cwd dir ++ [ascii "metadata"]) = false
  code : fs.directories (locate s.cwd dir ++ [ascii "code.lua"]) = false
  free : ∀ name, s.StoreName name → s.dataLocation dir ++ [name] ∉ visited s.cwd dir

def metadataText (s : AppService Double) (walk : Walk Double) (a : App Double) : Bytes :=
  (Value.dict (walk.order (metadata a))).encode s.doubles

/-- The file system with the metadata and the code of an app. -/
def written (s : AppService Double) (walk : Walk Double) (fs : FileSystem) (dir : Bytes)
    (a : App Double) : FileSystem :=
  { fs with
    files := Function.update
      (Function.update fs.files (locate s.cwd dir ++ [ascii "metadata"])
        (some (s.metadataText walk a)))
      (locate s.cwd dir ++ [ascii "code.lua"]) (some a.code) }

def emptied (s : AppService Double) (walk : Walk Double) (fs : FileSystem) (dir : Bytes)
    (a : App Double) : FileSystem :=
  (s.written walk fs dir a).cleared (s.dataLocation dir) (visited s.cwd (s.getDataPath dir))

theorem Target.written_opens (target : s.Target fs dir) :
    (s.written walk fs dir a).Opens s.cwd dir :=
  ⟨target.opens.nonempty, target.opens.noNul, target.opens.there⟩

theorem locate_getDataPath (target : s.Target fs dir) :
    locate s.cwd (s.getDataPath dir) = s.dataLocation dir :=
  s.paths.locate_append s.cwd target.opens.nonempty target.opens.noNul (fileName_saved (by decide))

theorem Target.emptied_free (target : s.Target fs dir) :
    s.Free (s.emptied walk fs dir a) (s.getDataPath dir) where
  opens := target.written_opens.cleared_append (fileName_saved (by decide))
  free name file := by
    rw [locate_getDataPath target, emptied,
      FileSystem.cleared_directories_of_below (List.prefix_append ..)]
    refine decide_eq_false fun member => ?_
    rcases mem_visited_cases target.opens.nonempty target.opens.noNul (fileName_saved (by decide))
      member with inside | last
    · exact target.free name file inside
    · exact List.cons_ne_nil _ _ (List.append_right_eq_self.mp last)

theorem Target.clear (target : s.Target fs dir) : ∃ there gone again first removed,
    createDirectory s.cwd (s.getDataPath dir) (s.written walk fs dir a) = (.ok there, first) ∧
      deleteDirectory s.cwd (s.getDataPath dir) first = (.ok gone, removed) ∧
      createDirectory s.cwd (s.getDataPath dir) removed = (.ok again, s.emptied walk fs dir a) :=
  clear_append target.written_opens (fileName_saved (by decide))

/-- What is in a directory after an app has been saved to it. -/
structure Stored (s : AppService Double) (walk : Walk Double) (dir : Bytes) (a : App Double)
    (dc : List (Bytes × Value Double)) (saved : FileSystem) : Prop where
  opens : saved.Opens s.cwd dir
  data : saved.Opens s.cwd (s.getDataPath dir)
  metadata : saved.files (locate s.cwd dir ++ [ascii "metadata"]) = some (s.metadataText walk a)
  code : saved.files (locate s.cwd dir ++ [ascii "code.lua"]) = some a.code
  store : ∃ next, s.Filed saved next (walk.order dc) ∧
    (∀ e ∈ next.index, ∃ id, e.2 = some id ∧ id.length < 2 ^ 64) ∧ next.path = s.getDataPath dir ∧
    saved.files (locate s.cwd (s.getDataPath dir) ++ [ascii "index"]) =
      some ((Value.dict (indexDict next.index)).encode s.doubles)

theorem Target.stored (target : s.Target fs dir) {after : FileSystem}
    (writes : Writes (s.dataLocation dir) (s.emptied walk fs dir a) after)
    {next : DiskStore Double} (filed : s.Filed after next (walk.order dc))
    (ids : ∀ e ∈ next.index, ∃ id, e.2 = some id ∧ id.length < 2 ^ 64)
    (path : next.path = s.getDataPath dir)
    (index : after.files (locate s.cwd (s.getDataPath dir) ++ [ascii "index"]) =
      some ((Value.dict (indexDict next.index)).encode s.doubles)) :
    s.Stored walk dir a dc after := by
  have beside : ∀ name, name ≠ ascii "data" →
      ¬ s.dataLocation dir <+: locate s.cwd dir ++ [name] := by
    intro name other below
    have same := below.eq_of_length (by simp [dataLocation])
    exact other (List.singleton_inj.mp (List.append_cancel_left same)).symm
  have kept : ∀ name, name ≠ ascii "data" → after.files (locate s.cwd dir ++ [name]) =
      (s.written walk fs dir a).files (locate s.cwd dir ++ [name]) := by
    intro name other
    rw [writes.files _ (beside name other), emptied,
      FileSystem.cleared_files_of_not_below (beside name other)]
  have opens : (s.emptied walk fs dir a).Opens s.cwd dir :=
    target.written_opens.cleared fun loc member _ =>
      List.mem_of_mem_dropLast ((s.paths.mem_visited_append s.cwd target.opens.nonempty
        target.opens.noNul (fileName_saved (by decide)) loc).mpr member)
  refine ⟨writes.opens opens, writes.opens target.emptied_free.opens, ?_, ?_,
    next, filed, ids, path, index⟩
  · have apart : locate s.cwd dir ++ [ascii "metadata"] ≠ locate s.cwd dir ++ [ascii "code.lua"] := by
      intro same
      exact absurd (List.append_cancel_left same) (by decide)
    rw [kept _ (by decide)]
    unfold written
    simp only []
    rw [Function.update_of_ne apart, Function.update_self]
  · rw [kept _ (by decide), written]
    exact Function.update_self ..

/-- The app is saved with what was exported after the old data was removed. -/
theorem saveApp_eq (made : Nat) (plain : s.PlainUuids (made + dc.length))
    (target : s.Target fs dir) (id : a.id ≠ []) (name : a.name ≠ []) (other : a.path ≠ dir)
    (exported : s.exportTo a.data (s.emptied walk fs dir a) = (.ok dc, s.emptied walk fs dir a))
    (distinct : (dc.map (·.1)).Nodup) :
    ∃ saved, s.saveApp walk made dir a fs = (.ok true, saved) ∧ s.Stored walk dir a dc saved := by
  have free := @Target.emptied_free _ s walk fs dir a target
  obtain ⟨there, gone, again, first, removed, created, deleted, recreated⟩ :=
    @Target.clear _ s walk fs dir a target
  have walked : ((walk.order dc).map (·.1)).Nodup :=
    ((walk.perm dc).map (·.1)).nodup_iff.mpr distinct
  rw [← (walk.perm dc).length_eq] at plain
  obtain ⟨next, after, imported, filed, ids, path, writes, index⟩ :=
    importFrom_eq made plain free walked
  rw [locate_getDataPath target] at writes
  refine ⟨after, ?_, target.stored writes filed ids path index⟩
  have found : pathExists s.cwd dir fs = (.ok true, fs) := by rw [pathExists, target.opens.has]
  have described : saveToFile s.cwd (s.getMetadataFile dir)
      ((Value.dict (walk.order (metadata a))).encode s.doubles) fs = (.ok (), { fs with
        files := Function.update fs.files (locate s.cwd dir ++ [ascii "metadata"])
          (some (s.metadataText walk a)) }) :=
    target.opens.save (fileName_saved (by decide)) target.metadata
  have code : s.writeFile (s.getCodeFile dir) a.code { fs with
      files := Function.update fs.files (locate s.cwd dir ++ [ascii "metadata"])
        (some (s.metadataText walk a)) } = (.ok true, s.written walk fs dir a) := by
    have opens : FileSystem.Opens { fs with
        files := Function.update fs.files (locate s.cwd dir ++ [ascii "metadata"])
          (some (s.metadataText walk a)) } s.cwd dir :=
      ⟨target.opens.nonempty, target.opens.noNul, target.opens.there⟩
    have saved := @FileSystem.Opens.save _ _ _ a.code s.paths _ opens
      (fileName_saved (by decide)) target.code
    unfold writeFile getCodeFile
    rw [saved]
    rfl
  have empty := @load_empty _ s _ _ free.opens made (by
    rw [locate_getDataPath target, emptied]
    exact FileSystem.cleared_files_of_below (List.prefix_append ..))
  have replaced : s.replaceData walk made (s.getDataPath dir) a first = (.ok (), after) := by
    unfold replaceData
    rw [DiskM.bind_ok deleted, DiskM.bind_ok recreated, DiskM.bind_ok exported,
      DiskM.bind_ok empty, DiskM.bind_ok imported]
    rfl
  unfold saveApp
  rw [DiskM.bind_ok (lift_require id fs), DiskM.bind_ok (lift_require name fs),
    DiskM.bind_ok found, if_pos rfl, DiskM.bind_ok described, DiskM.bind_ok code, if_pos rfl,
    DiskM.bind_ok created]
  change (if a.path ≠ dir then (do
      s.replaceData walk made (s.getDataPath dir) a
      pure true) else pure true : DiskM Bool) first = _
  rw [if_pos other, DiskM.bind_ok replaced]
  rfl

/-- An app with an id, a name and data that is there. Its strings have a `size_t` length. -/
structure Saveable (s : AppService Double) (fs : FileSystem) (a : App Double)
    (entries : List (Bytes × Value Double)) : Prop where
  id : a.id ≠ []
  name : a.name ≠ []
  small : a.id.length < 2 ^ 64 ∧ a.name.length < 2 ^ 64
  opens : fs.Opens s.cwd a.data.path
  filed : s.Filed fs a.data entries
  keys : GoodKeys (entries.map (·.1))
  good : EveryItem Value.Good entries

theorem metadata_eq (a : App Double) :
    metadata a = [(ascii "id", .bytes a.id), (ascii "name", .bytes a.name)] := by
  have fresh : ascii "name" ∉ [ascii "id"] := by decide
  have first : assign [] (ascii "id") (Value.bytes a.id : Value Double) =
      [(ascii "id", .bytes a.id)] := rfl
  unfold metadata
  rw [first, assign_of_not_mem fresh]
  rfl

theorem loadAppMetadata_eq {saved : FileSystem} (stored : s.Stored walk dir a dc saved)
    (id : a.id ≠ []) (name : a.name ≠ []) (small : a.id.length < 2 ^ 64 ∧ a.name.length < 2 ^ 64) :
    s.loadAppMetadata dir saved = (.ok (some (a.id, a.name)), saved) := by
  have keys : GoodKeys ((metadata a).map (·.1)) := by
    have two : GoodKeys [ascii "id", ascii "name"] := ⟨by decide, by decide, by decide⟩
    rw [metadata_eq]
    exact two
  have items : EveryItem Value.Good (metadata a) := by
    rw [metadata_eq]
    intro e member
    rcases List.mem_cons.mp member with rfl | member
    · exact ⟨.bytes small.1, .bytes⟩
    · cases List.mem_singleton.mp member
      exact ⟨.bytes small.2, .bytes⟩
  obtain ⟨after, read⟩ := @readDict_good _ s.doubles _ (.dict_of_perm (walk.perm _) keys items) [] 0
  rw [List.append_nil] at read
  have content : loadFromFile s.cwd (s.getMetadataFile dir) saved =
      (.ok (some (s.metadataText walk a)), saved) :=
    stored.opens.load (fileName_saved (by decide)) stored.metadata
  have first : metadataString (walk.order (metadata a)) "id" = .ok a.id := by
    unfold metadataString
    rw [lookup_perm (walk.perm _) keys.distinct, metadata_eq]
    rfl
  have second : metadataString (walk.order (metadata a)) "name" = .ok a.name := by
    unfold metadataString
    rw [lookup_perm (walk.perm _) keys.distinct, metadata_eq]
    rfl
  unfold loadAppMetadata
  rw [DiskM.bind_ok (lift_require stored.opens.nonempty saved), DiskM.bind_ok content]
  simp only [metadataText, DiskM.lift_bind, read, first, second, List.isEmpty_iff, id, name, if_false]
  rfl

/-- The saved app is loaded, with a newline at the end of its code. -/
theorem loadApp_eq {saved : FileSystem} (made : Nat)
    (stored : s.Stored walk dir a dc saved) (id : a.id ≠ []) (name : a.name ≠ [])
    (small : a.id.length < 2 ^ 64 ∧ a.name.length < 2 ^ 64)
    (keys : GoodKeys (dc.map (·.1))) (good : EveryItem Value.Good dc) :
    ∃ b, s.loadApp made dir saved = (.ok (some b), saved) ∧ b.id = a.id ∧ b.name = a.name ∧
      b.code = withNewline a.code ∧ s.exportTo b.data saved = (.ok (walk.order dc), saved) := by
  obtain ⟨next, filed, ids, path, index⟩ := stored.store
  have perm := (walk.perm dc).map (·.1)
  have nextKeys : GoodKeys (next.index.map (·.1)) := by
    rw [filed.keys]
    exact ⟨perm.nodup_iff.mpr keys.distinct, fun k member => keys.nonempty k (perm.mem_iff.mp member),
      fun k member => keys.small k (perm.mem_iff.mp member)⟩
  have read : loadFromFile s.cwd (s.paths.append (s.getDataPath dir) (ascii "index")) saved =
      (.ok (some ((Value.dict (indexDict next.index)).encode s.doubles)), saved) :=
    stored.data.load (fileName_saved (by decide)) index
  have loaded := load_of_has made stored.data.nonempty stored.data.has read
    (readIndex_eq nextKeys ids)
  have code : loadFromFile s.cwd (s.getCodeFile dir) saved = (.ok (some a.code), saved) :=
    stored.opens.load (fileName_saved (by decide)) stored.code
  have found : pathExists s.cwd dir saved = (.ok true, saved) := by
    rw [pathExists, stored.opens.has]
  have created := createDirectory_of_has stored.data.nonempty stored.data.has
  have reading : DiskM.lift (readCode a.code) saved = (.ok (withNewline a.code), saved) := by
    rw [readCode_eq]
    rfl
  have checked : ∀ {text : Bytes} {expression : String}, text ≠ [] →
      DiskM.lift (ensure (!text.isEmpty) expression) saved = (.ok (), saved) := by
    intro text expression some?
    cases text with
    | nil => exact absurd rfl some?
    | cons b rest => rfl
  refine ⟨{
    path := dir
    id := a.id
    name := a.name
    code := withNewline a.code
    data := { path := s.getDataPath dir, index := next.index, made := made } }, ?_, rfl, rfl, rfl, ?_⟩
  · unfold loadApp
    rw [DiskM.bind_ok found, if_pos rfl, DiskM.bind_ok (loadAppMetadata_eq stored id name small)]
    simp only []
    rw [DiskM.bind_ok code]
    simp only []
    rw [DiskM.bind_ok reading, DiskM.bind_ok (lift_require id saved), DiskM.bind_ok created,
      DiskM.bind_ok loaded,
      DiskM.bind_ok (checked stored.opens.nonempty), DiskM.bind_ok (checked id),
      DiskM.bind_ok (checked name)]
    rfl
  · have same : s.Filed saved { path := s.getDataPath dir, index := next.index, made := made }
        (walk.order dc) :=
      ⟨filed.keys, filed.distinct, by rw [← path]; exact filed.filed⟩
    exact same.exportTo stored.data fun e member => good e ((walk.perm dc).mem_iff.mp member)

/-- The data in a place is not lost when the old data of a directory is removed. -/
def Spares (s : AppService Double) (dir place : Bytes) : Prop :=
  ¬ s.dataLocation dir <+: locate s.cwd place ∧
    ∀ loc ∈ visited s.cwd place, s.dataLocation dir <+: loc →
      loc ∈ visited s.cwd (s.getDataPath dir)

theorem Saveable.spared (plain : ∀ n, s.uuids.uuid n ∉ savedNames) (saveable : s.Saveable fs a entries)
    (spares : s.Spares dir a.data.path) :
    s.exportTo a.data (s.emptied walk fs dir a) = (.ok entries, s.emptied walk fs dir a) := by
  have opens : (s.emptied walk fs dir a).Opens s.cwd a.data.path :=
    FileSystem.Opens.cleared ⟨saveable.opens.nonempty, saveable.opens.noNul, saveable.opens.there⟩
      spares.2
  refine Filed.exportTo ⟨saveable.filed.keys, saveable.filed.distinct, fun e member => ?_⟩ opens
    saveable.good
  obtain ⟨n, found, file⟩ := saveable.filed.filed e member
  refine ⟨n, found, ?_⟩
  have apart : ∀ name ∈ savedNames, locate s.cwd a.data.path ++ [s.uuids.uuid n] ≠
      locate s.cwd dir ++ [name] := by
    intro name member equal
    have last := congrArg List.getLast? equal
    rw [List.getLast?_concat, List.getLast?_concat] at last
    exact plain n (Option.some.inj last ▸ member)
  have outside : ¬ s.dataLocation dir <+: locate s.cwd a.data.path ++ [s.uuids.uuid n] := by
    intro below
    rcases List.prefix_concat_iff.mp below with whole | before
    · exact apart (ascii "data") (by decide) whole.symm
    · exact spares.1 before
  rw [emptied, FileSystem.cleared_files_of_not_below outside]
  exact (Function.update_of_ne (apart _ (by decide)) _ _).trans
    ((Function.update_of_ne (apart _ (by decide)) _ _).trans file)

/-- The keys are still there where the files are lost. -/
theorem Saveable.lost (saveable : s.Saveable fs a entries)
    (lost : ¬ s.Spares dir a.data.path) :
    s.exportTo a.data (s.emptied walk fs dir a) =
      (.ok (entries.map fun e => (e.1, .empty)), s.emptied walk fs dir a) := by
  have keys : (entries.map fun e => (e.1, (.empty : Value Double))).map (·.1) =
      entries.map (·.1) := by
    rw [List.map_map]
    rfl
  refine exportTo_eq (saveable.filed.keys.trans keys.symm) (keys ▸ saveable.filed.distinct) ?_
  intro e member
  obtain ⟨entry, inside, rfl⟩ := List.mem_map.mp member
  change s.getValue a.data entry.1 _ = _
  refine saveable.filed.getValue_lost saveable.opens.nonempty saveable.opens.noNul (fun n => ?_)
    inside
  by_cases below : s.dataLocation dir <+: locate s.cwd a.data.path
  · exact .inl (FileSystem.cleared_files_of_below (below.trans (List.prefix_append ..)))
  · have through : ∃ loc ∈ visited s.cwd a.data.path, s.dataLocation dir <+: loc ∧
        loc ∉ visited s.cwd (s.getDataPath dir) := by
      by_contra none?
      exact lost ⟨below, fun loc member under =>
        by_contra fun missing => none? ⟨loc, member, under, missing⟩⟩
    obtain ⟨loc, member, under, missing⟩ := through
    refine .inr ⟨loc, member, ?_⟩
    rw [emptied, FileSystem.cleared_directories_of_below under]
    exact decide_eq_false missing

/-- The app that is loaded from a directory after one has been saved there is the same, with the
same data. -/
def ComesBack (s : AppService Double) (walk : Walk Double) (made later : Nat) (fs : FileSystem)
    (dir : Bytes) (a : App Double) (entries : List (Bytes × Value Double)) : Prop :=
  ∃ saved b after found, s.saveApp walk made dir a fs = (.ok true, saved) ∧
    s.loadApp later dir saved = (.ok (some b), after) ∧
    b.id = a.id ∧ b.name = a.name ∧ b.code = a.code ∧
    (s.exportTo b.data after).1 = .ok found ∧ ∀ key, found.lookup key = entries.lookup key

theorem comesBack_of_exported (made later : Nat) (plain : s.PlainUuids (made + entries.length))
    (target : s.Target fs dir) (saveable : s.Saveable fs a entries) (other : a.path ≠ dir)
    (exported : s.exportTo a.data (s.emptied walk fs dir a) = (.ok dc, s.emptied walk fs dir a))
    (keys : dc.map (·.1) = entries.map (·.1)) (good : EveryItem Value.Good dc) :
    s.ComesBack walk made later fs dir a entries ↔
      NewlineEnded a.code ∧ ∀ key, dc.lookup key = entries.lookup key := by
  have dcKeys : GoodKeys (dc.map (·.1)) := keys ▸ saveable.keys
  have size : dc.length = entries.length := by
    rw [← List.length_map (·.1), keys, List.length_map]
  obtain ⟨saved, saving, stored⟩ :=
    saveApp_eq made (size ▸ plain) target saveable.id saveable.name other exported dcKeys.distinct
  obtain ⟨b, loading, id, name, code, data⟩ :=
    loadApp_eq later stored saveable.id saveable.name saveable.small dcKeys good
  have walked : ∀ key, (walk.order dc).lookup key = dc.lookup key :=
    lookup_perm (walk.perm dc) dcKeys.distinct
  constructor
  · rintro ⟨saved', b', after, found, saving', loading', -, -, code', data', same⟩
    cases saving.symm.trans saving'
    cases loading.symm.trans loading'
    rw [data] at data'
    cases data'
    refine ⟨(withNewline_eq_self_iff a.code).mp (code.symm.trans code'), fun key => ?_⟩
    rw [← walked key]
    exact same key
  · rintro ⟨ended, same⟩
    refine ⟨saved, b, saved, walk.order dc, saving, loading, id, name, ?_, by rw [data], ?_⟩
    · rw [code, (withNewline_eq_self_iff a.code).mpr ended]
    · intro key
      rw [walked key, same key]

/-- An app comes back from a directory if its code is empty or ends in a newline, and its data
is not lost when the old data in the directory is removed. -/
theorem app_comes_back_iff (made later : Nat) (plain : s.PlainUuids (made + entries.length))
    (target : s.Target fs dir) (saveable : s.Saveable fs a entries) (other : a.path ≠ dir) :
    s.ComesBack walk made later fs dir a entries ↔ NewlineEnded a.code ∧
      (s.Spares dir a.data.path ∨ ∀ e ∈ entries, e.2 = .empty) := by
  by_cases spares : s.Spares dir a.data.path
  · rw [comesBack_of_exported made later plain target saveable other
      (saveable.spared plain.apart spares) rfl saveable.good]
    exact and_congr_right fun _ => iff_of_true (fun _ => rfl) (.inl spares)
  · have keys : (entries.map fun e => (e.1, (.empty : Value Double))).map (·.1) =
        entries.map (·.1) := by
      rw [List.map_map]
      rfl
    have good : EveryItem Value.Good (entries.map fun e => (e.1, (.empty : Value Double))) := by
      intro e member
      obtain ⟨entry, -, rfl⟩ := List.mem_map.mp member
      exact ⟨.empty, .empty⟩
    rw [comesBack_of_exported made later plain target saveable other (saveable.lost spares) keys
      good]
    refine and_congr_right fun _ => ⟨fun same => .inr fun e member => ?_, fun empty key => ?_⟩
    · have there := lookup_of_mem saveable.keys.distinct
        (show (e.1, e.2) ∈ entries from member)
      have lost := lookup_of_mem (keys ▸ saveable.keys.distinct)
        (List.mem_map_of_mem (f := fun e => (e.1, (.empty : Value Double))) member)
      exact Option.some.inj (there.symm.trans ((same e.1).symm.trans lost))
    · rcases empty with spared | none?
      · exact absurd spared spares
      · have same : (entries.map fun e => (e.1, (.empty : Value Double))) = entries := by
          refine (List.map_congr_left fun e member => ?_).trans (List.map_id entries)
          rw [← none? e member]
          rfl
        rw [same]

end Saving

section Example

/-- A home with an app and its data in it, and a directory for a second one. -/
def appDisk : FileSystem where
  directories loc := loc ∈ [[], [ascii "h"], [ascii "h", ascii "a"],
    [ascii "h", ascii "a", ascii "data"], [ascii "h", ascii "d"]]
  files loc := if loc = [ascii "h", ascii "a", ascii "data", [48]] then
    some ((Value.int 1).encode loneDouble) else none

/-- The app in this home, with this code. -/
def diskApp (code : Bytes) : App Unit where
  path := ascii "/h/a"
  id := ascii "i"
  name := ascii "n"
  code := code
  data := {
    path := ascii "/h/a/data"
    index := [(ascii "k", some [48])]
    made := 1 }

def unsorted : Walk Unit := ⟨id, walk_id_perm⟩

theorem zeros_plain : shortHome.PlainUuids 2 where
  apart n member := by
    have first : (zeros.uuid n).head? = some 48 := by
      cases n with
      | zero => rfl
      | succ n => rfl
    have others : ∀ name ∈ savedNames, name.head? ≠ some 48 := by decide
    exact others _ member first
  small n few := by
    change (List.replicate (n + 1) (48 : UInt8)).length < 2 ^ 64
    rw [List.length_replicate]
    omega

theorem appDisk_target : shortHome.Target appDisk (ascii "/h/d") where
  opens := ⟨by decide, by decide, by decide⟩
  metadata := by decide
  code := by decide
  free name _ member := by
    have short : ∀ loc ∈ visited shortHome.cwd (ascii "/h/d"), loc.length ≤ 2 := by decide
    have size := short _ member
    rw [List.length_append] at size
    have deep : (shortHome.dataLocation (ascii "/h/d")).length = 3 := by decide
    rw [deep] at size
    simp at size

theorem diskApp_saveable (code : Bytes) :
    shortHome.Saveable appDisk (diskApp code) [(ascii "k", .int 1)] where
  id := (by decide : ascii "i" ≠ [])
  name := (by decide : ascii "n" ≠ [])
  small := (by decide : (ascii "i").length < 2 ^ 64 ∧ (ascii "n").length < 2 ^ 64)
  opens := (⟨by decide, by decide, by decide⟩ : appDisk.Opens [] (ascii "/h/a/data"))
  filed := by
    refine ⟨rfl, by decide, fun e member => ?_⟩
    cases List.mem_singleton.mp member
    exact ⟨0, rfl, rfl⟩
  keys := ⟨by decide, by decide, by decide⟩
  good e member := by
    cases List.mem_singleton.mp member
    exact ⟨.int, .int⟩

theorem app_comes_back_ended : shortHome.ComesBack unsorted 1 0 appDisk (ascii "/h/d")
    (diskApp [120, 10]) [(ascii "k", .int 1)] :=
  (app_comes_back_iff 1 0 zeros_plain appDisk_target (diskApp_saveable _) (by decide)).mpr
    ⟨by decide, .inl (by unfold Spares; decide)⟩

/-- Code without a newline at its end comes back with one. -/
theorem unended_code_changes :
    shortHome.Target appDisk (ascii "/h/d") ∧
    shortHome.Saveable appDisk (diskApp [120]) [(ascii "k", .int 1)] ∧
    (diskApp [120]).path ≠ ascii "/h/d" ∧
    ((shortHome.saveApp unsorted 1 (ascii "/h/d") (diskApp [120]) >>= fun _ =>
      shortHome.loadApp 0 (ascii "/h/d")) appDisk).1.map (·.map (·.code)) = .ok (some [120, 10]) ∧
    ¬ shortHome.ComesBack unsorted 1 0 appDisk (ascii "/h/d") (diskApp [120])
      [(ascii "k", .int 1)] := by
  have apart : (diskApp [120]).path ≠ ascii "/h/d" := by decide
  have loaded : ((shortHome.saveApp unsorted 1 (ascii "/h/d") (diskApp [120]) >>= fun _ =>
      shortHome.loadApp 0 (ascii "/h/d")) appDisk).1.map (·.map (·.code)) =
        .ok (some [120, 10]) := by
    decide +kernel
  refine ⟨appDisk_target, diskApp_saveable _, apart, loaded, ?_⟩
  rintro ⟨saved, b, after, found, saving, loading, -, -, code, -⟩
  rw [DiskM.bind_ok saving, loading] at loaded
  have read : b.code = [120, 10] := by
    have some? := Except.ok.inj loaded
    exact Option.some.inj some?
  rw [code] at read
  exact absurd read (by decide)

end Example

end AppService

end Firestr.Gui
