import Firestr.Gui.LuaKept

/-! Tables whose keys come back: each field has an entry or an element of its own in
the dictionary, and is pushed under its key. -/

set_option autoImplicit false

namespace Firestr.Gui

open Firestr.Util Firestr.Library.Assoc

variable {Double : Type}

section Members

theorem pushableElements_iff {a : List (Value Double)} :
    pushableElements a = true ↔ ∀ v ∈ a, pushable v = true := by
  induction a with
  | nil => simp [pushableElements]
  | cons v a ih => rw [pushableElements, Bool.and_eq_true, ih, List.forall_mem_cons]

theorem pushableEntries_iff {entries : List (Bytes × Value Double)} :
    pushableEntries entries = true ↔ ∀ k v, (k, v) ∈ entries →
      pushable v = true ∧ (k = arrayK → ∃ a, v = .array a) := by
  have part : ∀ (k : Bytes) (v : Value Double),
      (decide (k ≠ arrayK) || isArray v) = true ↔ (k = arrayK → ∃ a, v = .array a) := by
    intro k v
    cases v <;> simp [isArray]
  induction entries with
  | nil => simp [pushableEntries]
  | cons e entries ih =>
      obtain ⟨k, v⟩ := e
      rw [pushableEntries, Bool.and_eq_true, Bool.and_eq_true, part, forall_mem_cons_iff]
      exact and_congr and_comm ih

end Members

section Unique

/-- A key has one field. -/
theorem field_unique {fields : List (LuaValue Double × LuaTree Double)}
    (distinct : (fields.map (·.1)).Nodup) {key : LuaValue Double} {field other : LuaTree Double}
    (first : (key, field) ∈ fields) (second : (key, other) ∈ fields) : field = other := by
  induction fields with
  | nil => cases first
  | cons e fields ih =>
      obtain ⟨fresh, distinct⟩ := List.nodup_cons.mp distinct
      rcases List.mem_cons.mp first with here | later
      · rcases List.mem_cons.mp second with here' | later'
        · rw [← here'] at here
          cases here
          rfl
        · rw [← here] at fresh
          exact absurd (List.mem_map.mpr ⟨_, later', rfl⟩) fresh
      · rcases List.mem_cons.mp second with here' | later'
        · rw [← here'] at fresh
          exact absurd (List.mem_map.mpr ⟨_, later, rfl⟩) fresh
        · exact ih distinct later later'

end Unique

section Plain

variable {context : LuaContext Double} {fields : List (LuaValue Double × LuaTree Double)}
  {d : List (Bytes × Value Double)}

theorem extractKey_integer (i : Int64) : extractKey context (.integer i) = .ok (i, []) := rfl

theorem extractKey_plain {k : Bytes} (word : context.numbers.ofText k = none) :
    extractKey context (.string k) = .ok (-1, cString k) := by
  simp [extractKey, LuaValue.toInteger, LuaValue.toNumber, LuaValue.toText, word]

theorem KeptKeys.index_pos {keys : List (LuaValue Double)}
    (kept : KeptKeys context.numbers keys) {i : Int64} (member : .integer i ∈ keys) :
    1 ≤ i.toInt := by
  obtain ⟨n, -, indexes⟩ := kept.indexes
  exact ((indexes i).mp member).1

theorem KeptKeys.text {keys : List (LuaValue Double)} (kept : KeptKeys context.numbers keys)
    {k : Bytes} (member : .string k ∈ keys) :
    context.numbers.ofText k = none ∧ 0 ∉ k ∧ k ≠ arrayK := by
  rcases kept.plain _ member with ⟨i, same⟩ | ⟨k', same, plain⟩
  · cases same
  · cases same
    exact plain

theorem wroteText_plain_iff (kept : KeptKeys context.numbers (fields.map (·.1))) {k : Bytes}
    {v : Value Double} :
    WroteText context fields k v ↔
      ∃ field, (.string k, field) ∈ fields ∧ readTree context field = .ok (some v) := by
  constructor
  · rintro ⟨key, field, member, extract, read⟩
    have inside : key ∈ fields.map (·.1) := List.mem_map_of_mem member
    rcases kept.plain key inside with ⟨i, rfl⟩ | ⟨k', rfl, word, whole, -⟩
    · rw [extractKey_integer] at extract
      cases extract
      have positive := kept.index_pos inside
      exact absurd positive (by decide)
    · rw [extractKey_plain word, cString_eq_self_iff.mpr whole] at extract
      cases extract
      exact ⟨field, member, read⟩
  · rintro ⟨field, member, read⟩
    obtain ⟨word, whole, -⟩ := kept.text (List.mem_map_of_mem member)
    refine ⟨_, field, member, ?_, read⟩
    rw [extractKey_plain word, cString_eq_self_iff.mpr whole]

theorem position_of_pos {ik : Int64} (positive : 1 ≤ ik.toInt) :
    ik ≠ -1 ∧ position ik = ik.toInt - 1 := by
  have nonzero : ik ≠ 0 := by
    rintro rfl
    exact absurd positive (by decide)
  refine ⟨?_, by rw [position, if_pos nonzero]⟩
  rintro rfl
  exact absurd positive (by decide)

theorem wroteIndex_plain_iff (kept : KeptKeys context.numbers (fields.map (·.1))) {i : Nat}
    {v : Value Double} :
    WroteIndex context fields i v ↔
      ∃ ik field, (.integer ik, field) ∈ fields ∧ ik.toInt = (i : Int) + 1 ∧
        readTree context field = .ok (some v) := by
  constructor
  · rintro ⟨key, field, ik, text, member, extract, indexed, spot, read⟩
    have inside : key ∈ fields.map (·.1) := List.mem_map_of_mem member
    rcases kept.plain key inside with ⟨i', rfl⟩ | ⟨k', rfl, word, -⟩
    · rw [extractKey_integer] at extract
      cases extract
      rw [(position_of_pos (kept.index_pos inside)).2] at spot
      exact ⟨_, field, member, by omega, read⟩
    · rw [extractKey_plain word] at extract
      cases extract
      exact absurd rfl indexed
  · rintro ⟨ik, field, member, spot, read⟩
    obtain ⟨indexed, place⟩ := position_of_pos (kept.index_pos (List.mem_map_of_mem member))
    exact ⟨_, field, ik, [], member, extractKey_integer ik, indexed, by omega, read⟩

theorem not_wroteText_arrayK (kept : KeptKeys context.numbers (fields.map (·.1)))
    (v : Value Double) : ¬WroteText context fields arrayK v := by
  rw [wroteText_plain_iff kept]
  rintro ⟨field, member, -⟩
  exact (kept.text (List.mem_map_of_mem member)).2.2 rfl

end Plain

section Reading

variable {context : LuaContext Double} {fields : List (LuaValue Double × LuaTree Double)}
  {d : List (Bytes × Value Double)} {field : LuaTree Double} {v : Value Double}

theorem readState_of_readFields (read : readFields context fields [] = .ok d) :
    ReadState context fields d := by
  have state := readFields_state .start read
  rwa [List.nil_append] at state

/-- A text field is the entry under its text. -/
theorem lookup_of_text (kept : KeptKeys context.numbers (fields.map (·.1)))
    (distinct : (fields.map (·.1)).Nodup) (read : readFields context fields [] = .ok d) {k : Bytes}
    (member : (.string k, field) ∈ fields) (image : readTree context field = .ok (some v)) :
    d.lookup k = some v := by
  have state := readState_of_readFields read
  have wrote : WroteText context fields k v := (wroteText_plain_iff kept).mpr ⟨field, member, image⟩
  obtain ⟨⟨k', w⟩, inside, same⟩ := List.mem_map.mp (state.text_there k v wrote)
  have found : d.lookup k = some w := by
    rw [← same]
    exact lookup_of_mem state.distinct inside
  have ordinary : k ≠ arrayK := (kept.text (List.mem_map_of_mem member)).2.2
  obtain ⟨other, member', image'⟩ :=
    (wroteText_plain_iff kept).mp (state.text_from k w ordinary found)
  rw [field_unique distinct member' member, image] at image'
  cases image'
  exact found

/-- An integer field is the element at its index. -/
theorem element_of_index (kept : KeptKeys context.numbers (fields.map (·.1)))
    (distinct : (fields.map (·.1)).Nodup) (read : readFields context fields [] = .ok d)
    {ik : Int64} (member : (.integer ik, field) ∈ fields)
    (image : readTree context field = .ok (some v)) :
    ∃ a j, d.lookup arrayK = some (.array a) ∧ ik.toInt = (j : Nat) + 1 ∧ a[j]? = some v := by
  have state := readState_of_readFields read
  have positive := kept.index_pos (List.mem_map_of_mem member)
  obtain ⟨j, spot⟩ : ∃ j : Nat, ik.toInt = j + 1 := ⟨(ik.toInt - 1).toNat, by omega⟩
  have wrote : WroteIndex context fields j v :=
    (wroteIndex_plain_iff kept).mpr ⟨ik, field, member, spot, image⟩
  obtain ⟨a, w, part, there, present⟩ :=
    state.index_there (not_wroteText_arrayK kept) j v wrote
  rcases state.array_from a j w part there with empty | from_
  · exact absurd empty present
  · obtain ⟨ik', other, member', spot', image'⟩ := (wroteIndex_plain_iff kept).mp from_
    cases Int64.toInt_inj.mp (spot'.trans spot.symm)
    rw [field_unique distinct member' member, image] at image'
    cases image'
    exact ⟨a, j, part, spot, there⟩

/-- The array part has an integer field for each of its elements. -/
theorem index_of_element (kept : KeptKeys context.numbers (fields.map (·.1)))
    (read : readFields context fields [] = .ok d) {a : List (Value Double)}
    (part : d.lookup arrayK = some (.array a)) :
    a.length < 2 ^ 31 ∧ ∀ j < a.length, ∃ ik field,
      (LuaValue.integer ik, field) ∈ fields ∧ ik.toInt = (j : Int) + 1 := by
  obtain ⟨i, w, length, wrote⟩ := (readState_of_readFields read).array_last a part
  obtain ⟨last, field, member, spot, -⟩ := (wroteIndex_plain_iff kept).mp wrote
  obtain ⟨n, small, indexes⟩ := kept.indexes
  have bound := ((indexes last).mp (List.mem_map_of_mem member)).2
  refine ⟨by omega, fun j inside => ?_⟩
  have value : (Int64.ofNat (j + 1)).toInt = (j : Int) + 1 := by
    rw [Int64.toInt_ofNat_of_lt (by omega)]
    push_cast
    rfl
  have there := (indexes (Int64.ofNat (j + 1))).mpr ⟨by omega, by omega⟩
  obtain ⟨⟨_, other⟩, member', rfl⟩ := List.mem_map.mp there
  exact ⟨_, other, member', value⟩

theorem mem_walk_iff {e : Bytes × Value Double} : e ∈ context.walk d ↔ e ∈ d :=
  (context.walk_perm d).mem_iff

theorem walk_distinct (read : readFields context fields [] = .ok d) :
    ((context.walk d).map (·.1)).Nodup :=
  ((context.walk_perm d).map _).nodup_iff.mpr (readState_of_readFields read).distinct

theorem mem_walk_of_lookup (context : LuaContext Double) {k : Bytes}
    (found : d.lookup k = some v) : (k, v) ∈ context.walk d :=
  mem_walk_iff.mpr (mem_of_lookup found)

theorem lookup_of_mem_walk (read : readFields context fields [] = .ok d) {k : Bytes}
    (member : (k, v) ∈ context.walk d) : d.lookup k = some v :=
  lookup_of_mem (readState_of_readFields read).distinct (mem_walk_iff.mp member)

theorem arrayK_whole : 0 ∉ arrayK := by decide

theorem walk_whole (kept : KeptKeys context.numbers (fields.map (·.1)))
    (read : readFields context fields [] = .ok d) :
    ∀ k ∈ (context.walk d).map (·.1), 0 ∉ k := by
  intro k member
  obtain ⟨⟨k', w⟩, inside, same⟩ := List.mem_map.mp member
  simp only at same
  subst same
  by_cases special : k' = arrayK
  · rw [special]
    exact arrayK_whole
  · obtain ⟨field, there, -⟩ := (wroteText_plain_iff kept).mp
      ((readState_of_readFields read).text_from k' w special (lookup_of_mem_walk read inside))
    exact (kept.text (List.mem_map_of_mem there)).2.1

variable [DecidableEq Double]

/-- Each field is pushed under its key. -/
theorem lookup_shown (kept : KeptKeys context.numbers (fields.map (·.1)))
    (distinct : (fields.map (·.1)).Nodup) (read : readFields context fields [] = .ok d)
    (fine : pushableEntries (context.walk d) = true) {key : LuaValue Double}
    (member : (key, field) ∈ fields) (image : readTree context field = .ok (some v)) :
    (shownEntries (context.walk d) []).lookup key = some (shown v) ∧ pushable v = true := by
  rcases kept.plain key (List.mem_map_of_mem member) with ⟨ik, rfl⟩ | ⟨k, rfl, -, -, ordinary⟩
  · obtain ⟨a, j, part, spot, there⟩ := element_of_index kept distinct read member image
    have inside := mem_walk_of_lookup context part
    obtain ⟨small, -⟩ := index_of_element kept read part
    have length : j < a.length := (List.getElem?_eq_some_iff.mp there).1
    have key : (.integer ik : LuaValue Double) = counter (1 + j) := by
      refine congrArg LuaValue.integer (Int64.toInt_inj.mp ?_)
      rw [counter_toInt (by omega), spot]
      push_cast
      omega
    constructor
    · rw [key]
      exact lookup_shownEntries_index fine (walk_distinct read) inside small there
    · have elements := (pushableEntries_iff.mp fine _ _ inside).1
      exact pushableElements_iff.mp elements v (List.mem_of_getElem? there)
  · have inside := mem_walk_of_lookup context
      (lookup_of_text kept distinct read member image)
    exact ⟨lookup_shownEntries_text fine (walk_distinct read) (walk_whole kept read) ordinary inside,
      (pushableEntries_iff.mp fine _ _ inside).1⟩

end Reading

end Firestr.Gui
