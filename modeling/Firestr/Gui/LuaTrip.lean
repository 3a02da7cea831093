import Firestr.Gui.LuaTables

/-! There and back: a tree is pushed as an equal one exactly when it is of the values
that come back. -/

set_option autoImplicit false

namespace Firestr.Gui

open Firestr.Util Firestr.Library.Assoc

variable {Double : Type} {context : LuaContext Double}
  {fields : List (LuaValue Double × LuaTree Double)} {d : List (Bytes × Value Double)}

section Kept

theorem WroteText.mono {done : List (LuaValue Double × LuaTree Double)} {k : Bytes}
    {v : Value Double} (wrote : WroteText context done k v) (within : done ⊆ fields) :
    WroteText context fields k v := by
  obtain ⟨key, field, member, rest⟩ := wrote
  exact ⟨key, field, within member, rest⟩

private theorem insertEntry_isOk {ik : Int64}
    (part : ∀ w, d.lookup arrayK = some w → ∃ a, w = .array a) (inside : 0 ≤ position ik)
    (text : Bytes) (v : Value Double) : ∃ d', insertEntry d ik text v = .ok d' := by
  unfold insertEntry
  by_cases indexed : ik ≠ -1
  · rw [if_pos indexed]
    have array : ∃ a, ((d.lookup arrayK).getD (.array [])).asArray = .ok a := by
      cases held : d.lookup arrayK with
      | none => exact ⟨[], rfl⟩
      | some w =>
          obtain ⟨a, rfl⟩ := part w held
          exact ⟨a, rfl⟩
    obtain ⟨a, array⟩ := array
    obtain ⟨a', element⟩ := setElement_isOk inside a v
    rw [array, ok_bind, element, ok_bind]
    exact ⟨_, rfl⟩
  · rw [if_neg indexed]
    exact ⟨_, rfl⟩

private theorem readFields_isOk (kept : KeptKeys context.numbers (fields.map (·.1)))
    (images : ∀ key field, (key, field) ∈ fields → ∃ v, readTree context field = .ok (some v)) :
    ∃ d, readFields context fields [] = .ok d := by
  suffices rest : ∀ rest done d, fields = done ++ rest → ReadState context done d →
      ∃ d', readFields context rest d = .ok d' by
    exact rest fields [] [] rfl .start
  intro rest
  induction rest with
  | nil => exact fun done d _ _ => ⟨d, rfl⟩
  | cons e rest ih =>
      intro done d whole state
      obtain ⟨key, field⟩ := e
      have member : (key, field) ∈ fields := by rw [whole]; simp
      obtain ⟨v, image⟩ := images key field member
      have part : ∀ w, d.lookup arrayK = some w → ∃ a, w = .array a := by
        refine state.array_part fun w wrote => not_wroteText_arrayK kept w (wrote.mono ?_)
        rw [whole]
        exact List.subset_append_left _ _
      have step : ∃ k d', extractKey context key = .ok k ∧ insertEntry d k.1 k.2 v = .ok d' := by
        rcases kept.plain key (List.mem_map_of_mem member) with ⟨ik, rfl⟩ | ⟨k, rfl, word, -⟩
        · have positive := kept.index_pos (List.mem_map_of_mem member)
          have spot := (position_of_pos positive).2
          obtain ⟨d', insert⟩ := insertEntry_isOk part (by omega : 0 ≤ position ik) [] v
          exact ⟨_, d', extractKey_integer ik, insert⟩
        · exact ⟨_, _, extractKey_plain word, insertEntry_text v⟩
      obtain ⟨k, d', extract, insert⟩ := step
      have one : readFields context [(key, field)] d = .ok d' := by
        rw [readFields, extract, ok_bind, image, ok_bind]
        simp only [insert, ok_bind, readFields]
      obtain ⟨last, success⟩ := ih (done ++ [(key, field)]) d' (by rw [whole]; simp)
        (readFields_state state one)
      refine ⟨last, ?_⟩
      rw [readFields, extract, ok_bind, image, ok_bind]
      simp only [insert, ok_bind]
      exact success

private theorem entry_field (kept : KeptKeys context.numbers (fields.map (·.1)))
    (read : readFields context fields [] = .ok d) {k : Bytes} {w : Value Double}
    (found : d.lookup k = some w) (ordinary : k ≠ arrayK) :
    ∃ key field, (key, field) ∈ fields ∧ readTree context field = .ok (some w) := by
  obtain ⟨field, here, image⟩ := (wroteText_plain_iff kept).mp
    ((readState_of_readFields read).text_from k w ordinary found)
  exact ⟨_, field, here, image⟩

/-- No element is one that fills the array up: the field of its index has written it. -/
private theorem element_field (kept : KeptKeys context.numbers (fields.map (·.1)))
    (images : ∀ key field, (key, field) ∈ fields → ∃ v, readTree context field = .ok (some v))
    (read : readFields context fields [] = .ok d) {a : List (Value Double)} {u : Value Double}
    (part : d.lookup arrayK = some (.array a)) (inside : u ∈ a) :
    ∃ key field, (key, field) ∈ fields ∧ readTree context field = .ok (some u) := by
  have state := readState_of_readFields read
  obtain ⟨j, length, there⟩ := List.getElem_of_mem inside
  have there : a[j]? = some u := there ▸ List.getElem?_eq_getElem length
  obtain ⟨ik, field, here, spot⟩ := (index_of_element kept read part).2 j length
  obtain ⟨v, image⟩ := images _ field here
  have wrote : WroteIndex context fields j v :=
    (wroteIndex_plain_iff kept).mpr ⟨ik, field, here, spot, image⟩
  obtain ⟨a', u', part', there', present⟩ :=
    state.index_there (not_wroteText_arrayK kept) j v wrote
  rw [part] at part'
  cases part'
  rw [there] at there'
  cases there'
  rcases state.array_from a j u part there with empty | wrote'
  · exact absurd empty present
  · obtain ⟨ik', other, here', -, image'⟩ := (wroteIndex_plain_iff kept).mp wrote'
    exact ⟨_, other, here', image'⟩

private theorem pushable_read (kept : KeptKeys context.numbers (fields.map (·.1)))
    (images : ∀ key field, (key, field) ∈ fields →
      ∃ v, readTree context field = .ok (some v) ∧ pushable v = true)
    (read : readFields context fields [] = .ok d) : pushableEntries (context.walk d) = true := by
  have readable : ∀ key field, (key, field) ∈ fields →
      ∃ v, readTree context field = .ok (some v) := fun key field member => by
    obtain ⟨v, image, -⟩ := images key field member
    exact ⟨v, image⟩
  have fine : ∀ key field v, (key, field) ∈ fields → readTree context field = .ok (some v) →
      pushable v = true := by
    intro key field v member image
    obtain ⟨v', image', fine⟩ := images key field member
    rw [image] at image'
    cases image'
    exact fine
  refine pushableEntries_iff.mpr fun k w member => ?_
  have found := lookup_of_mem_walk read member
  by_cases special : k = arrayK
  · subst special
    obtain ⟨a, rfl⟩ :=
      (readState_of_readFields read).array_part (not_wroteText_arrayK kept) w found
    refine ⟨pushableElements_iff.mpr fun u inside => ?_, fun _ => ⟨a, rfl⟩⟩
    obtain ⟨key, field, here, image⟩ := element_field kept readable read found inside
    exact fine key field u here image
  · obtain ⟨key, field, here, image⟩ := entry_field kept read found special
    exact ⟨fine key field w here image, fun array => absurd array special⟩

variable [DecidableEq Double]

private theorem keys_shown (kept : KeptKeys context.numbers (fields.map (·.1)))
    (read : readFields context fields [] = .ok d)
    (fine : pushableEntries (context.walk d) = true) {key : LuaValue Double}
    (member : key ∈ (shownEntries (context.walk d) []).map (·.1)) :
    key ∈ fields.map (·.1) := by
  have state := readState_of_readFields read
  rcases (mem_keys_shownEntries fine).mp member with none | ⟨k, w, inside, ordinary, rfl⟩ |
    ⟨a, inside, j, length, rfl⟩
  · cases none
  · obtain ⟨field, here, -⟩ := (wroteText_plain_iff kept).mp
      (state.text_from k w ordinary (lookup_of_mem_walk read inside))
    have whole := (kept.text (List.mem_map_of_mem here)).2.1
    rw [cString_eq_self_iff.mpr whole]
    exact List.mem_map_of_mem here
  · obtain ⟨small, there⟩ := index_of_element kept read (lookup_of_mem_walk read inside)
    obtain ⟨ik, field, here, spot⟩ := there j length
    have key : (counter (1 + j) : LuaValue Double) = .integer ik := by
      refine congrArg LuaValue.integer (Int64.toInt_inj.mp ?_)
      rw [counter_toInt (by omega), spot]
      push_cast
      omega
    rw [key]
    exact List.mem_map_of_mem here

private theorem table_comes_back (kept : KeptKeys context.numbers (fields.map (·.1)))
    (distinct : (fields.map (·.1)).Nodup)
    (images : ∀ key field, (key, field) ∈ fields →
      ∃ v, readTree context field = .ok (some v) ∧ pushable v = true ∧ field.Same (shown v)) :
    ∃ v, readTree context (.table fields) = .ok (some v) ∧ pushable v = true ∧
      (LuaTree.table fields).Same (shown v) := by
  obtain ⟨d, read⟩ := readFields_isOk kept fun key field member => by
    obtain ⟨v, image, -⟩ := images key field member
    exact ⟨v, image⟩
  have fine := pushable_read kept (fun key field member => by
    obtain ⟨v, image, fine, -⟩ := images key field member
    exact ⟨v, image, fine⟩) read
  refine ⟨.dict (context.walk d), ?_, fine, ?_⟩
  · rw [readTree, read]
    rfl
  · rw [shown, LuaTree.Same]
    refine ⟨_, rfl, sameFields_iff.mpr fun key field member => ?_,
      fun key member => keys_shown kept read fine member⟩
    obtain ⟨v, image, -, same⟩ := images key field member
    exact ⟨shown v, (lookup_shown kept distinct read fine member image).1, same⟩

end Kept

section Back

/-- Only booleans are passed over. -/
theorem readTree_none {t : LuaTree Double} (nothing : readTree context t = .ok none) :
    ∃ b, t = .boolean b := by
  cases t with
  | boolean b => exact ⟨b, rfl⟩
  | integer i => cases nothing
  | number r => cases nothing
  | string s =>
      rw [readTree] at nothing
      cases numeric : context.numbers.ofText s with
      | none =>
          rw [scalarValue_word numeric] at nothing
          cases nothing
      | some x =>
          rw [scalarValue_numeral numeric] at nothing
          cases nothing
  | table fields =>
      rw [readTree] at nothing
      obtain ⟨found, -, ended⟩ := bind_ok nothing
      cases ended

/-- What a loop that ends has made of each field. -/
theorem readFields_reads {rest : List (LuaValue Double × LuaTree Double)}
    {d d' : List (Bytes × Value Double)} (success : readFields context rest d = .ok d')
    {key : LuaValue Double} {field : LuaTree Double} (member : (key, field) ∈ rest) :
    ∃ k r, extractKey context key = .ok k ∧ readTree context field = .ok r ∧
      ∀ v, r = some v → k.1 ≠ -1 → 0 ≤ position k.1 := by
  induction rest generalizing d with
  | nil => cases member
  | cons e rest ih =>
      obtain ⟨key', field'⟩ := e
      rw [readFields] at success
      obtain ⟨⟨ik, text⟩, extract, success⟩ := bind_ok success
      obtain ⟨r, read, success⟩ := bind_ok success
      cases r with
      | none =>
          rcases List.mem_cons.mp member with same | member
          · cases same
            exact ⟨_, _, extract, read, by simp⟩
          · exact ih success member
      | some v =>
          obtain ⟨middle, insert, success⟩ := bind_ok success
          rcases List.mem_cons.mp member with same | member
          · cases same
            refine ⟨_, _, extract, read, fun w _ indexed => ?_⟩
            obtain ⟨-, -, n, -, spot, -⟩ := insertEntry_index indexed insert
            omega
          · exact ih success member

/-- The text of a key that is no index. -/
theorem extractKey_text {key : LuaValue Double} {k : Bytes}
    (extract : extractKey context key = .ok (-1, k)) :
    k = [] ∨ ∃ s, key = .string s ∧ context.numbers.ofText s = none ∧ k = cString s := by
  unfold extractKey at extract
  cases key with
  | integer i =>
      cases extract
      exact .inl rfl
  | number x =>
      simp only [LuaValue.toInteger, LuaValue.toNumber] at extract
      cases whole : context.numbers.truncate x with
      | none =>
          rw [whole] at extract
          cases extract
      | some ik =>
          rw [whole] at extract
          cases extract
          exact .inl rfl
  | string s =>
      simp only [LuaValue.toInteger, LuaValue.toNumber] at extract
      cases numeric : context.numbers.ofText s with
      | none =>
          rw [numeric] at extract
          cases extract
          exact .inr ⟨s, rfl, numeric, rfl⟩
      | some x =>
          rw [numeric] at extract
          simp only at extract
          cases whole : context.numbers.truncate x with
          | none =>
              rw [whole] at extract
              cases extract
          | some ik =>
              rw [whole] at extract
              cases extract
              exact .inl rfl
  | nil | boolean _ | table _ | userdata _ | function _ => cases extract

variable [DecidableEq Double]

theorem shown_ne_boolean (v : Value Double) (b : Bool) : shown v ≠ .boolean b := by
  cases v <;> simp [shown]

private theorem assign_ne_boolean {key : LuaValue Double} {v : Value Double}
    (others : ∀ e ∈ fields, ∀ b, e.2 ≠ LuaTree.boolean b) :
    ∀ e ∈ assign fields key (shown v), ∀ b, e.2 ≠ LuaTree.boolean b := by
  intro e member
  rcases eq_or_mem_of_mem_assign member with rfl | ⟨old, -⟩
  · exact shown_ne_boolean v
  · exact others e old

private theorem shownElements_ne_boolean {a : List (Value Double)} {i : Int32}
    (others : ∀ e ∈ fields, ∀ b, e.2 ≠ LuaTree.boolean b) :
    ∀ e ∈ shownElements i a fields, ∀ b, e.2 ≠ LuaTree.boolean b := by
  induction a generalizing i fields with
  | nil => rwa [shownElements]
  | cons v a ih =>
      rw [shownElements]
      exact ih (assign_ne_boolean others)

private theorem shownEntries_ne_boolean {entries : List (Bytes × Value Double)}
    (others : ∀ e ∈ fields, ∀ b, e.2 ≠ LuaTree.boolean b) :
    ∀ e ∈ shownEntries entries fields, ∀ b, e.2 ≠ LuaTree.boolean b := by
  induction entries generalizing fields with
  | nil => rwa [shownEntries]
  | cons e entries ih =>
      obtain ⟨k, v⟩ := e
      by_cases special : k = arrayK
      · subst special
        cases v with
        | array a =>
            rw [shownEntries_array]
            exact ih (shownElements_ne_boolean others)
        | empty | bool _ | int _ | size _ | real _ | bytes _ | dict _ =>
            rw [shownEntries, if_pos rfl]
            · exact others
            · simp
      · rw [shownEntries_field special]
        exact ih (assign_ne_boolean others)

omit [DecidableEq Double] in
theorem counter_wraps :
    (counter (1 + 2147483647) : LuaValue Double) = .integer (-2147483648) :=
  congrArg LuaValue.integer (by decide)

private theorem wrapped : (-2147483648 : Int64) ≠ -1 ∧ position (-2147483648) < 0 := by decide

section Table

variable (read : readFields context fields [] = .ok d)
  (fine : pushableEntries (context.walk d) = true)
  (same : SameFields fields (shownEntries (context.walk d) []))

include read same in
private theorem field_read {key : LuaValue Double} {field : LuaTree Double}
    (member : (key, field) ∈ fields) : ∃ v, readTree context field = .ok (some v) := by
  obtain ⟨k, r, -, image, -⟩ := readFields_reads read member
  cases r with
  | some v => exact ⟨v, image⟩
  | none =>
      obtain ⟨b, rfl⟩ := readTree_none image
      obtain ⟨other, found, equal⟩ := sameFields_iff.mp same key _ member
      rw [LuaTree.Same] at equal
      exact absurd equal (shownEntries_ne_boolean (by simp) _ (mem_of_lookup found) b)

include same in
private theorem key_shown {key : LuaValue Double} (member : key ∈ fields.map (·.1)) :
    key ∈ (shownEntries (context.walk d) []).map (·.1) := by
  obtain ⟨⟨key', field⟩, inside, rfl⟩ := List.mem_map.mp member
  obtain ⟨other, found, -⟩ := sameFields_iff.mp same key' field inside
  exact List.mem_map.mpr ⟨_, mem_of_lookup found, rfl⟩

include fine same in
private theorem text_shown {s : Bytes} (member : .string s ∈ fields.map (·.1)) :
    ∃ k v, (k, v) ∈ context.walk d ∧ k ≠ arrayK ∧ s = cString k := by
  rcases (mem_keys_shownEntries fine).mp (key_shown same member) with none |
    ⟨k, v, inside, ordinary, text⟩ | ⟨a, inside, j, length, text⟩
  · cases none
  · cases text
    exact ⟨k, v, inside, ordinary, rfl⟩
  · cases text

include read fine same in
private theorem text_plain {s : Bytes} (member : .string s ∈ fields.map (·.1)) :
    context.numbers.ofText s = none ∧ 0 ∉ s ∧ s ≠ arrayK := by
  obtain ⟨k, v, inside, ordinary, text⟩ := text_shown fine same member
  obtain ⟨key, field, there, extract, -⟩ := (readState_of_readFields read).text_from k v ordinary
    (lookup_of_mem_walk read inside)
  have whole : 0 ∉ s := text ▸ zero_notMem_cString k
  rcases extractKey_text extract with rfl | ⟨s', rfl, word, rfl⟩
  · rw [text]
    exact ⟨context.numbers.ofText_nil, by simp [cString], ordinary⟩
  · -- the key that wrote the entry is a text without NUL too, so it is this one
    obtain ⟨k', -, -, -, text'⟩ := text_shown fine same (List.mem_map_of_mem there)
    have whole' : cString s' = s' := cString_eq_self_iff.mpr (text' ▸ zero_notMem_cString k')
    rw [whole'] at text ordinary
    rw [whole'] at text
    subst text
    exact ⟨word, whole, ordinary⟩

variable (back : ∀ key ∈ (shownEntries (context.walk d) []).map (·.1), key ∈ fields.map (·.1))

include read fine same back in
private theorem indexes_plain : ∃ n < 2 ^ 31, ∀ i : Int64,
    .integer i ∈ fields.map (·.1) ↔ 1 ≤ i.toInt ∧ i.toInt ≤ (n : Nat) := by
  have keys : ∀ i : Int64, .integer i ∈ fields.map (·.1) ↔ ∃ a, d.lookup arrayK = some (.array a) ∧
      ∃ j < a.length, (.integer i : LuaValue Double) = counter (1 + j) := by
    intro i
    constructor
    · intro member
      rcases (mem_keys_shownEntries fine).mp (key_shown same member) with none |
        ⟨k, v, -, -, text⟩ | ⟨a, inside, index⟩
      · cases none
      · cases text
      · exact ⟨a, lookup_of_mem_walk read inside, index⟩
    · rintro ⟨a, part, index⟩
      exact back _ ((mem_keys_shownEntries fine).mpr
        (.inr (.inr ⟨a, mem_walk_of_lookup context part, index⟩)))
  by_cases part : ∃ a, d.lookup arrayK = some (.array a)
  · obtain ⟨a, part⟩ := part
    -- an element beyond 31 bits comes back under a negative index, where nothing is read
    have small : a.length < 2 ^ 31 := by
      by_contra long
      have there := (keys (-2147483648)).mpr ⟨a, part, 2147483647, by omega, counter_wraps.symm⟩
      obtain ⟨⟨key, field⟩, member, index⟩ := List.mem_map.mp there
      simp only at index
      subst index
      obtain ⟨v, image⟩ := field_read read same member
      obtain ⟨k, r, extract, image', inside⟩ := readFields_reads read member
      rw [image] at image'
      rw [extractKey_integer] at extract
      cases image'
      cases extract
      exact absurd (inside v rfl wrapped.1) (not_le.mpr wrapped.2)
    refine ⟨a.length, small, fun i => (keys i).trans ?_⟩
    constructor
    · rintro ⟨b, part', j, length, index⟩
      rw [part] at part'
      cases part'
      injection index with index
      rw [index, counter_toInt (by omega)]
      omega
    · rintro ⟨low, high⟩
      refine ⟨a, part, i.toInt.toNat - 1, by omega, ?_⟩
      refine congrArg LuaValue.integer (Int64.toInt_inj.mp ?_)
      rw [counter_toInt (by omega)]
      omega
  · refine ⟨0, by decide, fun i => (keys i).trans ?_⟩
    constructor
    · rintro ⟨a, there, -⟩
      exact absurd ⟨a, there⟩ part
    · intro bounds
      omega

include read fine same back in
private theorem keptKeys_of_same : KeptKeys context.numbers (fields.map (·.1)) := by
  refine ⟨fun key member => ?_, indexes_plain read fine same back⟩
  rcases (mem_keys_shownEntries fine).mp (key_shown same member) with none |
    ⟨k, v, -, -, rfl⟩ | ⟨a, -, j, -, rfl⟩
  · cases none
  · exact .inr ⟨cString k, rfl, text_plain read fine same member⟩
  · exact .inl ⟨_, rfl⟩

end Table

end Back

section Trip

variable [DecidableEq Double]

/-- The value that is read from a tree is pushed as an equal one. -/
def ComesBack (context : LuaContext Double) (t : LuaTree Double) : Prop :=
  ∃ v, readTree context t = .ok (some v) ∧ pushable v = true ∧ t.Same (shown v)

private theorem table_comesBack_iff (distinct : (fields.map (·.1)).Nodup)
    (images : ∀ key field, (key, field) ∈ fields →
      (ComesBack context field ↔ field.Kept context.numbers)) :
    ComesBack context (.table fields) ↔ (LuaTree.table fields).Kept context.numbers := by
  rw [LuaTree.Kept, keptFields_iff]
  constructor
  · rintro ⟨v, image, fine, same⟩
    rw [readTree] at image
    obtain ⟨d, read, ended⟩ := bind_ok image
    cases ended
    rw [shown, LuaTree.Same] at same
    obtain ⟨others, ⟨⟩, same, back⟩ := same
    have kept := keptKeys_of_same read fine same back
    refine ⟨kept, fun key field member => (images key field member).mp ?_⟩
    obtain ⟨v, image⟩ := field_read read same member
    obtain ⟨other, found, equal⟩ := sameFields_iff.mp same key field member
    obtain ⟨found', fine'⟩ := lookup_shown kept distinct read fine member image
    rw [found'] at found
    cases found
    exact ⟨v, image, fine', equal⟩
  · rintro ⟨kept, all⟩
    exact table_comes_back kept distinct fun key field member =>
      (images key field member).mpr (all key field member)

private theorem string_comesBack_iff (s : Bytes) :
    ComesBack context (.string s) ↔ (LuaTree.string s).Kept context.numbers := by
  rw [LuaTree.Kept]
  constructor
  · rintro ⟨v, image, -, same⟩
    rw [readTree] at image
    rw [LuaTree.Same] at same
    cases numeric : context.numbers.ofText s with
    | none =>
        rw [scalarValue_word numeric] at image
        cases image
        rw [shown, cString_eq_self_iff.mpr (zero_notMem_cString s), LuaTree.string.injEq] at same
        exact ⟨rfl, cString_eq_self_iff.mp same⟩
    | some x =>
        rw [scalarValue_numeral numeric] at image
        cases image
        cases same
  · rintro ⟨word, whole⟩
    refine ⟨.bytes (cString s), ?_, rfl, ?_⟩
    · rw [readTree, scalarValue_word word]
    · rw [LuaTree.Same, shown, cString_eq_self_iff.mpr whole, cString_eq_self_iff.mpr whole]

mutual

theorem comesBack_iff {t : LuaTree Double} (distinct : t.Distinct) :
    ComesBack context t ↔ t.Kept context.numbers := by
  cases t with
  | boolean b =>
      constructor
      · rintro ⟨v, image, -⟩
        cases image
      · exact False.elim
  | integer i => exact ⟨fun _ => trivial, fun _ => ⟨_, rfl, rfl, rfl⟩⟩
  | number r => exact ⟨fun _ => trivial, fun _ => ⟨_, rfl, rfl, rfl⟩⟩
  | string s => exact string_comesBack_iff s
  | table fields =>
      rw [LuaTree.Distinct] at distinct
      exact table_comesBack_iff distinct.1 (fields_comeBack_iff distinct.2)

theorem fields_comeBack_iff {fields : List (LuaValue Double × LuaTree Double)}
    (distinct : DistinctFields fields) : ∀ key field, (key, field) ∈ fields →
      (ComesBack context field ↔ field.Kept context.numbers) := by
  cases fields with
  | nil =>
      intro key field member
      cases member
  | cons e fields =>
      obtain ⟨key', field'⟩ := e
      rw [DistinctFields] at distinct
      have here : ComesBack context field' ↔ field'.Kept context.numbers :=
        comesBack_iff distinct.1
      have later := @fields_comeBack_iff fields distinct.2
      intro key field member
      rcases List.mem_cons.mp member with same | member
      · cases same
        exact here
      · exact later key field member

end

end Trip

section Slots

mutual

/-- The slots that a value needs on its way back: one, and two more for each level
of tables around it. -/
def LuaTree.slots : LuaTree Double → Nat
  | .table fields => slotsFields fields + 1
  | _ => 1

def slotsFields : List (LuaValue Double × LuaTree Double) → Nat
  | [] => 0
  | (_, field) :: rest => max (field.slots + 1) (slotsFields rest)

end

theorem slotsFields_le_iff {m : Nat} :
    slotsFields fields ≤ m ↔ ∀ key field, (key, field) ∈ fields → field.slots + 1 ≤ m := by
  induction fields with
  | nil => simp [slotsFields]
  | cons e fields ih =>
      obtain ⟨key, field⟩ := e
      rw [slotsFields, Nat.max_le, ih, forall_mem_cons_iff]

theorem slotsOfElements_le_iff {a : List (Value Double)} {m : Nat} :
    slotsOfElements a ≤ m ↔ ∀ v ∈ a, slotsOf v + 1 ≤ m := by
  induction a with
  | nil => simp [slotsOfElements]
  | cons v a ih => rw [slotsOfElements, Nat.max_le, ih, List.forall_mem_cons]

theorem slotsOfEntries_le_iff {entries : List (Bytes × Value Double)} {m : Nat} :
    slotsOfEntries entries ≤ m ↔ ∀ k v, (k, v) ∈ entries →
      (if k = arrayK then slotsOf v - 1 else slotsOf v + 1) ≤ m := by
  induction entries with
  | nil => simp [slotsOfEntries]
  | cons e entries ih =>
      obtain ⟨k, v⟩ := e
      rw [slotsOfEntries, Nat.max_le, ih, forall_mem_cons_iff]

private theorem table_slots (kept : KeptKeys context.numbers (fields.map (·.1)))
    (distinct : (fields.map (·.1)).Nodup) (read : readFields context fields [] = .ok d)
    (images : ∀ key field, (key, field) ∈ fields →
      ∃ v, readTree context field = .ok (some v) ∧ slotsOf v = field.slots) :
    slotsOfEntries (context.walk d) = slotsFields fields := by
  have readable : ∀ key field, (key, field) ∈ fields →
      ∃ v, readTree context field = .ok (some v) := fun key field member => by
    obtain ⟨v, image, -⟩ := images key field member
    exact ⟨v, image⟩
  have below : ∀ key field v, (key, field) ∈ fields → readTree context field = .ok (some v) →
      slotsOf v + 1 ≤ slotsFields fields := by
    intro key field v member image
    obtain ⟨v', image', slots⟩ := images key field member
    rw [image] at image'
    cases image'
    rw [slots]
    exact slotsFields_le_iff.mp le_rfl key field member
  refine le_antisymm (slotsOfEntries_le_iff.mpr fun k w member => ?_)
    (slotsFields_le_iff.mpr fun key field member => ?_)
  · have found := lookup_of_mem_walk read member
    by_cases special : k = arrayK
    · subst special
      obtain ⟨a, rfl⟩ :=
        (readState_of_readFields read).array_part (not_wroteText_arrayK kept) w found
      rw [if_pos rfl, slotsOf, Nat.add_sub_cancel]
      refine slotsOfElements_le_iff.mpr fun u inside => ?_
      obtain ⟨key, field, here, image⟩ := element_field kept readable read found inside
      exact below key field u here image
    · obtain ⟨key, field, here, image⟩ := entry_field kept read found special
      rw [if_neg special]
      exact below key field w here image
  · obtain ⟨v, image, slots⟩ := images key field member
    rw [← slots]
    rcases kept.plain key (List.mem_map_of_mem member) with ⟨ik, rfl⟩ | ⟨k, rfl, -, -, ordinary⟩
    · obtain ⟨a, j, part, -, there⟩ := element_of_index kept distinct read member image
      have entry := slotsOfEntries_le_iff.mp le_rfl _ _ (mem_walk_of_lookup context part)
      rw [if_pos rfl, slotsOf, Nat.add_sub_cancel] at entry
      exact slotsOfElements_le_iff.mp entry v (List.mem_of_getElem? there)
    · have entry := slotsOfEntries_le_iff.mp le_rfl _ _
        (mem_walk_of_lookup context (lookup_of_text kept distinct read member image))
      rwa [if_neg ordinary] at entry

mutual

/-- Reading takes no more slots than pushing. -/
theorem readSlots_le (t : LuaTree Double) : readSlots t ≤ t.slots := by
  cases t with
  | table fields =>
      have below := readSlotsFields_le fields
      rw [readSlots, LuaTree.slots]
      omega
  | boolean b | integer i | number r | string s => exact Nat.zero_le _

theorem readSlotsFields_le (fields : List (LuaValue Double × LuaTree Double)) :
    readSlotsFields fields ≤ slotsFields fields + 1 := by
  cases fields with
  | nil => exact Nat.zero_le _
  | cons e fields =>
      obtain ⟨key, field⟩ := e
      have here := readSlots_le field
      have later := readSlotsFields_le fields
      rw [readSlotsFields, slotsFields]
      omega

end

mutual

/-- The value of a tree that comes back needs the slots of the tree. -/
theorem slotsOf_read [DecidableEq Double] {t : LuaTree Double} (distinct : t.Distinct)
    (kept : t.Kept context.numbers) {v : Value Double}
    (image : readTree context t = .ok (some v)) : slotsOf v = t.slots := by
  cases t with
  | boolean b => cases kept
  | integer i =>
      cases image
      rfl
  | number r =>
      cases image
      rfl
  | string s =>
      rw [readTree, scalarValue_word kept.1] at image
      cases image
      rfl
  | table fields =>
      rw [LuaTree.Distinct] at distinct
      rw [LuaTree.Kept] at kept
      have images := slotsOf_fields distinct.2 kept.2
      rw [readTree] at image
      obtain ⟨d, read, ended⟩ := bind_ok image
      cases ended
      rw [slotsOf, LuaTree.slots, table_slots kept.1 distinct.1 read images]

theorem slotsOf_fields [DecidableEq Double]
    {fields : List (LuaValue Double × LuaTree Double)} (distinct : DistinctFields fields)
    (kept : KeptFields context.numbers fields) :
    ∀ key field, (key, field) ∈ fields →
      ∃ v, readTree context field = .ok (some v) ∧ slotsOf v = field.slots := by
  cases fields with
  | nil =>
      intro key field member
      cases member
  | cons e fields =>
      obtain ⟨key', field'⟩ := e
      rw [DistinctFields] at distinct
      rw [KeptFields] at kept
      obtain ⟨v, image, -⟩ := (comesBack_iff distinct.1).mpr kept.1
      have here : slotsOf v = field'.slots := slotsOf_read distinct.1 kept.1 image
      have later := slotsOf_fields distinct.2 kept.2
      intro key field member
      rcases List.mem_cons.mp member with same | member
      · cases same
        exact ⟨v, image, here⟩
      · exact later key field member

end

end Slots

end Firestr.Gui
