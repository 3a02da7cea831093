import Firestr.Gui.LuaCalls

/-! When the writes of `to_dict` stay in their arrays, and apart: if the keys of each table it is
called for do. -/

set_option autoImplicit false

namespace Firestr.Gui

open Firestr.Util Firestr.Library.Assoc

variable {Double : Type}

section Loop

variable {context : LuaContext Double} {key : LuaValue Double} {field : LuaTree Double}
  {rest fields : List (LuaValue Double × LuaTree Double)} {d : List (Bytes × Value Double)}

/-- The loop comes to its end, and its writes are in their arrays and where nothing has been
stored. -/
structure Fine (context : LuaContext Double) (fields : List (LuaValue Double × LuaTree Double))
    (d : List (Bytes × Value Double)) : Prop where
  ends : ∃ d', readFields context fields d = .ok d'
  writes : ∀ e ∈ writesFields context fields d, e.2.Inside ∧ e.2.old = .empty

theorem readTree_stored {r : Option (Value Double)} (read : readTree context field = .ok r) :
    field.stored = r.isSome := by
  cases field with
  | boolean b =>
      cases read
      rfl
  | integer i | number x =>
      cases read
      rfl
  | string s =>
      rw [readTree] at read
      cases numeric : context.numbers.ofText s with
      | none =>
          rw [scalarValue_word numeric] at read
          cases read
          rfl
      | some x =>
          rw [scalarValue_numeral numeric] at read
          cases read
          rfl
  | table fields =>
      rw [readTree] at read
      obtain ⟨found, -, ended⟩ := bind_ok read
      cases ended
      rfl

theorem Fine.known (fine : Fine context ((key, field) :: rest) d) :
    ∃ k r, extractKey context key = .ok k ∧ readTree context field = .ok r := by
  obtain ⟨d', read⟩ := fine.ends
  rw [readFields] at read
  obtain ⟨k, extract, read⟩ := bind_ok read
  obtain ⟨r, value, -⟩ := bind_ok read
  exact ⟨k, r, extract, value⟩

theorem fine_skip_iff {k : Int64 × Bytes} (extract : extractKey context key = .ok k)
    (nothing : readTree context field = .ok none) :
    Fine context ((key, field) :: rest) d ↔ Fine context rest d := by
  have reads : readFields context ((key, field) :: rest) d = readFields context rest d := by
    rw [readFields, extract, ok_bind, nothing]
    rfl
  have writes : writesFields context ((key, field) :: rest) d = writesFields context rest d :=
    writesFields_skip extract nothing
  constructor
  · rintro ⟨ends, all⟩
    exact ⟨reads ▸ ends, writes ▸ all⟩
  · rintro ⟨ends, all⟩
    exact ⟨reads ▸ ends, writes ▸ all⟩

theorem fine_store_iff {ik : Int64} {text : Bytes} {v : Value Double}
    (extract : extractKey context key = .ok (ik, text))
    (value : readTree context field = .ok (some v)) :
    Fine context ((key, field) :: rest) d ↔ ∃ w d', writeOf d ik text = .ok w ∧ w.Inside ∧
      w.old = .empty ∧ w.store d v = .ok d' ∧ Fine context rest d' := by
  have reads : readFields context ((key, field) :: rest) d = (do
      let w ← writeOf d ik text
      let d ← w.store d v
      readFields context rest d) := by
    rw [readFields, extract, ok_bind, value, ok_bind]
    change (insertEntry d ik text v >>= readFields context rest) = _
    rw [insertEntry_eq]
    cases writeOf d ik text with
    | ok w => rfl
    | error fault => rfl
  constructor
  · rintro ⟨⟨last, ends⟩, all⟩
    rw [reads] at ends
    obtain ⟨w, write, ends⟩ := bind_ok ends
    obtain ⟨d', store, ends⟩ := bind_ok ends
    rw [writesFields_store extract value write store, List.forall_mem_cons] at all
    exact ⟨w, d', write, all.1.1, all.1.2, store, ⟨last, ends⟩, all.2⟩
  · rintro ⟨w, d', write, inside, old, store, ⟨last, ends⟩, all⟩
    refine ⟨⟨last, ?_⟩, ?_⟩
    · rw [reads, write, ok_bind, store, ok_bind]
      exact ends
    · rw [writesFields_store extract value write store, List.forall_mem_cons]
      exact ⟨⟨inside, old⟩, all⟩

/-- The loop is fine from a dictionary on if the keys that are left are, and what they store has
a free place in it. -/
theorem fine_iff (context : LuaContext Double)
    (fields : List (LuaValue Double × LuaTree Double)) (d : List (Bytes × Value Double)) :
    Fine context fields d ↔
      (∀ e ∈ fields, (∃ k, extractKey context e.1 = .ok k) ∧ ∃ r, readTree context e.2 = .ok r) ∧
      (∀ e ∈ storedFields fields, (∀ i, e.1.whole context = some i → -1 ≤ i.toInt) ∧
        FreeIn context d e.1) ∧
      (storedFields fields).Pairwise fun e e' => ¬ Clash context e.1 e'.1 := by
  induction fields generalizing d with
  | nil =>
      constructor
      · intro _
        exact ⟨by simp, by simp [storedFields], .nil⟩
      · intro _
        exact ⟨⟨d, rfl⟩, by simp [writesFields]⟩
  | cons e rest ih =>
      obtain ⟨key, field⟩ := e
      by_cases known : ∃ k r, extractKey context key = .ok k ∧ readTree context field = .ok r
      · obtain ⟨⟨ik, text⟩, r, extract, value⟩ := known
        have stored := readTree_stored value
        rw [List.forall_mem_cons]
        cases r with
        | none =>
            have same : storedFields ((key, field) :: rest) = storedFields rest :=
              List.filter_cons_of_neg (by simp [stored])
            rw [fine_skip_iff extract value, ih, same]
            constructor
            · rintro ⟨later, free, apart⟩
              exact ⟨⟨⟨⟨_, extract⟩, _, value⟩, later⟩, free, apart⟩
            · rintro ⟨⟨-, later⟩, free, apart⟩
              exact ⟨later, free, apart⟩
        | some v =>
            have same : storedFields ((key, field) :: rest) = (key, field) :: storedFields rest :=
              List.filter_cons_of_pos stored
            obtain ⟨present, scalar⟩ := readTree_some value
            rw [fine_store_iff extract value, same, List.forall_mem_cons, List.pairwise_cons]
            constructor
            · rintro ⟨w, d', write, inside, old, store, later⟩
              obtain ⟨known, free, apart⟩ := (ih d').mp later
              have both := fun e' member => (freeIn_store_iff extract write inside store present scalar
                (free e' member).1).mp (free e' member).2
              exact ⟨⟨⟨⟨_, extract⟩, _, value⟩, known⟩,
                ⟨(write_ok_iff extract v).mp ⟨w, d', write, inside, old, store⟩,
                  fun e' member => ⟨(free e' member).1, (both e' member).1⟩⟩,
                fun e' member => (both e' member).2, apart⟩
            · rintro ⟨⟨-, known⟩, ⟨here, free⟩, clear, apart⟩
              obtain ⟨w, d', write, inside, old, store⟩ := (write_ok_iff extract v).mpr here
              refine ⟨w, d', write, inside, old, store, (ih d').mpr ⟨known, ?_, apart⟩⟩
              intro e' member
              obtain ⟨bound, free⟩ := free e' member
              exact ⟨bound, (freeIn_store_iff extract write inside store present scalar bound).mpr
                ⟨free, clear e' member⟩⟩
      · refine iff_of_false (fun fine => known fine.known) ?_
        rintro ⟨all, -⟩
        obtain ⟨⟨k, extract⟩, r, value⟩ := all _ List.mem_cons_self
        exact known ⟨k, r, extract, value⟩

/-- A number goes to the element at its position, and -1 and a text to the entry. -/
structure Fits (context : LuaContext Double) (key : LuaValue Double) (w : Write Double) :
    Prop where
  element : ∀ i, Numbered context key i → ∃ a, w = .element a (position i)
  entry : ∀ text, Named context key text → ∃ d, w = .entry d text

theorem writeOf_fits {ik : Int64} {text : Bytes} {w : Write Double}
    (extract : extractKey context key = .ok (ik, text)) (write : writeOf d ik text = .ok w) :
    Fits context key w := by
  rcases extractKey_cases extract with ⟨indexed, numbered, unnamed⟩ | ⟨rfl, unnumbered, named⟩
  · rw [writeOf, if_pos indexed] at write
    obtain ⟨a, -, ended⟩ := bind_ok write
    cases ended
    refine ⟨fun i number => ?_, fun t name => absurd name (unnamed t)⟩
    rw [(numbered i).mp number]
    exact ⟨_, rfl⟩
  · cases write
    refine ⟨fun i number => absurd number (unnumbered i), fun t name => ?_⟩
    rw [(named t).mp name]
    exact ⟨d, rfl⟩

/-- Each write is the one of a field. -/
theorem field_of_write {e : LuaValue Double × Write Double}
    (member : e ∈ writesFields context fields d) :
    (∃ field, (e.1, field) ∈ storedFields fields) ∧ Fits context e.1 e.2 := by
  induction fields generalizing d with
  | nil => cases member
  | cons f rest ih =>
      obtain ⟨key, field⟩ := f
      have later : ∀ d, e ∈ writesFields context rest d →
          (∃ field', (e.1, field') ∈ storedFields ((key, field) :: rest)) ∧
            Fits context e.1 e.2 := by
        intro d inside
        obtain ⟨⟨field', there⟩, fits⟩ := ih inside
        refine ⟨⟨field', ?_⟩, fits⟩
        rw [storedFields, List.mem_filter] at there ⊢
        exact ⟨.tail _ there.1, there.2⟩
      rw [writesFields] at member
      split at member
      · rename_i k v extract value
        split at member
        · rename_i w write
          cases member with
          | head =>
              have stored := readTree_stored value
              exact ⟨⟨field, List.mem_filter.mpr ⟨List.mem_cons_self, stored⟩⟩,
                writeOf_fits extract write⟩
          | tail _ member =>
              split at member
              · exact later _ member
              · cases member
        · cases member
      · exact later d member
      · cases member

/-- Each stored field has its write. -/
theorem Fine.write_of_field (fine : Fine context fields d) {e : LuaValue Double × LuaTree Double}
    (member : e ∈ storedFields fields) : ∃ w, (e.1, w) ∈ writesFields context fields d := by
  induction fields generalizing d with
  | nil => cases member
  | cons f rest ih =>
      obtain ⟨key, field⟩ := f
      obtain ⟨⟨ik, text⟩, r, extract, value⟩ := fine.known
      have stored := readTree_stored value
      cases r with
      | none =>
          rw [storedFields, List.filter_cons_of_neg (by simp [stored])] at member
          rw [writesFields_skip extract value]
          exact ih ((fine_skip_iff extract value).mp fine) member
      | some v =>
          rw [storedFields, List.filter_cons_of_pos (by simp [stored])] at member
          obtain ⟨w, d', write, -, -, store, later⟩ := (fine_store_iff extract value).mp fine
          rw [writesFields_store extract value write store]
          cases member with
          | head => exact ⟨w, List.mem_cons_self⟩
          | tail _ member =>
              obtain ⟨w', there⟩ := ih later member
              exact ⟨w', .tail _ there⟩

end Loop

section Tables

variable {context : LuaContext Double} {fields : List (LuaValue Double × LuaTree Double)}

theorem Clash.symm {key other : LuaValue Double} (clash : Clash context key other) :
    Clash context other key := by
  rcases clash with ⟨i, j, first, second, same⟩ | ⟨text, first, second⟩ | ⟨i, first, second⟩ |
    ⟨i, first, second⟩
  · refine .inl ⟨j, i, second, first, ?_⟩
    rcases same with same | ⟨zero, one⟩ | ⟨one, zero⟩
    · exact .inl same.symm
    · exact .inr (.inr ⟨one, zero⟩)
    · exact .inr (.inl ⟨zero, one⟩)
  · exact .inr (.inl ⟨text, second, first⟩)
  · exact .inr (.inr (.inr ⟨i, second, first⟩))
  · exact .inr (.inr (.inl ⟨i, second, first⟩))

theorem freeIn_nil (key : LuaValue Double) : FreeIn context [] key :=
  ⟨fun _ _ => ⟨[], rfl, rfl⟩, fun _ _ => rfl⟩

theorem numbered_integer {i : Int64} (other : i ≠ -1) :
    Numbered context (.integer i) i := ⟨rfl, other⟩

theorem KeysFit.fine (fit : KeysFit context fields)
    (reads : ∀ e ∈ fields, ∃ r, readTree context e.2 = .ok r) : Fine context fields [] :=
  (fine_iff context fields []).mpr
    ⟨fun e member => ⟨known_iff.mp (fit.known e member), reads e member⟩,
      fun e member => ⟨fit.bounds e member, freeIn_nil e.1⟩, fit.apart⟩

theorem KeysFit.storesApart (fit : KeysFit context fields)
    (reads : ∀ e ∈ fields, ∃ r, readTree context e.2 = .ok r) : StoresApart context fields := by
  obtain ⟨ends, writes⟩ := fit.fine reads
  refine ⟨ends, fun e member => (writes e member).1, fun e member => (writes e member).2, ?_⟩
  intro i j w w' first second different
  obtain ⟨⟨field, member⟩, fits⟩ := field_of_write first
  obtain ⟨⟨field', member'⟩, fits'⟩ := field_of_write second
  have other : i ≠ -1 := by
    rintro rfl
    exact different (fit.integers _ member _ member' j rfl rfl).symm
  have other' : j ≠ -1 := by
    rintro rfl
    exact different (fit.integers _ member' _ member i rfl rfl)
  obtain ⟨a, element⟩ := fits.element i (numbered_integer other)
  obtain ⟨b, element'⟩ := fits'.element j (numbered_integer other')
  refine ⟨a, _, b, _, element, element', fun same => ?_⟩
  have symmetric : Std.Symm fun e e' : LuaValue Double × LuaTree Double =>
      ¬ Clash context e.1 e'.1 := ⟨fun _ _ apart clash => apart clash.symm⟩
  have fields_ne : ((.integer i, field) : LuaValue Double × LuaTree Double) ≠ (.integer j, field') := by
    rintro ⟨⟩
    exact different rfl
  exact fit.apart.forall member member' fields_ne
    (.inl ⟨i, j, numbered_integer other, numbered_integer other', position_eq_iff.mp same⟩)

theorem StoresApart.fine (stores : StoresApart context fields) : Fine context fields [] :=
  ⟨stores.ends, fun e member => ⟨stores.writes.inside e member, stores.writes.fresh e member⟩⟩

theorem StoresApart.keysFit (stores : StoresApart context fields) : KeysFit context fields := by
  obtain ⟨known, free, apart⟩ := (fine_iff context fields []).mp stores.fine
  refine ⟨fun e member => known_iff.mpr (known e member).1, fun e member => (free e member).1,
    apart, ?_⟩
  intro e member e' member' j minus integer
  by_contra different
  obtain ⟨w, write⟩ := stores.fine.write_of_field member
  obtain ⟨w', write'⟩ := stores.fine.write_of_field member'
  rw [minus] at write
  rw [integer] at write'
  obtain ⟨a, ik, b, jk, element, -⟩ := stores.writes.apart _ _ _ _ write write' (Ne.symm different)
  obtain ⟨d, entry⟩ := (field_of_write write).2.entry [] (.inl ⟨rfl, rfl⟩)
  rw [element] at entry
  cases entry

mutual

theorem readTree_of_fit (t : LuaTree Double) (fit : ∀ loop ∈ t.calls, KeysFit context loop) :
    ∃ r, readTree context t = .ok r := by
  cases t with
  | boolean v | integer v | number v | string v => exact ⟨_, rfl⟩
  | table fields =>
      have reads := readTree_of_fit_fields fields fun loop member => fit loop (.tail _ member)
      obtain ⟨⟨d, ends⟩, -⟩ := (fit fields List.mem_cons_self).fine reads
      rw [readTree, ends]
      exact ⟨_, rfl⟩

theorem readTree_of_fit_fields (fields : List (LuaValue Double × LuaTree Double))
    (fit : ∀ loop ∈ callsFields fields, KeysFit context loop) :
    ∀ e ∈ fields, ∃ r, readTree context e.2 = .ok r := by
  cases fields with
  | nil =>
      intro e member
      cases member
  | cons f rest =>
      obtain ⟨key, field⟩ := f
      rw [callsFields] at fit
      intro e member
      cases member with
      | head =>
          exact readTree_of_fit field fun loop member => fit loop (List.mem_append_left _ member)
      | tail _ member =>
          exact readTree_of_fit_fields rest
            (fun loop member => fit loop (List.mem_append_right _ member)) e member

end

mutual

/-- The tables in a table that `to_dict` is called for are among those it is called for. -/
theorem calls_nested (t : LuaTree Double) {loop : List (LuaValue Double × LuaTree Double)}
    (member : loop ∈ t.calls) : ∀ inner ∈ callsFields loop, inner ∈ t.calls := by
  cases t with
  | boolean v | integer v | number v | string v => cases member
  | table fields =>
      intro inner inside
      cases member with
      | head => exact .tail _ inside
      | tail _ member => exact .tail _ (callsFields_nested fields member inner inside)

theorem callsFields_nested (fields : List (LuaValue Double × LuaTree Double))
    {loop : List (LuaValue Double × LuaTree Double)} (member : loop ∈ callsFields fields) :
    ∀ inner ∈ callsFields loop, inner ∈ callsFields fields := by
  cases fields with
  | nil => cases member
  | cons f rest =>
      obtain ⟨key, field⟩ := f
      rw [callsFields, List.mem_append] at member
      intro inner inside
      rw [callsFields, List.mem_append]
      rcases member with here | later
      · exact .inl (calls_nested field here inner inside)
      · exact .inr (callsFields_nested rest later inner inside)

end

/-- In every table in a tree the writes of `to_dict` are apart, if and only if the keys fit. -/
theorem calls_apart_iff (context : LuaContext Double) (t : LuaTree Double) :
    (∀ loop ∈ t.calls, StoresApart context loop) ↔ ∀ loop ∈ t.calls, KeysFit context loop := by
  constructor
  · intro stores loop member
    exact (stores loop member).keysFit
  · intro fit loop member
    exact (fit loop member).storesApart (readTree_of_fit_fields loop fun inner inside =>
      fit inner (calls_nested t member inner inside))

theorem readTree_of_readFields {d d' : List (Bytes × Value Double)}
    (read : readFields context fields d = .ok d') :
    ∀ e ∈ fields, ∃ r, readTree context e.2 = .ok r := by
  induction fields generalizing d with
  | nil =>
      intro e member
      cases member
  | cons f rest ih =>
      obtain ⟨key, field⟩ := f
      rw [readFields] at read
      obtain ⟨k, -, read⟩ := bind_ok read
      obtain ⟨r, value, read⟩ := bind_ok read
      have later : ∃ d, readFields context rest d = .ok d' := by
        cases r with
        | none => exact ⟨d, read⟩
        | some v =>
            obtain ⟨d₁, -, read⟩ := bind_ok read
            exact ⟨d₁, read⟩
      obtain ⟨d₁, later⟩ := later
      intro e member
      cases member with
      | head => exact ⟨r, value⟩
      | tail _ member => exact ih later e member

mutual

/-- A tree that is read to its end is so in each of its tables. -/
theorem calls_end (t : LuaTree Double) (read : ∃ r, readTree context t = .ok r) :
    ∀ loop ∈ t.calls, ∃ d, readFields context loop [] = .ok d := by
  cases t with
  | boolean v | integer v | number v | string v =>
      intro loop member
      cases member
  | table fields =>
      obtain ⟨r, read⟩ := read
      rw [readTree] at read
      obtain ⟨d, walked, -⟩ := bind_ok read
      intro loop member
      cases member with
      | head => exact ⟨d, walked⟩
      | tail _ member =>
          exact callsFields_end fields (readTree_of_readFields walked) loop member

theorem callsFields_end (fields : List (LuaValue Double × LuaTree Double))
    (reads : ∀ e ∈ fields, ∃ r, readTree context e.2 = .ok r) :
    ∀ loop ∈ callsFields fields, ∃ d, readFields context loop [] = .ok d := by
  cases fields with
  | nil =>
      intro loop member
      cases member
  | cons f rest =>
      obtain ⟨key, field⟩ := f
      rw [List.forall_mem_cons] at reads
      intro loop member
      rw [callsFields, List.mem_append] at member
      rcases member with here | later
      · exact calls_end field reads.1 loop here
      · exact callsFields_end rest reads.2 loop later

end

end Tables

section Runs

variable [DecidableEq Double] {context : LuaContext Double} {L : LuaState Double} {table : Int}
  {id : Nat}

/-- `to_dict` comes to its end from the state, and the writes of each of its calls are apart. -/
def RunsApart (context : LuaContext Double) (table : Int) (L : LuaState Double) : Prop :=
  ∃ fuel d L' calls, toDictLogged context fuel table (L, []) = (.ok d, L', calls) ∧
    ∀ writes ∈ calls, WritesApart writes

/-- The table is the tree of the fields, the slots that are read at one time are there, and the
keys fit in it and in each table in it. -/
structure TreeFits (context : LuaContext Double) (L : LuaState Double) (id : Nat)
    (fields : List (LuaValue Double × LuaTree Double)) : Prop where
  seen : ∃ t, L.tables[id]? = some t ∧ SeenFields L.tables t.entries fields
  room : max 1 (readSlotsFields fields) ≤ L.free
  keys : ∀ loop ∈ (LuaTree.table fields).calls, KeysFit context loop

/-- A run that ends is for a tree, and has made the writes of each table in it. -/
theorem RunsApart.tree (placed : Placed L.stack table id) (runs : RunsApart context table L) :
    ∃ t fields, L.tables[id]? = some t ∧ SeenFields L.tables t.entries fields ∧
      max 1 (readSlotsFields fields) ≤ L.free ∧
      ∀ loop ∈ (LuaTree.table fields).calls, StoresApart context loop := by
  obtain ⟨fuel, d, L', calls, run, apart⟩ := runs
  have plain := ((toDictLogged_erases context fuel table).ok_iff []).mpr ⟨calls, run⟩
  obtain ⟨t, fields, there, seen, deep⟩ := toDict_sees context fuel table id L L' d placed plain
  obtain ⟨⟨found, read, -⟩, room, -⟩ :=
    (toDict_reads context fuel fields table id t L L' d deep placed there seen).mp plain
  have made := toDictLogged_logs context fuel fields table id t L L' d [] calls deep placed there
    seen run
  have ends := @calls_end _ context (.table fields) ⟨_, by rw [readTree, read]; rfl⟩
  refine ⟨t, fields, there, seen, room, fun loop member => ⟨ends loop member, apart _ ?_⟩⟩
  exact made.mem_iff.mpr (List.mem_map_of_mem member)

/-- `to_dict` comes to its end, with each write of each call in its array, where nothing has been
stored, and integer keys in elements of their own, if and only if the table is a tree whose keys
fit, and the slots to read it are there. -/
theorem toDict_stores_apart_iff (placed : Placed L.stack table id) :
    RunsApart context table L ↔ ∃ fields, TreeFits context L id fields := by
  constructor
  · intro runs
    obtain ⟨t, fields, there, seen, room, stores⟩ := runs.tree placed
    exact ⟨fields, ⟨t, there, seen⟩, room, (calls_apart_iff context (.table fields)).mp stores⟩
  · rintro ⟨fields, ⟨t, there, seen⟩, room, keys⟩
    have stores := (calls_apart_iff context (.table fields)).mpr keys
    obtain ⟨⟨found, read⟩, -⟩ := stores fields List.mem_cons_self
    have plain := (toDict_reads context (readDepthFields fields) fields table id t L L _ le_rfl
      placed there seen).mpr ⟨⟨found, read, rfl⟩, room, rfl⟩
    obtain ⟨calls, run⟩ := ((toDictLogged_erases context _ table).ok_iff []).mp plain
    have made := toDictLogged_logs context _ fields table id t L L _ [] calls le_rfl placed there
      seen run
    refine ⟨_, _, L, calls, run, fun writes member => ?_⟩
    obtain ⟨loop, inside, same⟩ := List.mem_map.mp (made.mem_iff.mp member)
    exact same ▸ (stores loop inside).writes

end Runs

section Examples

/-- A call with a table on its stack, and the slots that Lua promises. -/
def calledWith (tables : List (LuaTable Nat)) : LuaState Nat := ⟨[.table 0], 20, tables, [], []⟩

theorem calledWith_placed (tables : List (LuaTable Nat)) :
    Placed (calledWith tables).stack 1 0 := ⟨[], [], rfl, rfl⟩

def zeroAndOne : LuaTable Nat :=
  ⟨[(.integer 0, .integer 5), (.integer 1, .integer 6)], by decide, by decide⟩

def belowFirst : LuaTable Nat := ⟨[(.integer (-2), .integer 5)], by decide, by decide⟩

private theorem seen_integers {tables : List (LuaTable Nat)} (entries : List (Int64 × Int64))
    {fields : List (LuaValue Nat × LuaTree Nat)}
    (seen : SeenFields tables (entries.map fun e => (.integer e.1, .integer e.2)) fields) :
    fields = entries.map fun e => (.integer e.1, .integer e.2) := by
  induction entries generalizing fields with
  | nil =>
      cases fields with
      | nil => rfl
      | cons f rest =>
          unfold SeenFields at seen
          obtain ⟨x, rest, same, -⟩ := seen
          cases same
  | cons e entries ih =>
      cases fields with
      | nil =>
          unfold SeenFields at seen
          cases seen
      | cons f rest =>
          obtain ⟨key, field⟩ := f
          unfold SeenFields at seen
          obtain ⟨x, others, same, here, later⟩ := seen
          cases same
          rw [ih later, List.map_cons]
          unfold Seen at here
          cases field with
          | integer i =>
              cases here
              rfl
          | boolean b | number r | string s => cases here
          | table inner =>
              obtain ⟨id, t, same, -⟩ := here
              cases same

/-- The keys 0 and 1 have the same element, and -2 has one before the first. -/
theorem zero_overwritten_by_one :
    (∃ d, toDictLogged wholeContext 3 1 (calledWith [zeroAndOne], []) =
      (.ok d, calledWith [zeroAndOne],
        [[(.integer 0, .element [.empty] 0), (.integer 1, .element [.int 5] 0)]])) ∧
    ¬ RunsApart wholeContext 1 (calledWith [zeroAndOne]) ∧
    writeOf [] (-2) [] = .ok (.element ([] : List (Value Nat)) (-3)) ∧
    (toDict wholeContext 3 1 (calledWith [belowFirst])).1 = .error .dangling ∧
    ¬ RunsApart wholeContext 1 (calledWith [belowFirst]) := by
  refine ⟨⟨_, rfl⟩, fun runs => ?_, rfl, rfl, fun runs => ?_⟩
  · obtain ⟨t, fields, there, seen, -, stores⟩ := runs.tree (calledWith_placed _)
    cases there
    cases seen_integers [(0, 5), (1, 6)] seen
    have second := (stores _ List.mem_cons_self).writes.fresh _ (.tail _ List.mem_cons_self)
    cases second
  · obtain ⟨t, fields, there, seen, -, stores⟩ := runs.tree (calledWith_placed _)
    cases there
    cases seen_integers [(-2, 5)] seen
    have first := (stores _ List.mem_cons_self).writes.inside _ List.mem_cons_self
    exact absurd first.1 (by decide)

/-- A table with a table under a text. -/
def nestedTables : List (LuaTable Nat) :=
  [⟨[(.string [107], .table 1)], by decide, by decide⟩,
    ⟨[(.integer 3, .integer 6), (.integer 1, .integer 7)], by decide, by decide⟩]

private theorem nested_run : ∃ d, toDictLogged wholeContext 4 1 (calledWith nestedTables, []) =
    (.ok d, calledWith nestedTables,
      [[(.integer 3, .element [.empty, .empty, .empty] 2),
          (.integer 1, .element [.empty, .empty, .int 6] 0)],
        [(.string [107], .entry [] [107])]]) := ⟨_, rfl⟩

theorem nested_stores_apart :
    RunsApart wholeContext 1 (calledWith nestedTables) ∧
      ∃ fields, TreeFits wholeContext (calledWith nestedTables) 0 fields := by
  obtain ⟨d, run⟩ := nested_run
  have runs : RunsApart wholeContext 1 (calledWith nestedTables) := by
    refine ⟨4, d, _, _, run, ?_⟩
    simp only [List.forall_mem_cons]
    refine ⟨⟨?_, ?_, ?_⟩, ⟨?_, ?_, ?_⟩, List.forall_mem_nil _⟩
    · simp [Write.Inside]
    · simp [Write.old]
    · intro i j w w' first second different
      simp only [List.mem_cons, Prod.mk.injEq, LuaValue.integer.injEq, List.not_mem_nil,
        or_false] at first second
      rcases first with ⟨rfl, rfl⟩ | ⟨rfl, rfl⟩
      · rcases second with ⟨rfl, rfl⟩ | ⟨rfl, rfl⟩
        · exact absurd rfl different
        · exact ⟨_, _, _, _, rfl, rfl, by decide⟩
      · rcases second with ⟨rfl, rfl⟩ | ⟨rfl, rfl⟩
        · exact ⟨_, _, _, _, rfl, rfl, by decide⟩
        · exact absurd rfl different
    · simp [Write.Inside]
    · simp [Write.old]
    · intro i j w w' first
      simp at first
  exact ⟨runs, (toDict_stores_apart_iff (calledWith_placed _)).mp runs⟩

end Examples

end Firestr.Gui
