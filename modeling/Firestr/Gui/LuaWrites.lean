import Firestr.Gui.LuaFields

/-! The writes of `to_dict`: which go into the array part, at which index, and what was there
before. Which key has its place where nothing has been stored. -/

set_option autoImplicit false

namespace Firestr.Gui

open Firestr.Util Firestr.Library.Assoc

variable {Double : Type}

section Writes

/-- One write of the loop of `to_dict`: `(*a)[ik] = v`, where the array has been resized
already, or `d[key] = v`. -/
inductive Write (Double : Type) where
  | element (a : List (Value Double)) (ik : Int)
  | entry (d : List (Bytes × Value Double)) (key : Bytes)

/-- The array that an element is stored in, resized if it is too short. -/
def resized (a : List (Value Double)) (ik : Int64) : List (Value Double) :=
  if a.length ≤ position ik then resize a ((position ik).toNat + 1) .empty else a

/-- The write that `insertEntry` makes. -/
def writeOf (d : List (Bytes × Value Double)) (ik : Int64) (key : Bytes) :
    Outcome (Write Double) :=
  if ik ≠ -1 then do
    let a ← ((d.lookup arrayK).getD (.array [])).asArray
    pure (.element (resized a ik) (position ik))
  else pure (.entry d key)

def Write.Inside : Write Double → Prop
  | .element a ik => 0 ≤ ik ∧ ik < a.length
  | .entry _ _ => True

/-- What is written over. -/
def Write.old : Write Double → Value Double
  | .element a ik => (a[ik.toNat]?).getD .empty
  | .entry d key => (d.lookup key).getD .empty

/-- The dictionary `d` after the write of a value. -/
def Write.store (d : List (Bytes × Value Double)) (v : Value Double) :
    Write Double → Outcome (List (Bytes × Value Double))
  | .element a ik =>
    if ik < 0 then .error .dangling else .ok (assign d arrayK (.array (a.set ik.toNat v)))
  | .entry _ key => .ok (assign d key v)

theorem insertEntry_eq (d : List (Bytes × Value Double)) (ik : Int64) (key : Bytes)
    (v : Value Double) :
    insertEntry d ik key v = (do
      let w ← writeOf d ik key
      w.store d v) := by
  unfold insertEntry writeOf
  split
  · cases ((d.lookup arrayK).getD (.array [])).asArray with
    | error fault => rfl
    | ok a =>
        simp only [ok_bind, pure_ok, setElement, Write.store]
        split
        · rfl
        · rfl
  · rfl

/-- The writes of one call of `to_dict`, each with its key. -/
abbrev CallWrites (Double : Type) := List (LuaValue Double × Write Double)

variable (context : LuaContext Double)

/-- The writes of the loop for one table, as far as the loop comes. -/
def writesFields : List (LuaValue Double × LuaTree Double) → List (Bytes × Value Double) →
    CallWrites Double
  | [], _ => []
  | (key, field) :: rest, d =>
    match extractKey context key, readTree context field with
    | .ok k, .ok (some v) =>
      match writeOf d k.1 k.2 with
      | .ok w =>
        (key, w) ::
          match w.store d v with
          | .ok d => writesFields rest d
          | .error _ => []
      | .error _ => []
    | .ok _, .ok none => writesFields rest d
    | _, _ => []

end Writes

mutual

/-- The tables that `to_dict` is called for: each table in the tree. -/
def LuaTree.calls : LuaTree Double → List (List (LuaValue Double × LuaTree Double))
  | .table fields => fields :: callsFields fields
  | _ => []

def callsFields : List (LuaValue Double × LuaTree Double) →
    List (List (LuaValue Double × LuaTree Double))
  | [] => []
  | (_, field) :: rest => field.calls ++ callsFields rest

end

section Keys

variable (context : LuaContext Double) (key : LuaValue Double)

/-- The whole number that a key is: an integer, or a real or the numeral of one, cut off. -/
def LuaValue.whole : Option Int64 :=
  match key.toInteger with
  | some i => some i
  | none => (key.toNumber context.numbers).bind context.numbers.truncate

/-- The key is a number, other than the one that stands for no number. -/
def Numbered (i : Int64) : Prop := key.whole context = some i ∧ i ≠ -1

/-- The key is a text, up to its first NUL. -1 is the empty text. -/
def Named (text : Bytes) : Prop :=
  (key.whole context = some (-1) ∧ text = []) ∨
    key.toNumber context.numbers = none ∧ ∃ s, key.toText context.numbers = some s ∧
      text = cString s

/-- The keys are the same number or the numbers 0 and 1, or they are the same text, or one of
them is a number and the other the text of the array part. -/
def Clash (key other : LuaValue Double) : Prop :=
  (∃ i j, Numbered context key i ∧ Numbered context other j ∧
    (i = j ∨ (i = 0 ∧ j = 1) ∨ (i = 1 ∧ j = 0))) ∨
  (∃ text, Named context key text ∧ Named context other text) ∨
  (∃ i, Numbered context key i ∧ Named context other arrayK) ∨
  ∃ i, Named context key arrayK ∧ Numbered context other i

end Keys

/-- The value goes into the dictionary. -/
def LuaTree.stored : LuaTree Double → Bool
  | .boolean _ => false
  | _ => true

def storedFields (fields : List (LuaValue Double × LuaTree Double)) :
    List (LuaValue Double × LuaTree Double) := fields.filter (·.2.stored)

section Claims

variable (context : LuaContext Double) (fields : List (LuaValue Double × LuaTree Double))

/-- Each write is in its array and where nothing has been stored, and two integer keys have two
elements of the array. -/
structure WritesApart (writes : CallWrites Double) : Prop where
  inside : ∀ e ∈ writes, e.2.Inside
  fresh : ∀ e ∈ writes, e.2.old = .empty
  apart : ∀ i j w w', (.integer i, w) ∈ writes → (.integer j, w') ∈ writes → i ≠ j →
    ∃ a ik b jk, w = .element a ik ∧ w' = .element b jk ∧ ik ≠ jk

/-- `to_dict` comes to the end of the table, and its writes are apart. -/
structure StoresApart : Prop where
  ends : ∃ d, readFields context fields [] = .ok d
  writes : WritesApart (writesFields context fields [])

/-- The keys are strings and numbers. None of those with a value that is stored is less than
-1, no two of them clash, and -1 is the only integer among them if it is one. -/
structure KeysFit : Prop where
  known : ∀ e ∈ fields, (∃ i, e.1.whole context = some i) ∨ ∃ text, Named context e.1 text
  bounds : ∀ e ∈ storedFields fields, ∀ i, e.1.whole context = some i → -1 ≤ i.toInt
  apart : (storedFields fields).Pairwise fun e e' => ¬ Clash context e.1 e'.1
  integers : ∀ e ∈ storedFields fields, ∀ e' ∈ storedFields fields, ∀ j,
    e.1 = .integer (-1) → e'.1 = .integer j → j = -1

end Claims

section Keys

variable {context : LuaContext Double} {key other : LuaValue Double} {ik : Int64} {text : Bytes}

theorem extractKey_iff : extractKey context key = .ok (ik, text) ↔
    (key.whole context = some ik ∧ text = []) ∨
      key.toNumber context.numbers = none ∧ ik = -1 ∧
        ∃ s, key.toText context.numbers = some s ∧ text = cString s := by
  unfold extractKey LuaValue.whole
  cases integral : key.toInteger with
  | some i =>
      have number : key.toNumber context.numbers ≠ none := by
        cases key with
        | integer v => exact Option.some_ne_none _
        | nil | boolean v | number v | string v | table id | userdata id | function id =>
            cases integral
      simp [number, eq_comm]
  | none =>
      cases number : key.toNumber context.numbers with
      | some v =>
          cases cut : context.numbers.truncate v with
          | some i => simp [cut, eq_comm]
          | none => simp [cut]
      | none =>
          cases string : key.toText context.numbers with
          | some s => simp [eq_comm]
          | none => simp

/-- A key is one number, or it is one text. -/
theorem extractKey_cases (extract : extractKey context key = .ok (ik, text)) :
    (ik ≠ -1 ∧ (∀ j, Numbered context key j ↔ j = ik) ∧ ∀ t, ¬ Named context key t) ∨
      (ik = -1 ∧ (∀ i, ¬ Numbered context key i) ∧ ∀ t, Named context key t ↔ t = text) := by
  unfold Numbered Named
  rcases extractKey_iff.mp extract with ⟨whole, rfl⟩ | ⟨number, rfl, s, string, rfl⟩
  · have number : key.toNumber context.numbers ≠ none := by
      intro none?
      have integral : key.toInteger = none := by
        cases key with
        | integer v => cases none?
        | nil | boolean v | number v | string v | table id | userdata id | function id => rfl
      rw [LuaValue.whole, integral, none?] at whole
      cases whole
    by_cases minus : ik = -1
    · subst minus
      exact .inr ⟨rfl, by simp +contextual [whole, eq_comm], by simp [whole, number]⟩
    · refine .inl ⟨minus, fun j => ⟨?_, ?_⟩, by simp [whole, number, minus]⟩
      · rintro ⟨same, -⟩
        exact (Option.some.inj (whole.symm.trans same)).symm
      · rintro rfl
        exact ⟨whole, minus⟩
  · have whole : key.whole context = none := by
      have integral : key.toInteger = none := by
        cases key with
        | integer v => cases number
        | nil | boolean v | number v | string v | table id | userdata id | function id => rfl
      rw [LuaValue.whole, integral, number]
      rfl
    exact .inr ⟨rfl, by simp [whole], by simp [whole, number, string]⟩

theorem known_iff : ((∃ i, key.whole context = some i) ∨ ∃ text, Named context key text) ↔
    ∃ k, extractKey context key = .ok k := by
  constructor
  · rintro (⟨i, whole⟩ | ⟨text, ⟨whole, rfl⟩ | ⟨number, s, string, rfl⟩⟩)
    · exact ⟨(i, []), extractKey_iff.mpr (.inl ⟨whole, rfl⟩)⟩
    · exact ⟨(-1, []), extractKey_iff.mpr (.inl ⟨whole, rfl⟩)⟩
    · exact ⟨(-1, cString s), extractKey_iff.mpr (.inr ⟨number, rfl, s, string, rfl⟩)⟩
  · rintro ⟨⟨ik, text⟩, extract⟩
    rcases extractKey_iff.mp extract with ⟨whole, -⟩ | ⟨number, -, s, string, same⟩
    · exact .inl ⟨ik, whole⟩
    · exact .inr ⟨text, .inr ⟨number, s, string, same⟩⟩

theorem position_nonneg_iff (indexed : ik ≠ -1) : 0 ≤ position ik ↔ -1 ≤ ik.toInt := by
  have other : ik.toInt ≠ -1 := fun same => indexed (Int64.toInt_inj.mp same)
  unfold position
  split
  · rename_i nonzero
    have other : ik.toInt ≠ 0 := fun same => nonzero (Int64.toInt_inj.mp same)
    omega
  · omega

theorem position_eq_iff {jk : Int64} :
    position ik = position jk ↔ ik = jk ∨ (ik = 0 ∧ jk = 1) ∨ (ik = 1 ∧ jk = 0) := by
  have zero : (0 : Int64).toInt = 0 := by decide
  have one : (1 : Int64).toInt = 1 := by decide
  rw [← Int64.toInt_inj, ← Int64.toInt_inj, ← Int64.toInt_inj, ← Int64.toInt_inj, ← Int64.toInt_inj,
    zero, one]
  unfold position
  have apart : ∀ k : Int64, k ≠ 0 ↔ k.toInt ≠ 0 := by
    intro k
    rw [← zero, ne_eq, ne_eq, Int64.toInt_inj]
  simp only [apart]
  split <;> split <;> omega

end Keys

section Fields

variable {context : LuaContext Double} {key : LuaValue Double} {field : LuaTree Double}
  {rest : List (LuaValue Double × LuaTree Double)} {d d' : List (Bytes × Value Double)}
  {k : Int64 × Bytes}

theorem writesFields_skip (extract : extractKey context key = .ok k)
    (nothing : readTree context field = .ok none) :
    writesFields context ((key, field) :: rest) d = writesFields context rest d := by
  rw [writesFields, extract, nothing]

theorem writesFields_store {v : Value Double} {w : Write Double}
    (extract : extractKey context key = .ok k) (value : readTree context field = .ok (some v))
    (write : writeOf d k.1 k.2 = .ok w) (store : w.store d v = .ok d') :
    writesFields context ((key, field) :: rest) d = (key, w) :: writesFields context rest d' := by
  rw [writesFields, extract, value]
  simp only [write, store]

end Fields

section Free

variable {context : LuaContext Double} {key other : LuaValue Double} {ik : Int64} {text : Bytes}
  {a : List (Value Double)} {d d' : List (Bytes × Value Double)} {v : Value Double}

/-- Nothing has been stored where the value of the key goes. -/
structure FreeIn (context : LuaContext Double) (d : List (Bytes × Value Double))
    (key : LuaValue Double) : Prop where
  element : ∀ i, Numbered context key i → ∃ a, (d.lookup arrayK).getD (.array []) = .array a ∧
    (a[(position i).toNat]?).getD .empty = .empty
  entry : ∀ text, Named context key text → (d.lookup text).getD .empty = .empty

theorem asArray_ok_iff : v.asArray = .ok a ↔ v = .array a := by
  cases v with
  | array b => simp [Value.asArray]
  | empty | bool b | int i | size n | real r | bytes b | dict d => simp [Value.asArray]

/-- What a resized array has at an index is what was there before, or empty. -/
theorem resized_getD (n : Nat) : ((resized a ik)[n]?).getD .empty = (a[n]?).getD .empty := by
  unfold resized resize
  split
  · rename_i short
    rw [List.take_of_length_le (by omega), List.getElem?_append]
    split
    · rfl
    · rename_i beyond
      rw [List.getElem?_replicate, List.getElem?_eq_none (not_lt.mp beyond)]
      split
      · rfl
      · rfl
  · rfl

theorem position_lt_resized : position ik < (resized a ik).length := by
  unfold resized resize
  split
  · rename_i short
    rw [List.take_of_length_le (by omega), List.length_append, List.length_replicate]
    omega
  · rename_i long
    exact not_le.mp long

/-- A write is in its array and where nothing has been stored, if the number is not too small
and its place is free. -/
theorem write_ok_iff (extract : extractKey context key = .ok (ik, text)) (v : Value Double) :
    (∃ w d', writeOf d ik text = .ok w ∧ w.Inside ∧ w.old = .empty ∧ w.store d v = .ok d') ↔
      (∀ i, key.whole context = some i → -1 ≤ i.toInt) ∧ FreeIn context d key := by
  rcases extractKey_cases extract with ⟨indexed, numbered, unnamed⟩ | ⟨rfl, unnumbered, named⟩
  · have whole : key.whole context = some ik := ((numbered ik).mpr rfl).1
    constructor
    · rintro ⟨w, d', write, inside, old, -⟩
      rw [writeOf, if_pos indexed] at write
      obtain ⟨a, array, ended⟩ := bind_ok write
      cases ended
      refine ⟨?_, ?_, fun t name => absurd name (unnamed t)⟩
      · intro i same
        rw [← Option.some.inj (whole.symm.trans same)]
        exact (position_nonneg_iff indexed).mp inside.1
      · intro j number
        rw [(numbered j).mp number]
        exact ⟨a, asArray_ok_iff.mp array, (resized_getD _).symm.trans old⟩
    · rintro ⟨bound, free⟩
      obtain ⟨a, array, empty⟩ := free.element ik ((numbered ik).mpr rfl)
      have above : 0 ≤ position ik := (position_nonneg_iff indexed).mpr (bound ik whole)
      refine ⟨.element (resized a ik) (position ik), _, ?_, ⟨above, position_lt_resized⟩,
        (resized_getD _).trans empty, if_neg (not_lt.mpr above)⟩
      rw [writeOf, if_pos indexed, array]
      rfl
  · constructor
    · rintro ⟨w, d', write, -, old, -⟩
      cases write
      refine ⟨fun i whole => ?_, fun i number => absurd number (unnumbered i), fun t name => ?_⟩
      · by_cases minus : i = -1
        · rw [minus]
          decide
        · exact absurd ⟨whole, minus⟩ (unnumbered i)
      · rw [(named t).mp name]
        exact old
    · rintro ⟨-, free⟩
      exact ⟨.entry d text, _, rfl, trivial, free.entry text ((named text).mpr rfl), rfl⟩

/-- After an element has been stored, a key is free as before if it does not clash. -/
theorem freeIn_element_iff (extract : extractKey context key = .ok (ik, text)) (indexed : ik ≠ -1)
    (above : 0 ≤ position ik) (array : (d.lookup arrayK).getD (.array []) = .array a)
    (present : v ≠ .empty) (bound : ∀ j, other.whole context = some j → -1 ≤ j.toInt) :
    FreeIn context (assign d arrayK (.array ((resized a ik).set (position ik).toNat v))) other ↔
      FreeIn context d other ∧ ¬ Clash context key other := by
  obtain ⟨-, numbered, unnamed⟩ | ⟨minus, -⟩ := extractKey_cases extract
  · have self : Numbered context key ik := (numbered ik).mpr rfl
    constructor
    · rintro ⟨element, entry⟩
      have numbers : ∀ j, Numbered context other j →
          position ik ≠ position j ∧ (a[(position j).toNat]?).getD .empty = .empty := by
        intro j number
        obtain ⟨b, same, empty⟩ := element j number
        rw [lookup_assign_self] at same
        cases same
        have apart : position ik ≠ position j := by
          intro same
          rw [← same, List.getElem?_set_self (by
            have := @position_lt_resized _ ik a
            omega)] at empty
          exact present empty
        have below : 0 ≤ position j := (position_nonneg_iff number.2).mpr (bound j number.1)
        rw [List.getElem?_set_ne (by omega), resized_getD] at empty
        exact ⟨apart, empty⟩
      have texts : ∀ t, Named context other t → t ≠ arrayK ∧ (d.lookup t).getD .empty = .empty := by
        intro t name
        have empty := entry t name
        rw [lookup_assign] at empty
        split at empty
        · cases empty
        · rename_i ordinary
          exact ⟨ordinary, empty⟩
      refine ⟨⟨fun j number => ⟨a, array, (numbers j number).2⟩, fun t name => (texts t name).2⟩, ?_⟩
      rintro (⟨i, j, number, number', same⟩ | ⟨t, name, -⟩ | ⟨i, -, name⟩ | ⟨i, name, -⟩)
      · rw [(numbered i).mp number] at same
        exact (numbers j number').1 (position_eq_iff.mpr same)
      · exact unnamed t name
      · exact (texts _ name).1 rfl
      · exact unnamed _ name
    · rintro ⟨free, apart⟩
      constructor
      · intro j number
        obtain ⟨b, same, empty⟩ := free.element j number
        rw [array] at same
        cases same
        refine ⟨_, by rw [lookup_assign_self]; rfl, ?_⟩
        have other : position ik ≠ position j := fun same =>
          apart (.inl ⟨ik, j, self, number, position_eq_iff.mp same⟩)
        have below : 0 ≤ position j := (position_nonneg_iff number.2).mpr (bound j number.1)
        rw [List.getElem?_set_ne (by omega), resized_getD]
        exact empty
      · intro t name
        have ordinary : t ≠ arrayK := by
          rintro rfl
          exact apart (.inr (.inr (.inl ⟨ik, self, name⟩)))
        rw [lookup_assign_of_ne ordinary]
        exact free.entry t name
  · exact absurd minus indexed

/-- The same after an entry has been stored. -/
theorem freeIn_entry_iff (extract : extractKey context key = .ok (-1, text))
    (present : v ≠ .empty) (scalar : isArray v = false) :
    FreeIn context (assign d text v) other ↔
      FreeIn context d other ∧ ¬ Clash context key other := by
  obtain ⟨indexed, -⟩ | ⟨-, unnumbered, named⟩ := extractKey_cases extract
  · exact absurd rfl indexed
  · have self : Named context key text := (named text).mpr rfl
    constructor
    · rintro ⟨element, entry⟩
      have numbers : ∀ j, Numbered context other j → text ≠ arrayK ∧
          ∃ a, (d.lookup arrayK).getD (.array []) = .array a ∧
            (a[(position j).toNat]?).getD .empty = .empty := by
        intro j number
        obtain ⟨a, same, empty⟩ := element j number
        rw [lookup_assign] at same
        split at same
        · rw [Option.getD_some] at same
          rw [same] at scalar
          cases scalar
        · rename_i ordinary
          exact ⟨Ne.symm ordinary, a, same, empty⟩
      have texts : ∀ t, Named context other t → t ≠ text ∧ (d.lookup t).getD .empty = .empty := by
        intro t name
        have empty := entry t name
        rw [lookup_assign] at empty
        split at empty
        · exact absurd empty present
        · rename_i different
          exact ⟨different, empty⟩
      refine ⟨⟨fun j number => (numbers j number).2, fun t name => (texts t name).2⟩, ?_⟩
      rintro (⟨i, j, number, -⟩ | ⟨t, name, name'⟩ | ⟨i, number, -⟩ | ⟨i, name, number⟩)
      · exact unnumbered i number
      · exact (texts t name').1 ((named t).mp name)
      · exact unnumbered i number
      · exact (numbers i number).1 ((named _).mp name).symm
    · rintro ⟨free, apart⟩
      constructor
      · intro j number
        have ordinary : arrayK ≠ text := by
          intro same
          exact apart (.inr (.inr (.inr ⟨j, same ▸ self, number⟩)))
        rw [lookup_assign_of_ne ordinary]
        exact free.element j number
      · intro t name
        have different : t ≠ text := by
          rintro rfl
          exact apart (.inr (.inl ⟨t, self, name⟩))
        rw [lookup_assign_of_ne different]
        exact free.entry t name

theorem freeIn_store_iff (extract : extractKey context key = .ok (ik, text)) {w : Write Double}
    (write : writeOf d ik text = .ok w) (inside : w.Inside) (store : w.store d v = .ok d')
    (present : v ≠ .empty) (scalar : isArray v = false)
    (bound : ∀ j, other.whole context = some j → -1 ≤ j.toInt) :
    FreeIn context d' other ↔ FreeIn context d other ∧ ¬ Clash context key other := by
  by_cases indexed : ik = -1
  · subst indexed
    cases write
    cases store
    exact freeIn_entry_iff extract present scalar
  · rw [writeOf, if_pos indexed] at write
    obtain ⟨a, array, ended⟩ := bind_ok write
    cases ended
    rw [Write.store, if_neg (not_lt.mpr inside.1)] at store
    cases store
    exact freeIn_element_iff extract indexed inside.1 (asArray_ok_iff.mp array) present bound

end Free

end Firestr.Gui
