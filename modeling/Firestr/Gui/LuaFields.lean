import Firestr.Gui.LuaPush
import Firestr.Gui.LuaRead

/-! Which field of a table an entry of the dictionary comes from that `to_dict`
makes of it. -/

set_option autoImplicit false

namespace Firestr.Gui

open Firestr.Util Firestr.Library.Assoc

variable {Double : Type} {context : LuaContext Double}

section Insert

variable {d d' : List (Bytes × Value Double)} {a a' : List (Value Double)} {ik : Int64}
  {text : Bytes} {v : Value Double}

theorem insertEntry_text (v : Value Double) :
    insertEntry d (-1) text v = .ok (assign d text v) := by
  unfold insertEntry
  rw [if_neg (by simp)]
  rfl

/-- An element lands at its position, and what fills the array up is empty. -/
structure Placing (a a' : List (Value Double)) (n : Nat) (v : Value Double) : Prop where
  there : a'[n]? = some v
  others : ∀ i w, i ≠ n → a'[i]? = some w → a[i]? = some w ∨ w = .empty
  kept : ∀ (i : Nat) (w : Value Double), i ≠ n → a[i]? = some w → a'[i]? = some w
  length : a'.length = max a.length (n + 1)

private theorem grown_eq (a : List (Value Double)) (n : Nat) :
    ∃ fill, (if (a.length : Int) ≤ n then resize a (n + 1) .empty else a) =
        a ++ List.replicate fill .empty ∧ a.length + fill = max a.length (n + 1) := by
  split
  · rename_i short
    have short : a.length ≤ n := by exact_mod_cast short
    refine ⟨n + 1 - a.length, ?_, by omega⟩
    rw [resize, List.take_of_length_le (by omega)]
  · rename_i long
    have long : n < a.length := by exact_mod_cast not_le.mp long
    exact ⟨0, (List.append_nil a).symm, by omega⟩

private theorem placing_set {fill n : Nat} (length : a.length + fill = max a.length (n + 1)) :
    Placing a ((a ++ List.replicate fill (Value.empty : Value Double)).set n v) n v := by
  have total : (a ++ List.replicate fill (Value.empty : Value Double)).length =
      max a.length (n + 1) := by
    rw [List.length_append, List.length_replicate, length]
  refine ⟨?_, fun i w different found => ?_, fun i w different found => ?_, ?_⟩
  · exact List.getElem?_set_self (by omega)
  · rw [List.getElem?_set_ne (Ne.symm different)] at found
    rcases List.mem_append.mp (List.mem_of_getElem? found) with _ | filled
    · by_cases old : i < a.length
      · exact .inl ((List.getElem?_append_left old).symm.trans found)
      · rw [List.getElem?_append_right (not_lt.mp old)] at found
        exact .inr (List.eq_of_mem_replicate (List.mem_of_getElem? found))
    · exact .inr (List.eq_of_mem_replicate filled)
  · rw [List.getElem?_set_ne (Ne.symm different),
      List.getElem?_append_left (List.getElem?_eq_some_iff.mp found).1]
    exact found
  · rw [List.length_set, total]

theorem setElement_ok (success : setElement a ik v = .ok a') :
    ∃ n : Nat, position ik = n ∧ Placing a a' n v := by
  unfold setElement at success
  by_cases negative : position ik < 0
  · simp only [if_pos negative] at success
    cases success
  · obtain ⟨n, spot⟩ := Int.eq_ofNat_of_zero_le (not_lt.mp negative)
    simp only [spot, Int.toNat_natCast, if_neg (not_lt.mpr (Int.natCast_nonneg n))] at success
    obtain ⟨fill, grown, length⟩ := grown_eq a n
    rw [grown] at success
    cases success
    exact ⟨n, spot, placing_set length⟩

theorem setElement_isOk (inside : 0 ≤ position ik) (a : List (Value Double)) (v : Value Double) :
    ∃ a', setElement a ik v = .ok a' := by
  unfold setElement
  simp only [if_neg (not_lt.mpr inside)]
  exact ⟨_, rfl⟩

/-- What the array part holds before an element is put into it. -/
theorem insertEntry_index (indexed : ik ≠ -1) (success : insertEntry d ik text v = .ok d') :
    ∃ a a' n, (d.lookup arrayK = some (.array a) ∨ (d.lookup arrayK = none ∧ a = [])) ∧
      position ik = (n : Nat) ∧ Placing a a' n v ∧ d' = assign d arrayK (.array a') := by
  unfold insertEntry at success
  rw [if_pos indexed] at success
  obtain ⟨a, whole, success⟩ := bind_ok success
  obtain ⟨a', element, success⟩ := bind_ok success
  cases success
  obtain ⟨n, spot, placing⟩ := setElement_ok element
  refine ⟨a, a', n, ?_, spot, placing, rfl⟩
  cases held : d.lookup arrayK with
  | none =>
      rw [held] at whole
      cases whole
      exact .inr ⟨rfl, rfl⟩
  | some w =>
      rw [held] at whole
      cases w with
      | array b =>
          cases whole
          exact .inl rfl
      | empty | bool _ | int _ | size _ | real _ | bytes _ | dict _ => cases whole

end Insert

section Wrote

variable (context) (done : List (LuaValue Double × LuaTree Double))

/-- A field goes into the dictionary under a text. -/
def WroteText (k : Bytes) (v : Value Double) : Prop :=
  ∃ key field, (key, field) ∈ done ∧ extractKey context key = .ok (-1, k) ∧
    readTree context field = .ok (some v)

/-- A field goes into the array part at an index. -/
def WroteIndex (i : Nat) (v : Value Double) : Prop :=
  ∃ key field ik text, (key, field) ∈ done ∧ extractKey context key = .ok (ik, text) ∧
    ik ≠ -1 ∧ position ik = i ∧ readTree context field = .ok (some v)

/-- The dictionary after the fields that are done: what it holds comes from them, and
what they write is there unless a later one wrote over it. -/
structure ReadState (d : List (Bytes × Value Double)) : Prop where
  distinct : (d.map (·.1)).Nodup
  text_from : ∀ k v, k ≠ arrayK → d.lookup k = some v → WroteText context done k v
  text_there : ∀ k v, WroteText context done k v → k ∈ d.map (·.1)
  array_from : ∀ a i v, d.lookup arrayK = some (.array a) → a[i]? = some v →
    v = .empty ∨ WroteIndex context done i v
  array_last : ∀ a, d.lookup arrayK = some (.array a) →
    ∃ i v, a.length = i + 1 ∧ WroteIndex context done i v
  index_there : (∀ v, ¬WroteText context done arrayK v) → ∀ i v, WroteIndex context done i v →
    ∃ a w, d.lookup arrayK = some (.array a) ∧ a[i]? = some w ∧ w ≠ .empty
  array_part : (∀ v, ¬WroteText context done arrayK v) → ∀ w, d.lookup arrayK = some w →
    ∃ a, w = .array a

end Wrote

section Steps

variable {done : List (LuaValue Double × LuaTree Double)} {key : LuaValue Double}
  {field : LuaTree Double} {d d' : List (Bytes × Value Double)} {v : Value Double}

theorem scalarValue_word {s : Bytes} (word : context.numbers.ofText s = none) :
    scalarValue context (.string s) = some (.bytes (cString s)) := by
  simp [scalarValue, LuaValue.toInteger, LuaValue.toNumber, LuaValue.toText, word]

theorem scalarValue_numeral {s : Bytes} {x : Double}
    (numeral : context.numbers.ofText s = some x) :
    scalarValue context (.string s) = some (.real x) := by
  simp [scalarValue, LuaValue.toInteger, LuaValue.toNumber, numeral]

/-- What is read from a value is neither empty nor an array. -/
theorem readTree_some {t : LuaTree Double} (read : readTree context t = .ok (some v)) :
    v ≠ .empty ∧ isArray v = false := by
  cases t with
  | boolean b => cases read
  | integer i =>
      cases read
      exact ⟨by simp, rfl⟩
  | number r =>
      cases read
      exact ⟨by simp, rfl⟩
  | string s =>
      rw [readTree] at read
      cases numeric : context.numbers.ofText s with
      | none =>
          rw [scalarValue_word numeric] at read
          cases read
          exact ⟨by simp, rfl⟩
      | some x =>
          rw [scalarValue_numeral numeric] at read
          cases read
          exact ⟨by simp, rfl⟩
  | table fields =>
      rw [readTree] at read
      obtain ⟨found, -, ended⟩ := bind_ok read
      cases ended
      exact ⟨by simp, rfl⟩

theorem wroteText_concat_iff {k : Bytes} :
    WroteText context (done ++ [(key, field)]) k v ↔
      WroteText context done k v ∨
        (extractKey context key = .ok (-1, k) ∧ readTree context field = .ok (some v)) := by
  unfold WroteText
  constructor
  · rintro ⟨key', field', member, wrote⟩
    rcases List.mem_append.mp member with old | new
    · exact .inl ⟨key', field', old, wrote⟩
    · cases List.mem_singleton.mp new
      exact .inr wrote
  · rintro (⟨key', field', old, wrote⟩ | wrote)
    · exact ⟨key', field', List.mem_append_left _ old, wrote⟩
    · exact ⟨key, field, by simp, wrote⟩

theorem wroteIndex_concat_iff {i : Nat} :
    WroteIndex context (done ++ [(key, field)]) i v ↔
      WroteIndex context done i v ∨
        ∃ ik text, extractKey context key = .ok (ik, text) ∧ ik ≠ -1 ∧ position ik = i ∧
          readTree context field = .ok (some v) := by
  unfold WroteIndex
  constructor
  · rintro ⟨key', field', ik, text, member, wrote⟩
    rcases List.mem_append.mp member with old | new
    · exact .inl ⟨key', field', ik, text, old, wrote⟩
    · cases List.mem_singleton.mp new
      exact .inr ⟨ik, text, wrote⟩
  · rintro (⟨key', field', ik, text, old, wrote⟩ | ⟨ik, text, wrote⟩)
    · exact ⟨key', field', ik, text, List.mem_append_left _ old, wrote⟩
    · exact ⟨key, field, ik, text, by simp, wrote⟩

theorem ReadState.start : ReadState context ([] : List (LuaValue Double × LuaTree Double)) [] := by
  constructor
  · exact .nil
  · intro k v _ found
    cases found
  · rintro k v ⟨key, field, member, -⟩
    cases member
  · intro a i v found
    cases found
  · intro a found
    cases found
  · rintro _ i v ⟨key, field, ik, text, member, -⟩
    cases member
  · intro _ w found
    cases found

/-- A field that nothing is read from changes nothing. -/
theorem ReadState.skip (state : ReadState context done d)
    (nothing : readTree context field = .ok none) :
    ReadState context (done ++ [(key, field)]) d := by
  have text : ∀ k v, WroteText context (done ++ [(key, field)]) k v ↔ WroteText context done k v := by
    intro k v
    rw [wroteText_concat_iff, nothing]
    simp
  have index : ∀ i v, WroteIndex context (done ++ [(key, field)]) i v ↔
      WroteIndex context done i v := by
    intro i v
    rw [wroteIndex_concat_iff, nothing]
    simp
  constructor
  · exact state.distinct
  · simpa only [text] using state.text_from
  · simpa only [text] using state.text_there
  · simpa only [index] using state.array_from
  · simpa only [index] using state.array_last
  · simpa only [text, index] using state.index_there
  · simpa only [text] using state.array_part

private theorem ReadState.text (state : ReadState context done d) {k : Bytes}
    (extract : extractKey context key = .ok (-1, k))
    (read : readTree context field = .ok (some v)) :
    ReadState context (done ++ [(key, field)]) (assign d k v) := by
  have new : WroteText context (done ++ [(key, field)]) k v :=
    wroteText_concat_iff.mpr (.inr ⟨extract, read⟩)
  have old : ∀ k w, WroteText context done k w →
      WroteText context (done ++ [(key, field)]) k w :=
    fun k w wrote => wroteText_concat_iff.mpr (.inl wrote)
  have index : ∀ i w, WroteIndex context (done ++ [(key, field)]) i w ↔
      WroteIndex context done i w := by
    intro i w
    rw [wroteIndex_concat_iff, extract]
    refine or_iff_left ?_
    rintro ⟨ik, text, ⟨⟩, indexed, -⟩
    exact indexed rfl
  have element : ∀ a, (assign d k v).lookup arrayK = some (.array a) →
      d.lookup arrayK = some (.array a) := by
    intro a found
    rw [lookup_assign] at found
    split at found
    · cases found
      have other := (readTree_some read).2
      cases other
    · exact found
  constructor
  · exact nodup_keys_assign state.distinct
  · intro k' w ordinary found
    rw [lookup_assign] at found
    split at found
    · rename_i same
      cases found
      exact same ▸ new
    · exact old k' w (state.text_from k' w ordinary found)
  · intro k' w wrote
    rw [mem_keys_assign]
    rcases wroteText_concat_iff.mp wrote with before | ⟨extract', -⟩
    · exact .inr (state.text_there k' w before)
    · rw [extract] at extract'
      cases extract'
      exact .inl rfl
  · intro a i w found there
    rw [index]
    exact state.array_from a i w (element a found) there
  · intro a found
    simp only [index]
    exact state.array_last a (element a found)
  · intro ordinary i w wrote
    have other : arrayK ≠ k := by
      rintro rfl
      exact ordinary v new
    rw [lookup_assign_of_ne other]
    exact state.index_there (fun w wrote => ordinary w (old _ w wrote)) i w ((index i w).mp wrote)
  · intro ordinary w found
    have other : arrayK ≠ k := by
      rintro rfl
      exact ordinary v new
    rw [lookup_assign_of_ne other] at found
    exact state.array_part (fun w wrote => ordinary w (old _ w wrote)) w found

private theorem ReadState.index (state : ReadState context done d) {ik : Int64} {text : Bytes}
    (extract : extractKey context key = .ok (ik, text)) (indexed : ik ≠ -1)
    (read : readTree context field = .ok (some v))
    (success : insertEntry d ik text v = .ok d') :
    ReadState context (done ++ [(key, field)]) d' := by
  obtain ⟨a, a', n, held, spot, placing, rfl⟩ := insertEntry_index indexed success
  have new : WroteIndex context (done ++ [(key, field)]) n v :=
    wroteIndex_concat_iff.mpr (.inr ⟨ik, text, extract, indexed, spot, read⟩)
  have old : ∀ i w, WroteIndex context done i w →
      WroteIndex context (done ++ [(key, field)]) i w :=
    fun i w wrote => wroteIndex_concat_iff.mpr (.inl wrote)
  have texts : ∀ k w, WroteText context (done ++ [(key, field)]) k w ↔
      WroteText context done k w := by
    intro k w
    rw [wroteText_concat_iff, extract]
    refine or_iff_left ?_
    rintro ⟨same, -⟩
    cases same
    exact indexed rfl
  constructor
  · exact nodup_keys_assign state.distinct
  · intro k w ordinary found
    rw [lookup_assign_of_ne ordinary] at found
    rw [texts]
    exact state.text_from k w ordinary found
  · intro k w wrote
    rw [texts] at wrote
    exact mem_keys_assign.mpr (.inr (state.text_there k w wrote))
  · intro b i w found there
    rw [lookup_assign_self] at found
    cases found
    by_cases here : i = n
    · subst here
      rw [placing.there] at there
      cases there
      exact .inr new
    · rcases placing.others i w here there with before | empty
      · rcases held with held | ⟨-, rfl⟩
        · exact (state.array_from a i w held before).imp id (old i w)
        · cases before
      · exact .inl empty
  · intro b found
    rw [lookup_assign_self] at found
    cases found
    have length := placing.length
    by_cases short : a.length ≤ n
    · exact ⟨n, v, by omega, new⟩
    · rcases held with held | ⟨-, rfl⟩
      · obtain ⟨i, w, last, wrote⟩ := state.array_last a held
        exact ⟨i, w, by omega, old i w wrote⟩
      · exact absurd (Nat.zero_le n) short
  · intro ordinary i w wrote
    simp only [texts] at ordinary
    refine ⟨a', ?_⟩
    by_cases here : i = n
    · exact ⟨v, lookup_assign_self, here ▸ placing.there, (readTree_some read).1⟩
    · rcases wroteIndex_concat_iff.mp wrote with before | ⟨ik', text', extract', -, spot', -⟩
      · obtain ⟨b, u, found, there, present⟩ := state.index_there ordinary i w before
        rcases held with held | ⟨none, -⟩
        · rw [held] at found
          cases found
          exact ⟨u, lookup_assign_self, placing.kept i u here there, present⟩
        · rw [none] at found
          cases found
      · rw [extract] at extract'
        cases extract'
        exact absurd (by exact_mod_cast spot'.symm.trans spot) here
  · intro _ w found
    rw [lookup_assign_self] at found
    cases found
    exact ⟨a', rfl⟩

theorem readFields_state {rest : List (LuaValue Double × LuaTree Double)}
    (state : ReadState context done d) (success : readFields context rest d = .ok d') :
    ReadState context (done ++ rest) d' := by
  induction rest generalizing done d with
  | nil =>
      cases success
      rw [List.append_nil]
      exact state
  | cons e rest ih =>
      obtain ⟨key, field⟩ := e
      rw [readFields] at success
      obtain ⟨⟨ik, text⟩, extract, success⟩ := bind_ok success
      obtain ⟨v, read, success⟩ := bind_ok success
      rw [← List.singleton_append, ← List.append_assoc]
      cases v with
      | none => exact ih (state.skip read) success
      | some v =>
          obtain ⟨middle, insert, success⟩ := bind_ok success
          by_cases indexed : ik = -1
          · subst indexed
            cases (insertEntry_text v).symm.trans insert
            exact ih (state.text extract read) success
          · exact ih (state.index extract indexed read insert) success

end Steps

end Firestr.Gui
