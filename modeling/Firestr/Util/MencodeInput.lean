import Firestr.Library.Outcomes
import Firestr.Util.MencodeProperties

/-! What the decoder does with any input. Every step of a loop leaves less of
the stream or ends it, so that the loops end; what fails is an exception; and
what is decoded is a value as its types have it, without empty keys. -/

set_option autoImplicit false

namespace Firestr.Util

open Firestr.Library.Assoc Firestr.Library.Decimal Firestr.Library.Outcomes

/-- An exception, which does not end the process. -/
def Thrown : Fault → Prop
  | .thrown _ => True
  | _ => False

/-- Less is left of the stream, or it has ended. -/
structure Stream.Advances (i next : Stream) : Prop where
  shorter : next.rest.length ≤ i.rest.length
  moved : next.good = true → next.rest.length < i.rest.length

section Steps

variable {i next : Stream} {w : WorkSpace}

theorem Stream.Advances.trans {last : Stream} (first : i.Advances next)
    (second : next.Advances last) : i.Advances last where
  shorter := second.shorter.trans first.shorter
  moved good := (second.moved good).trans_le first.shorter

theorem Stream.get_advances (i : Stream) : i.Advances i.get.2 := by
  unfold Stream.get
  cases good : i.good with
  | false => exact ⟨le_rfl, fun later => by simp [Stream.good] at later⟩
  | true =>
      cases rest : i.rest with
      | nil => exact ⟨by simp [rest], fun later => by simp [Stream.good] at later⟩
      | cons c more => exact ⟨by simp [rest], fun _ => by simp [rest]⟩

theorem Stream.get_mem {c : UInt8} (got : i.get.1 = some c) : c ∈ i.rest := by
  revert got
  unfold Stream.get
  cases i.good with
  | false => rintro ⟨⟩
  | true =>
      cases rest : i.rest with
      | nil => rintro ⟨⟩
      | cons d more =>
          rintro ⟨⟩
          exact List.mem_cons_self

theorem Stream.get_subset (i : Stream) : i.get.2.rest ⊆ i.rest := by
  unfold Stream.get
  cases i.good with
  | false => exact List.Subset.refl _
  | true =>
      cases rest : i.rest with
      | nil => simp
      | cons c more => exact List.subset_cons_self c more

theorem Stream.get_good (good : i.get.2.good = true) :
    ∃ c more, i.rest = c :: more ∧ i.get.1 = some c ∧ i.get.2.rest = more := by
  revert good
  unfold Stream.get
  cases good : i.good with
  | false => exact fun later => by simp [Stream.good] at later
  | true =>
      cases rest : i.rest with
      | nil => exact fun later => by simp [Stream.good] at later
      | cons c more => exact fun _ => ⟨c, more, rfl, rfl, rfl⟩

/-- A good stream after a peek has a byte, and is as it was. -/
theorem Stream.peek_good (good : i.peek.2.good = true) :
    ∃ c more, i.rest = c :: more ∧ i.good = true ∧ i.peek = (some c, i) := by
  revert good
  unfold Stream.peek
  cases good : i.good with
  | false => exact fun later => by simp [Stream.good] at later
  | true =>
      cases rest : i.rest with
      | nil => exact fun later => by simp [Stream.good] at later
      | cons c more => exact fun _ => ⟨c, more, rfl, rfl, rfl⟩

theorem Stream.peek_rest (i : Stream) : i.peek.2.rest = i.rest := by
  unfold Stream.peek
  cases i.good with
  | false => rfl
  | true => cases rest : i.rest <;> simp [rest]

theorem Stream.peek_advances (ended : i.peek.2.good = false) : i.Advances i.peek.2 where
  shorter := i.peek_rest ▸ le_rfl
  moved good := by
    rw [ended] at good
    cases good

theorem Stream.read_advances (i : Stream) (size : Nat) (some? : size ≠ 0) :
    i.Advances (i.read size).2 ∧ (i.read size).1.length ≤ size := by
  unfold Stream.read
  cases good : i.good with
  | false => exact ⟨⟨le_rfl, fun later => by simp [Stream.good] at later⟩, Nat.zero_le _⟩
  | true =>
      by_cases enough : size ≤ i.rest.length
      · simp only [if_true, if_pos enough]
        refine ⟨⟨by simp, fun _ => ?_⟩, by simp⟩
        simp only [List.length_drop]
        omega
      · simp only [if_true, if_neg enough]
        exact ⟨⟨by simp, fun later => by simp [Stream.good] at later⟩, by omega⟩

theorem checkStream_thrown (i : Stream) :
    Meets Thrown (fun _ : Unit => i.good = true) (checkStream i) := by
  unfold checkStream
  cases good : i.good with
  | true => exact rfl
  | false => exact trivial

/-- What the loop of `get_until` leaves. -/
structure Until (e : UInt8) (c : Option UInt8) (i : Stream) (s : Bytes)
    (r : Option UInt8 × Stream × Bytes) : Prop where
  shorter : r.2.1.rest.length ≤ i.rest.length
  good : r.2.1.good = true → i.good = true
  found : r.2.1.good = true → r.1 = some e
  within : r.1 = some e → c = some e ∨ e ∈ i.rest
  starts : s <+: r.2.2
  grows : i.good = true → c ≠ some e → s ++ c.toList <+: r.2.2
  fits : r.2.2.length + r.2.1.rest.length ≤ s.length + c.toList.length + i.rest.length

theorem getUntilLoop_meets (e : UInt8) (fuel : Nat) (c : Option UInt8) (i : Stream) (s : Bytes)
    (enough : i.rest.length + 2 ≤ fuel ∨ i.good = false ∧ 1 ≤ fuel) :
    Meets Thrown (Until e c i s) (getUntilLoop e fuel c i s) := by
  induction fuel generalizing c i s with
  | zero => omega
  | succ fuel ih =>
      rw [getUntilLoop]
      split
      · rename_i goes
        have step := i.get_advances
        have enough : i.get.2.rest.length + 2 ≤ fuel ∨ i.get.2.good = false ∧ 1 ≤ fuel := by
          cases good : i.get.2.good with
          | false => exact .inr ⟨rfl, by simp_all; omega⟩
          | true => exact .inl (by have := step.moved good; simp_all; omega)
        refine (ih i.get.1 i.get.2 (s ++ c.toList) enough).mono fun r read => ?_
        refine ⟨read.shorter.trans step.shorter, fun _ => goes.2, read.found, fun same => ?_,
          (List.prefix_append _ _).trans read.starts, fun _ _ => read.starts, ?_⟩
        · rcases read.within same with got | later
          · exact .inr (i.get_mem got)
          · exact .inr (i.get_subset later)
        have fits := read.fits
        have taken : i.get.1.toList.length + i.get.2.rest.length ≤ i.rest.length := by
          unfold Stream.get
          cases i.good with
          | false => simp
          | true => cases rest : i.rest <;> simp [Nat.add_comm]
        rw [List.length_append] at fits
        omega
      · rename_i stops
        refine ⟨le_rfl, id, fun good => ?_, .inl, List.prefix_rfl, fun good other => ?_, by simp⟩
        · by_contra other
          exact stops ⟨other, good⟩
        · exact absurd ⟨other, good⟩ stops

/-- What `get_until` leaves: the stream is good, and the text begins as the
stream did. -/
structure Text (e : UInt8) (i : Stream) (w : WorkSpace) (r : Stream × WorkSpace) : Prop where
  advances : i.Advances r.1
  good : r.1.good = true
  nonempty : i.rest.head? ≠ some e → r.2.s ≠ []
  within : e ∈ i.rest
  fits : r.2.s.length ≤ i.rest.length
  buffer : r.2.b = w.b

theorem getUntil_meets (i : Stream) (e : UInt8) (w : WorkSpace) :
    Meets Thrown (Text e i w) (getUntil i e w) := by
  have step := i.get_advances
  have enough : i.get.2.rest.length + 2 ≤ i.get.2.rest.length + 2 ∨
      i.get.2.good = false ∧ 1 ≤ i.get.2.rest.length + 2 := .inl le_rfl
  refine (getUntilLoop_meets e _ i.get.1 i.get.2 [] enough).bind ?_
  rintro ⟨c, last, s⟩ read
  refine (checkStream_thrown last).bind fun _ good => ?_
  have found : (c == some e) = true := beq_iff_eq.mpr (read.found good)
  rw [found, check_true, ok_bind]
  obtain ⟨first, more, rest, got, left⟩ := Stream.get_good (read.good good)
  have fits := read.fits
  rw [got, left, List.length_nil, Option.toList_some, List.length_singleton] at fits
  refine ⟨⟨read.shorter.trans step.shorter, fun _ => ?_⟩, good, fun other empty => ?_, ?_, ?_,
    rfl⟩
  · exact read.shorter.trans_lt (step.moved (read.good good))
  · have begins := read.grows (read.good good) (by rwa [got, ← List.head?_cons (l := more), ← rest])
    rw [show s = [] from empty, got] at begins
    exact absurd (List.prefix_nil.mp begins) (by simp)
  · rcases read.within (read.found good) with got | later
    · exact i.get_mem got
    · exact i.get_subset later
  · rw [rest, List.length_cons]
    change s.length + last.rest.length ≤ 0 + 1 + more.length at fits
    change s.length ≤ more.length + 1
    omega

/-- What a lexical cast may throw. -/
theorem sizeOfText_thrown (text : Bytes) :
    Meets Thrown (fun _ => True) (sizeOfText text) := by
  unfold sizeOfText
  split
  · split
    · exact trivial
    · exact trivial
  · exact trivial

theorem intOfText_thrown (text : Bytes) : Meets Thrown (fun _ => True) (intOfText text) := by
  unfold intOfText
  split
  · split
    · split
      · exact trivial
      · exact trivial
    · split
      · exact trivial
      · exact trivial
  · exact trivial

theorem doubleOfText_thrown {Double : Type} (doubles : Doubles Double) (text : Bytes) :
    Meets Thrown (fun _ => True) (doubleOfText doubles text) := by
  unfold doubleOfText
  split
  · exact trivial
  · exact trivial

theorem dec_meets {Number : Type} (fallback : Number) {cast : Bytes → Outcome Number}
    (casts : ∀ text, Meets Thrown (fun _ => True) (cast text)) (type : String) (b e : UInt8)
    (i : Stream) (w : WorkSpace) :
    Meets Thrown (fun r => i.Advances r.2.1) (dec fallback cast type b e i w) := by
  have step := i.get_advances
  unfold dec
  cases ended : i.get.2.good with
  | false =>
      simp only [ended, Bool.not_false, if_true]
      exact step
  | true =>
      simp only [ended, Bool.not_true, Bool.false_eq_true, if_false]
      split
      · exact trivial
      · refine (getUntil_meets i.get.2 e w).bind ?_
        rintro ⟨next, left⟩ text
        exact (casts left.s).bind fun _ _ => step.trans text.advances

theorem decodeBool_meets (i : Stream) :
    Meets Thrown (fun r => i.Advances r.2) (decodeBool i) := by
  have step := i.get_advances
  unfold decodeBool
  simp only
  split
  · exact step
  · split
    · exact step
    · split
      · exact step
      · exact trivial

theorem decodeEmpty_meets (i : Stream) : Meets Thrown (fun next => i.Advances next) (decodeEmpty i) := by
  have step := i.get_advances
  unfold decodeEmpty
  simp only
  split
  · exact step
  · split
    · exact trivial
    · exact step

private theorem length_read {got : Bytes} {size : Nat} (short : got.length ≤ size) :
    (copyAt (List.replicate size (0 : UInt8)) 0 got).length = size := by
  rw [length_copyAt (by simpa using short), List.length_replicate]

theorem decodeBytes_meets (i : Stream) (w : WorkSpace) :
    Meets Thrown (fun r => i.Advances r.1 ∧ r.2.b.length < 2 ^ 64) (decodeBytes i w) := by
  unfold decodeBytes
  simp only
  cases good : i.peek.2.good with
  | false =>
      simp only [Bool.not_false, if_true]
      exact ⟨Stream.peek_advances good, by simp⟩
  | true =>
      obtain ⟨c, more, -, -, peeked⟩ := Stream.peek_good good
      simp only [peeked, Bool.not_true, Bool.false_eq_true, if_false]
      split
      · exact trivial
      · refine (getUntil_meets i 58 { w with b := [] }).bind ?_
        rintro ⟨next, left⟩ text
        refine (sizeOfText_thrown left.s).bind fun size _ => ?_
        split
        · exact ⟨text.advances, by simp [show left.b = [] from text.buffer]⟩
        · rename_i some?
          have read := next.read_advances size.toNat fun zero => some? (UInt64.toNat_inj.mp zero)
          refine ⟨text.advances.trans read.1, ?_⟩
          change (copyAt _ 0 (next.read size.toNat).1).length < 2 ^ 64
          rw [length_read read.2]
          exact size.toNat_lt

/-- What `decode_key` leaves: a key that is not empty. A length of zero leaves
its own text as the key. -/
structure Key (i : Stream) (r : Stream × WorkSpace) : Prop where
  advances : i.Advances r.1
  nonempty : r.2.s ≠ []
  fits : i.rest.length < 2 ^ 64 → r.2.s.length < 2 ^ 64

theorem decodeKey_meets (i : Stream) (w : WorkSpace) (good : i.peek.2.good = true) :
    Meets Thrown (Key i) (decodeKey i w) := by
  obtain ⟨c, more, rest, -, peeked⟩ := Stream.peek_good good
  unfold decodeKey
  simp only [peeked]
  rw [peeked] at good
  simp only [good, Bool.not_true, Bool.false_eq_true, if_false]
  split
  · exact trivial
  · rename_i digit?
    have other : i.rest.head? ≠ some 58 := by
      rw [rest]
      rintro ⟨⟩
      exact digit? (by decide)
    refine (getUntil_meets i 58 w).bind ?_
    rintro ⟨next, left⟩ text
    refine (sizeOfText_thrown left.s).bind fun size _ => ?_
    split
    · exact ⟨text.advances, text.nonempty other, text.fits.trans_lt⟩
    · rename_i some?
      have positive : size.toNat ≠ 0 := fun zero => some? (UInt64.toNat_inj.mp zero)
      have read := next.read_advances size.toNat positive
      have length := length_read read.2
      refine ⟨text.advances.trans read.1, fun empty => ?_, fun _ => ?_⟩
      · rw [show copyAt _ 0 (next.read size.toNat).1 = [] from empty] at length
        exact positive length.symm
      · change (copyAt _ 0 (next.read size.toNat).1).length < 2 ^ 64
        rw [length]
        exact size.toNat_lt

end Steps

section Values

variable {Double : Type}

/-- What a decoder leaves of a stream, and what it reads from an input of `size`
bytes. -/
structure Value.Read (size : Nat) (i : Stream) (r : Value Double × Stream × WorkSpace) :
    Prop where
  advances : i.Advances r.2.1
  keysNonempty : r.1.KeysNonempty
  formed : size < 2 ^ 64 → r.1.Formed

section Containers

variable {size : Nat} {decoder : ValueDecoder Double}

/-- The decoder reads a value from every stream with less left than `bound`. -/
def Reader (size : Nat) (decoder : ValueDecoder Double) (bound : Nat) : Prop :=
  ∀ i w, i.rest.length ≤ size → i.rest.length < bound →
    Meets Thrown (Value.Read size i) (decoder i w)

/-- A pass of a loop ends a stream with nothing left, or leaves less. -/
theorem Stream.Advances.peek {i next : Stream} (step : i.Advances next) :
    i.Advances next.peek.2 where
  shorter := by
    rw [next.peek_rest]
    exact step.shorter
  moved good := by
    obtain ⟨_, _, _, good, peeked⟩ := Stream.peek_good good
    rw [peeked]
    exact step.moved good

/-- What follows the passes of a loop. -/
theorem closeLoop_meets {Result : Type} {i : Stream} {post : Result → Prop}
    (result : Stream → Result)
    (stops : ¬(i.peek.1 ≠ some 59 ∧ i.peek.2.good = true))
    (ends : ∀ next, i.Advances next → post (result next)) :
    Meets Thrown post (do
      checkStream i.peek.2.get.2
      check (i.peek.2.get.1 == some 59) "c == ';'"
      pure (result i.peek.2.get.2)) := by
  refine (checkStream_thrown _).bind fun _ good => ?_
  obtain ⟨c, more, rest, got, -⟩ := Stream.get_good good
  have before : i.peek.2.good = true := by
    unfold Stream.get at good
    split at good
    · assumption
    · simp [Stream.good] at good
  obtain ⟨first, _, here, _, peeked⟩ := Stream.peek_good before
  rw [peeked] at stops got rest ⊢
  have same : first = c := by
    rw [here] at rest
    exact (List.cons.inj rest).1
  have found : (i.get.1 == some 59) = true := by
    rw [got, ← same]
    by_contra other
    exact stops ⟨fun same => other (beq_iff_eq.mpr same), by rw [peeked] at before; exact before⟩
  rw [found, check_true, ok_bind]
  exact ends _ i.get_advances

/-- A pass that consumes something, or ends the stream, leaves enough fuel. -/
theorem Stream.Advances.enough {i next : Stream} {fuel : Nat} (step : i.Advances next)
    (good : i.peek.2.good = true)
    (enough : i.rest.length < fuel + 1 ∨ i.peek.2.good = false ∧ 1 ≤ fuel + 1) :
    next.rest.length < fuel ∨ next.peek.2.good = false ∧ 1 ≤ fuel := by
  have room : i.rest.length < fuel + 1 := by
    rcases enough with room | ended
    · exact room
    · rw [good] at ended
      cases ended.1
  obtain ⟨_, _, rest, -, -⟩ := Stream.peek_good good
  have some? : 0 < i.rest.length := by simp [rest]
  cases good : next.peek.2.good with
  | false => exact .inr ⟨rfl, by omega⟩
  | true =>
      obtain ⟨_, _, _, good, -⟩ := Stream.peek_good good
      have less := step.moved good
      exact .inl (by omega)

theorem decodeArrayLoop_meets {fuel bound : Nat} (reader : Reader size decoder bound)
    {i : Stream} {a : List (Value Double)} (w : WorkSpace) (whole : i.rest.length ≤ size)
    (inside : i.rest.length < bound)
    (enough : i.rest.length < fuel ∨ i.peek.2.good = false ∧ 1 ≤ fuel)
    (nonempty : ∀ v ∈ a, v.KeysNonempty) (formed : size < 2 ^ 64 → ∀ v ∈ a, v.Formed) :
    Meets Thrown (Value.Read size i) (decodeArrayLoop decoder fuel i.peek.1 a i.peek.2 w) := by
  induction fuel generalizing i a w with
  | zero => omega
  | succ fuel ih =>
      rw [decodeArrayLoop]
      split
      · rename_i goes
        obtain ⟨_, _, _, -, peeked⟩ := Stream.peek_good goes.2
        have next? := fun {next : Stream} (step : i.Advances next) => step.enough goes.2 enough
        rw [peeked]
        refine (reader i w whole inside).bind ?_
        rintro ⟨v, next, left⟩ read
        have step : i.Advances next := read.advances
        refine (ih left (step.shorter.trans whole) (step.shorter.trans_lt inside) (next? step)
          ?_ ?_).mono fun r tail => ⟨step.trans tail.advances, tail.keysNonempty, tail.formed⟩
        · intro u member
          rcases List.mem_append.mp member with before | last
          · exact nonempty u before
          · rw [List.mem_singleton.mp last]
            exact read.keysNonempty
        · intro small u member
          rcases List.mem_append.mp member with before | last
          · exact formed small u before
          · rw [List.mem_singleton.mp last]
            exact read.formed small
      · rename_i stops
        exact closeLoop_meets (fun next => (Value.array a, next, w)) stops fun next step =>
          ⟨step, .array nonempty, fun small => .array (formed small)⟩

/-- The entries that `decode_dict` has read. -/
structure Entries (size : Nat) (d : List (Bytes × Value Double)) : Prop where
  distinct : (d.map (·.1)).Nodup
  nonempty : ∀ e ∈ d, e.1 ≠ [] ∧ e.2.KeysNonempty
  formed : size < 2 ^ 64 → ∀ e ∈ d, e.1.length < 2 ^ 64 ∧ e.2.Formed

theorem Entries.assign {d : List (Bytes × Value Double)} {k : Bytes} {v : Value Double}
    (entries : Entries size d) (nonempty : k ≠ [] ∧ v.KeysNonempty)
    (formed : size < 2 ^ 64 → k.length < 2 ^ 64 ∧ v.Formed) :
    Entries size (assign d k v) where
  distinct := nodup_keys_assign entries.distinct
  nonempty e member := by
    rcases eq_or_mem_of_mem_assign member with rfl | ⟨before, -⟩
    · exact nonempty
    · exact entries.nonempty e before
  formed small e member := by
    rcases eq_or_mem_of_mem_assign member with rfl | ⟨before, -⟩
    · exact formed small
    · exact entries.formed small e before

theorem decodeDictLoop_meets {fuel bound : Nat} (reader : Reader size decoder bound)
    {i : Stream} {d : List (Bytes × Value Double)} (w : WorkSpace) (whole : i.rest.length ≤ size)
    (inside : i.rest.length < bound)
    (enough : i.rest.length < fuel ∨ i.peek.2.good = false ∧ 1 ≤ fuel)
    (entries : Entries size d) :
    Meets Thrown (Value.Read size i) (decodeDictLoop decoder fuel i.peek.1 d i.peek.2 w) := by
  induction fuel generalizing i d w with
  | zero => omega
  | succ fuel ih =>
      rw [decodeDictLoop]
      split
      · rename_i goes
        obtain ⟨_, _, _, -, peeked⟩ := Stream.peek_good goes.2
        have next? := fun {next : Stream} (step : i.Advances next) => step.enough goes.2 enough
        rw [peeked]
        refine (decodeKey_meets i w goes.2).bind ?_
        rintro ⟨middle, keyed⟩ key
        have first : i.Advances middle := key.advances
        refine (reader middle keyed (first.shorter.trans whole)
          (first.shorter.trans_lt inside)).bind ?_
        rintro ⟨v, next, left⟩ read
        have step : i.Advances next := first.trans read.advances
        refine (ih left (step.shorter.trans whole) (step.shorter.trans_lt inside) (next? step)
          ?_).mono fun r tail => ⟨step.trans tail.advances, tail.keysNonempty, tail.formed⟩
        exact entries.assign ⟨key.nonempty, read.keysNonempty⟩ fun small =>
          ⟨key.fits (whole.trans_lt small), read.formed small⟩
      · rename_i stops
        refine closeLoop_meets (fun next => (Value.dict d, next, w)) stops fun next step => ?_
        refine ⟨step, .dict (fun e member => (entries.nonempty e member).1) fun e member =>
          (entries.nonempty e member).2, fun small => .dict entries.distinct ?_ ?_⟩
        · exact fun e member => (entries.formed small e member).1
        · exact fun e member => (entries.formed small e member).2

theorem decodeArray_meets {fuel : Nat} (reader : Reader size decoder fuel) (i : Stream)
    (w : WorkSpace) (whole : i.rest.length ≤ size) (inside : i.rest.length < fuel + 1) :
    Meets Thrown (Value.Read size i) (decodeArray decoder fuel i w) := by
  have step := i.get_advances
  unfold decodeArray
  simp only
  cases good : i.get.2.good with
  | false =>
      simp only [Bool.not_false, if_true]
      exact ⟨step, .array (by simp), fun _ => .array (by simp)⟩
  | true =>
      have less := step.moved good
      simp only [Bool.not_true, Bool.false_eq_true, if_false]
      split
      · exact trivial
      · refine (decodeArrayLoop_meets reader w (step.shorter.trans whole) (by omega)
          (.inl (by omega)) (by simp) (by simp)).mono fun r read => ?_
        exact ⟨step.trans read.advances, read.keysNonempty, read.formed⟩

theorem decodeDict_meets {fuel : Nat} (reader : Reader size decoder fuel) (i : Stream)
    (w : WorkSpace) (whole : i.rest.length ≤ size) (inside : i.rest.length < fuel + 1) :
    Meets Thrown (Value.Read size i) (decodeDict decoder fuel i w) := by
  have step := i.get_advances
  unfold decodeDict
  simp only
  cases good : i.get.2.good with
  | false =>
      simp only [Bool.not_false, if_true]
      exact ⟨step, .dict (by simp) (by simp), fun _ => .dict (by simp) (by simp) (by simp)⟩
  | true =>
      have less := step.moved good
      simp only [Bool.not_true, Bool.false_eq_true, if_false]
      split
      · exact trivial
      · refine (decodeDictLoop_meets reader w (step.shorter.trans whole) (by omega)
          (.inl (by omega)) ⟨by simp, by simp, by simp⟩).mono fun r read => ?_
        exact ⟨step.trans read.advances, read.keysNonempty, read.formed⟩

end Containers

section Decode

variable (doubles : Doubles Double) (size : Nat)

theorem decodeValue_meets (fuel : Nat) : Reader size (decodeValue doubles fuel) fuel := by
  induction fuel with
  | zero => exact fun i w _ inside => absurd inside (Nat.not_lt_zero _)
  | succ fuel ih =>
      intro i w whole inside
      rw [decodeValue]
      cases good : i.peek.2.good with
      | false =>
          simp only [good, Bool.not_false, if_true]
          exact ⟨Stream.peek_advances good, .empty, fun _ => .empty⟩
      | true =>
          obtain ⟨c, more, rest, -, peeked⟩ := Stream.peek_good good
          simp only [peeked] at good ⊢
          simp only [good, Bool.not_true, Bool.false_eq_true, if_false]
          split
          · exact (decodeBool_meets i).bind fun r step => ⟨step, .bool, fun _ => .bool⟩
          split
          · exact (dec_meets 0 intOfText_thrown "int" 105 59 i w).bind fun r step =>
              ⟨step, .int, fun _ => .int⟩
          split
          · exact (dec_meets 0 sizeOfText_thrown "size" 115 59 i w).bind fun r step =>
              ⟨step, .size, fun _ => .size⟩
          split
          · exact (dec_meets doubles.zero (doubleOfText_thrown doubles) "real" 114 59 i w).bind
              fun r step => ⟨step, .real, fun _ => .real⟩
          split
          · exact decodeDict_meets ih i w whole inside
          split
          · exact decodeArray_meets ih i w whole inside
          split
          · exact (decodeEmpty_meets i).bind fun next step => ⟨step, .empty, fun _ => .empty⟩
          split
          · exact (decodeBytes_meets i w).bind fun r read =>
              ⟨read.1, .bytes, fun _ => .bytes read.2⟩
          · exact trivial

/-- The code returns, or throws an exception: no loop runs out of fuel, and no
check fails. -/
def Ends {Result : Type} (program : Outcome Result) : Prop :=
  ∀ fault, program = .error fault → Thrown fault

/-- A pass of a loop ends, and has consumed a byte or ended the stream. -/
structure Passes (i : Stream) (pass : Outcome (Value Double × Stream × WorkSpace)) : Prop where
  ends : Ends pass
  consumes : ∀ v next w, pass = .ok (v, next, w) →
    next.peek.2.rest.length < i.rest.length ∨ next.peek.2.good = false

/-- A call of each decoder and a pass of each loop, where the fuel is more than
what is left of the stream. -/
structure DecoderEnds (fuel : Nat) (i : Stream) (w : WorkSpace) : Prop where
  value : Ends (decodeValue doubles fuel i w)
  dict : Ends (decodeDict (decodeValue doubles fuel) fuel i w)
  array : Ends (decodeArray (decodeValue doubles fuel) fuel i w)
  dictPass : i.peek.2.good = true → Passes i (do
    let (i, w) ← decodeKey i w
    decodeValue doubles fuel i w)
  arrayPass : i.peek.2.good = true → Passes i (decodeValue doubles fuel i w)

variable {doubles}

theorem ends_of_meets {Result : Type} {post : Result → Prop} {program : Outcome Result}
    (meets : Meets Thrown post program) : Ends program := fun _ failure => meets.error failure

theorem passes_of_meets {i : Stream} {pass : Outcome (Value Double × Stream × WorkSpace)}
    (meets : Meets Thrown (fun r => i.Advances r.2.1) pass) : Passes i pass where
  ends := ends_of_meets meets
  consumes v next w success := by
    have step : i.Advances next.peek.2 := (meets.value success).peek
    cases good : next.peek.2.good with
    | false => exact .inr rfl
    | true => exact .inl (step.moved good)

/-- The decoders end on every stream. -/
theorem decoder_ends (fuel : Nat) (i : Stream) (w : WorkSpace) (enough : i.rest.length < fuel) :
    DecoderEnds doubles fuel i w := by
  have reader := decodeValue_meets doubles i.rest.length fuel
  constructor
  · exact ends_of_meets (reader i w le_rfl enough)
  · exact ends_of_meets (decodeDict_meets reader i w le_rfl (by omega))
  · exact ends_of_meets (decodeArray_meets reader i w le_rfl (by omega))
  · intro good
    apply passes_of_meets
    refine (decodeKey_meets i w good).bind ?_
    rintro ⟨middle, keyed⟩ key
    have first : i.Advances middle := key.advances
    have shorter := first.shorter
    exact (reader middle keyed shorter (by omega)).mono fun r read => first.trans read.advances
  · intro good
    exact passes_of_meets ((reader i w le_rfl enough).mono fun r read => read.advances)

theorem decoder_ends_cut_text :
    DecoderEnds loneDouble 3 { rest := ascii "5:" } {} :=
  decoder_ends 3 _ _ (by decide)

/-- A decoded value has the form of its types, and no empty key. -/
theorem formed_of_decode {b : Bytes} {v : Value Double} (small : b.length < 2 ^ 64)
    (success : Value.decode doubles b = .ok v) : v.Formed ∧ v.KeysNonempty := by
  obtain ⟨r, decodes, same⟩ := bind_ok success
  have read := (decodeValue_meets doubles b.length (b.length + 1) { rest := b } {} le_rfl
    (Nat.lt_succ_self _)).value decodes
  obtain ⟨u, next, left⟩ := r
  cases same
  exact ⟨read.formed small, read.keysNonempty⟩

theorem formed_of_readDict {i next : Stream} {d : List (Bytes × Value Double)}
    (small : i.rest.length < 2 ^ 64) (success : readDict doubles i = .ok (d, next)) :
    (Value.dict d).Formed ∧ (Value.dict d).KeysNonempty := by
  have none? : (Value.dict ([] : List (Bytes × Value Double))).Formed ∧
      (Value.dict ([] : List (Bytes × Value Double))).KeysNonempty :=
    ⟨.dict (by simp) (by simp) (by simp), .dict (by simp) (by simp)⟩
  obtain ⟨⟨v, middle, left⟩, decodes, same⟩ := bind_ok success
  have reader := decodeValue_meets doubles i.rest.length (i.rest.length + 1)
  have read := (decodeDict_meets reader i {} le_rfl (by omega)).value decodes
  cases v with
  | dict entries =>
      cases same
      exact ⟨read.formed small, read.keysNonempty⟩
  | _ =>
      cases same
      exact none?

end Decode

end Values

end Firestr.Util
