import Firestr.Util.Mencode

/-! What decoding makes of an encoded value. The decoder reads every value
back, but for the empty keys of dictionaries. -/

set_option autoImplicit false

namespace Firestr.Util

open Firestr.Library.Assoc Firestr.Library.Decimal

section Text

variable {e : UInt8} {text more : Bytes} {position : Nat} {w : WorkSpace}

@[simp] theorem Stream.get_cons (c : UInt8) (rest : Bytes) :
    ({ rest := c :: rest, position := position } : Stream).get =
      (some c, { rest := rest, position := position + 1 }) := rfl

@[simp] theorem Stream.peek_cons (c : UInt8) (rest : Bytes) :
    ({ rest := c :: rest, position := position } : Stream).peek =
      (some c, { rest := c :: rest, position := position }) := rfl

@[simp] theorem Stream.good_at (rest : Bytes) :
    ({ rest := rest, position := position } : Stream).good = true := rfl

theorem Stream.read_append (bytes : Bytes) :
    ({ rest := bytes ++ more, position := position } : Stream).read bytes.length =
      (bytes, { rest := more, position := position + bytes.length }) := by
  simp [Stream.read]

private theorem exists_cons_append (text : Bytes) (e : UInt8) (more : Bytes) :
    ∃ c rest, text ++ e :: more = c :: rest := by
  cases text with
  | nil => exact ⟨_, _, rfl⟩
  | cons c text => exact ⟨_, _, rfl⟩

theorem getUntilLoop_eq (position fuel : Nat) (clear : e ∉ text)
    (enough : text.length < fuel)
    {c : UInt8} {rest : Bytes} (shape : c :: rest = text ++ e :: more) (s : Bytes) :
    ∃ after, getUntilLoop e fuel (some c) { rest := rest, position := position } s =
      .ok (some e, { rest := more, position := after }, s ++ text) := by
  induction text generalizing fuel c rest position s with
  | nil =>
      obtain ⟨fuel, rfl⟩ : ∃ less, fuel = less + 1 := ⟨fuel - 1, by omega⟩
      cases shape
      exact ⟨position, by simp [getUntilLoop]⟩
  | cons first text ih =>
      obtain ⟨fuel, rfl⟩ : ∃ less, fuel = less + 1 := ⟨fuel - 1, by omega⟩
      rw [List.mem_cons, not_or] at clear
      rw [List.cons_append] at shape
      obtain ⟨rfl, rfl⟩ := List.cons.inj shape
      obtain ⟨next, rest, shape⟩ := exists_cons_append text e more
      obtain ⟨after, loop⟩ := ih (position + 1) fuel clear.2
        (Nat.lt_of_succ_lt_succ enough) shape.symm (s ++ [c])
      refine ⟨after, ?_⟩
      rw [getUntilLoop, if_pos ⟨fun same => clear.1 (Option.some.inj same).symm, rfl⟩, shape,
        Stream.get_cons, Option.toList_some, loop, List.append_assoc, List.singleton_append]

theorem getUntil_eq (more : Bytes) (position : Nat) (w : WorkSpace) (clear : e ∉ text) :
    ∃ after, getUntil { rest := text ++ e :: more, position := position } e w =
      .ok ({ rest := more, position := after }, { w with s := text }) := by
  obtain ⟨c, rest, shape⟩ := exists_cons_append text e more
  have lengths := congrArg List.length shape
  simp only [List.length_append, List.length_cons] at lengths
  obtain ⟨after, loop⟩ := getUntilLoop_eq (position + 1) (rest.length + 2)
    clear (by omega) shape.symm []
  refine ⟨after, ?_⟩
  rw [getUntil, shape]
  simp only [Stream.get_cons, loop, ok_bind, checkStream, Stream.good_at, if_true,
    beq_self_eq_true, check_true, List.nil_append, pure_ok]

theorem dec_eq {Number : Type} {fallback number : Number} {cast : Bytes → Outcome Number}
    {type : String} (b : UInt8) (more : Bytes) (position : Nat) (w : WorkSpace)
    (clear : e ∉ text) (casts : cast text = .ok number) :
    ∃ after left, dec fallback cast type b e
      { rest := enc b e text ++ more, position := position } w =
        .ok (number, { rest := more, position := after }, left) := by
  obtain ⟨after, read⟩ := getUntil_eq more (position + 1) w clear
  refine ⟨after, { w with s := text }, ?_⟩
  have shape : enc b e text ++ more = b :: (text ++ e :: more) := by simp [enc]
  rw [dec, shape]
  simp only [Stream.get_cons, Stream.good_at, Bool.not_true, Bool.false_eq_true, if_false, ne_eq,
    not_true, read, ok_bind, casts, pure_ok]

end Text

section Numbers

theorem not_mem_numeral {n : Nat} {c : UInt8} (other : c.toNat < 48 ∨ 57 < c.toNat) :
    c ∉ numeral n := by
  intro member
  have bounds := mem_numeral member
  omega

theorem signed_numeral (n : Nat) : signed (numeral n) = (false, numeral n) := by
  have minus : (45 : UInt8) ∉ numeral n := not_mem_numeral (by decide)
  have plus : (43 : UInt8) ∉ numeral n := not_mem_numeral (by decide)
  rw [signed.eq_def]
  split
  · rename_i digits shape
    exact absurd (shape ▸ List.mem_cons_self) minus
  · rename_i digits shape
    exact absurd (shape ▸ List.mem_cons_self) plus
  · rfl

theorem sizeOfText_numeral {n : Nat} (small : n < 2 ^ 64) :
    sizeOfText (numeral n) = .ok (UInt64.ofNat n) := by
  simp only [sizeOfText, signed_numeral, natural_numeral, if_pos small, Bool.false_eq_true,
    if_false]

theorem intOfText_intText (v : Int64) : intOfText (intText v) = .ok v := by
  have low := v.le_toInt
  have high := v.toInt_lt
  rw [intText]
  split
  · rename_i negative
    simp only [intOfText, signed, natural_numeral, if_true]
    rw [if_pos (by omega), show -(v.toInt.natAbs : Int) = v.toInt by omega, Int64.ofInt_toInt]
  · rename_i positive
    simp only [intOfText, signed_numeral, natural_numeral, Bool.false_eq_true, if_false]
    rw [if_pos (by omega), show (v.toInt.natAbs : Int) = v.toInt by omega, Int64.ofInt_toInt]

theorem not_mem_intText (v : Int64) : 59 ∉ intText v := by
  have digits : 59 ∉ numeral v.toInt.natAbs := not_mem_numeral (by decide)
  rw [intText]
  split
  · simpa using digits
  · exact digits

end Numbers

section ByteStrings

variable {v more : Bytes} {position : Nat} {w : WorkSpace}

theorem numeral_head (n : Nat) (more : Bytes) : ∃ c rest,
    numeral n ++ more = c :: rest ∧ 48 ≤ c.toNat ∧ c.toNat ≤ 57 := by
  cases text : numeral n with
  | nil => exact absurd text (numeral_ne_nil _)
  | cons c digits =>
      refine ⟨c, digits ++ more, rfl, ?_⟩
      exact mem_numeral (n := n) (by rw [text]; exact List.mem_cons_self)

theorem encodeB_head (v more : Bytes) : ∃ c rest,
    encodeB v ++ more = c :: rest ∧ 48 ≤ c.toNat ∧ c.toNat ≤ 57 := by
  rw [encodeB, List.append_assoc, List.append_assoc]
  exact numeral_head _ _

theorem getUntil_encodeB (v more : Bytes) (position : Nat) (w : WorkSpace) : ∃ after,
    getUntil { rest := encodeB v ++ more, position := position } 58 w =
      .ok ({ rest := v ++ more, position := after }, { w with s := numeral v.length }) := by
  have shape : encodeB v ++ more = numeral v.length ++ 58 :: (v ++ more) := by simp [encodeB]
  rw [shape]
  exact getUntil_eq _ _ _ (not_mem_numeral (by decide))

private theorem filled_replicate (v : Bytes) : copyAt (List.replicate v.length 0) 0 v = v := by
  simp [copyAt]

theorem ofNat_length_ne_zero (some? : v ≠ []) (small : v.length < 2 ^ 64) :
    UInt64.ofNat v.length ≠ 0 := by
  intro zero
  have length := congrArg UInt64.toNat zero
  rw [UInt64.toNat_ofNat_of_lt' small] at length
  exact some? (List.length_eq_zero_iff.mp length)

theorem decodeBytes_eq (more : Bytes) (position : Nat) (w : WorkSpace)
    (small : v.length < 2 ^ 64) : ∃ (after : Nat) (left : WorkSpace),
    decodeBytes { rest := encodeB v ++ more, position := position } w =
      .ok ({ rest := more, position := after }, { left with b := v }) := by
  obtain ⟨c, rest, head, digit?⟩ := encodeB_head v more
  obtain ⟨after, read⟩ := getUntil_encodeB v more position { w with b := [] }
  rw [head] at read
  simp only [decodeBytes, head, Stream.peek_cons, Stream.good_at, Bool.not_true,
    Bool.false_eq_true, if_false, isDigit, Option.any_some, decide_eq_true digit?, read, ok_bind,
    sizeOfText_numeral small, pure_ok]
  by_cases empty : v = []
  · subst empty
    exact ⟨after, { w with s := numeral 0 }, rfl⟩
  · rw [if_neg (ofNat_length_ne_zero empty small), UInt64.toNat_ofNat_of_lt' small]
    refine ⟨after + v.length, { w with s := numeral v.length }, ?_⟩
    simp only [Stream.read_append, filled_replicate]

/-- What `decode_key` leaves in the work space for a key: the text of the
length when the key is empty. -/
def decodedKey (k : Bytes) : Bytes := if k = [] then numeral 0 else k

theorem decodedKey_ne_nil (k : Bytes) : decodedKey k ≠ [] := by
  rw [decodedKey]
  split
  · exact numeral_ne_nil 0
  · assumption

theorem decodeKey_eq (more : Bytes) (position : Nat) (w : WorkSpace)
    (small : v.length < 2 ^ 64) : ∃ (after : Nat) (left : WorkSpace),
    decodeKey { rest := encodeB v ++ more, position := position } w =
      .ok ({ rest := more, position := after }, { left with s := decodedKey v }) := by
  obtain ⟨c, rest, head, digit?⟩ := encodeB_head v more
  obtain ⟨after, read⟩ := getUntil_encodeB v more position w
  rw [head] at read
  simp only [decodeKey, head, Stream.peek_cons, Stream.good_at, Bool.not_true,
    Bool.false_eq_true, if_false, isDigit, Option.any_some, decide_eq_true digit?, read, ok_bind,
    sizeOfText_numeral small, pure_ok, decodedKey]
  by_cases empty : v = []
  · subst empty
    exact ⟨after, w, rfl⟩
  · rw [if_neg (ofNat_length_ne_zero empty small), UInt64.toNat_ofNat_of_lt' small, if_neg empty]
    refine ⟨after + v.length, w, ?_⟩
    simp only [Stream.read_append, filled_replicate]

end ByteStrings

variable {Double : Type} (doubles : Doubles Double)

/-- A value as its types have it: byte strings have a `size_t` length, and the
keys of a dictionary are distinct. -/
inductive Value.Formed : Value Double → Prop where
  | empty : Formed .empty
  | bool {v : Bool} : Formed (.bool v)
  | int {v : Int64} : Formed (.int v)
  | size {v : UInt64} : Formed (.size v)
  | real {v : Double} : Formed (.real v)
  | bytes {v : Bytes} : v.length < 2 ^ 64 → Formed (.bytes v)
  | dict {v : List (Bytes × Value Double)} : (v.map (·.1)).Nodup →
      (∀ e ∈ v, e.1.length < 2 ^ 64) → (∀ e ∈ v, e.2.Formed) → Formed (.dict v)
  | array {v : List (Value Double)} : (∀ e ∈ v, e.Formed) → Formed (.array v)

mutual

/-- What decoding makes of a value. -/
def Value.decoded : Value Double → Value Double
  | .dict v => .dict (decodedEntries [] v)
  | .array v => .array (decodedElements v)
  | v => v

def decodedEntries (d : List (Bytes × Value Double)) :
    List (Bytes × Value Double) → List (Bytes × Value Double)
  | [] => d
  | (k, v) :: rest => decodedEntries (assign d (decodedKey k) v.decoded) rest

def decodedElements : List (Value Double) → List (Value Double)
  | [] => []
  | v :: rest => v.decoded :: decodedElements rest

end

/-- The decoder reads `text` as `v`, and nothing of what follows. -/
def Reads (decoder : ValueDecoder Double) (text : Bytes) (v : Value Double) : Prop :=
  ∀ more position w, ∃ after left, decoder { rest := text ++ more, position := position } w =
    .ok (v, { rest := more, position := after }, left)

section Containers

variable {decoder : ValueDecoder Double}

theorem Value.encode_head (v : Value Double) (more : Bytes) :
    ∃ c rest, v.encode doubles ++ more = c :: rest ∧ c ≠ 59 := by
  cases v with
  | empty => exact ⟨_, _, rfl, by decide⟩
  | bool v => cases v <;> exact ⟨_, _, rfl, by decide⟩
  | int v => exact ⟨_, _, rfl, by decide⟩
  | size v => exact ⟨_, _, rfl, by decide⟩
  | real v => exact ⟨_, _, rfl, by decide⟩
  | bytes v =>
      obtain ⟨c, rest, head, digit?⟩ := encodeB_head v more
      refine ⟨c, rest, by rw [Value.encode]; exact head, ?_⟩
      rintro rfl
      exact absurd digit?.2 (by decide)
  | dict v => exact ⟨_, _, rfl, by decide⟩
  | array v => exact ⟨_, _, rfl, by decide⟩

private theorem decodeArrayLoop_eq (vs : List (Value Double))
    (reads : ∀ v ∈ vs, Reads decoder (v.encode doubles) v.decoded) {fuel : Nat}
    (enough : vs.length < fuel) (a : List (Value Double)) (more : Bytes) (position : Nat)
    (w : WorkSpace) :
    ∃ after left,
      let i : Stream := { rest := encodeElements doubles vs ++ 59 :: more, position := position }
      decodeArrayLoop decoder fuel i.peek.1 a i.peek.2 w =
        .ok (.array (a ++ decodedElements vs), { rest := more, position := after }, left) := by
  obtain ⟨fuel, rfl⟩ : ∃ less, fuel = less + 1 := ⟨fuel - 1, by omega⟩
  induction vs generalizing fuel a position w with
  | nil =>
      refine ⟨position + 1, w, ?_⟩
      simp [encodeElements, decodeArrayLoop, checkStream, decodedElements]
  | cons v vs ih =>
      obtain ⟨c, rest, head, other⟩ := v.encode_head doubles (encodeElements doubles vs ++ 59 :: more)
      obtain ⟨between, space, read⟩ := reads v List.mem_cons_self
        (encodeElements doubles vs ++ 59 :: more) position w
      obtain ⟨fuel, rfl⟩ : ∃ less, fuel = less + 1 := ⟨fuel - 1, by
        rw [List.length_cons] at enough; omega⟩
      obtain ⟨after, left, loop⟩ := ih (fun e member => reads e (.tail _ member))
        (a ++ [v.decoded]) between space fuel (Nat.lt_of_succ_lt_succ enough)
      refine ⟨after, left, ?_⟩
      rw [head] at read
      simp only [encodeElements, List.append_assoc, head, Stream.peek_cons]
      rw [decodeArrayLoop, if_pos ⟨fun same => other (Option.some.inj same), rfl⟩, read]
      simpa [decodedElements] using loop

private theorem decodeDictLoop_eq (es : List (Bytes × Value Double))
    (small : ∀ e ∈ es, e.1.length < 2 ^ 64)
    (reads : ∀ e ∈ es, Reads decoder (e.2.encode doubles) e.2.decoded) {fuel : Nat}
    (enough : es.length < fuel) (d : List (Bytes × Value Double)) (more : Bytes) (position : Nat)
    (w : WorkSpace) :
    ∃ after left,
      let i : Stream := { rest := encodeEntries doubles es ++ 59 :: more, position := position }
      decodeDictLoop decoder fuel i.peek.1 d i.peek.2 w =
        .ok (.dict (decodedEntries d es), { rest := more, position := after }, left) := by
  obtain ⟨fuel, rfl⟩ : ∃ less, fuel = less + 1 := ⟨fuel - 1, by omega⟩
  induction es generalizing fuel d position w with
  | nil =>
      refine ⟨position + 1, w, ?_⟩
      simp [encodeEntries, decodeDictLoop, checkStream, decodedEntries]
  | cons e es ih =>
      obtain ⟨k, v⟩ := e
      obtain ⟨c, rest, head, digit?⟩ := encodeB_head k
        (v.encode doubles ++ (encodeEntries doubles es ++ 59 :: more))
      obtain ⟨key, keyed, keyRead⟩ := decodeKey_eq
        (v.encode doubles ++ (encodeEntries doubles es ++ 59 :: more)) position w
        (small (k, v) List.mem_cons_self)
      obtain ⟨between, space, read⟩ := reads (k, v) List.mem_cons_self
        (encodeEntries doubles es ++ 59 :: more) key { keyed with s := decodedKey k }
      obtain ⟨fuel, rfl⟩ : ∃ less, fuel = less + 1 := ⟨fuel - 1, by
        rw [List.length_cons] at enough; omega⟩
      obtain ⟨after, left, loop⟩ := ih (fun e member => small e (.tail _ member))
        (fun e member => reads e (.tail _ member)) (assign d (decodedKey k) v.decoded) between
        space fuel (Nat.lt_of_succ_lt_succ enough)
      have other : some c ≠ some 59 := by
        rintro ⟨⟩
        exact absurd digit?.2 (by decide)
      refine ⟨after, left, ?_⟩
      rw [head] at keyRead
      simp only [encodeEntries, List.append_assoc, head, Stream.peek_cons]
      rw [decodeDictLoop, if_pos ⟨other, rfl⟩, keyRead]
      simp only [ok_bind, read]
      exact loop

theorem length_encode_pos (v : Value Double) : 0 < (v.encode doubles).length := by
  obtain ⟨c, rest, head, -⟩ := v.encode_head doubles []
  rw [List.append_nil] at head
  rw [head]
  exact Nat.succ_pos _

theorem length_le_encodeElements (vs : List (Value Double)) :
    vs.length ≤ (encodeElements doubles vs).length ∧
      ∀ v ∈ vs, (v.encode doubles).length ≤ (encodeElements doubles vs).length := by
  induction vs with
  | nil => exact ⟨le_rfl, fun _ member => by cases member⟩
  | cons v vs ih =>
      have positive := length_encode_pos doubles v
      simp only [encodeElements, List.length_append, List.length_cons]
      refine ⟨by omega, fun e member => ?_⟩
      rcases List.mem_cons.mp member with rfl | later
      · exact Nat.le_add_right ..
      · exact le_trans (ih.2 e later) (Nat.le_add_left ..)

theorem length_le_encodeEntries (es : List (Bytes × Value Double)) :
    es.length ≤ (encodeEntries doubles es).length ∧
      ∀ e ∈ es, (e.2.encode doubles).length ≤ (encodeEntries doubles es).length := by
  induction es with
  | nil => exact ⟨le_rfl, fun _ member => by cases member⟩
  | cons e es ih =>
      have positive := length_encode_pos doubles e.2
      simp only [encodeEntries, List.length_append, List.length_cons]
      refine ⟨by omega, fun other member => ?_⟩
      rcases List.mem_cons.mp member with rfl | later
      · omega
      · have here := ih.2 other later
        omega

end Containers

section Decode

variable {v : Value Double}

private theorem exists_succ {fuel : Nat} (enough : (v.encode doubles).length ≤ fuel) :
    ∃ less, fuel = less + 1 := by
  have positive := length_encode_pos doubles v
  exact ⟨fuel - 1, by omega⟩

/-- A digit begins a byte string. -/
theorem decodeValue_digit {c : UInt8} (digit? : 48 ≤ c.toNat ∧ c.toNat ≤ 57) {fuel position : Nat}
    {rest : Bytes} {w : WorkSpace} :
    decodeValue doubles (fuel + 1) { rest := c :: rest, position := position } w = (do
      let (i, w) ← decodeBytes { rest := c :: rest, position := position } w
      pure (.bytes w.b, i, w)) := by
  have unmarked : ∀ mark : UInt8, 57 < mark.toNat → some c ≠ some mark := by
    rintro mark high ⟨⟩
    exact absurd digit?.2 (Nat.not_le.mpr high)
  rw [decodeValue]
  simp only [Stream.peek_cons, Stream.good_at, Bool.not_true, Bool.false_eq_true, if_false,
    unmarked 70 (by decide), unmarked 84 (by decide), unmarked 105 (by decide),
    unmarked 115 (by decide), unmarked 114 (by decide), unmarked 100 (by decide),
    unmarked 97 (by decide), unmarked 110 (by decide), or_self, isDigit, Option.any_some,
    decide_eq_true digit?, if_true]

/-- A value is read back as `decoded` has it, with fuel for each of its bytes. -/
theorem decodeValue_reads (formed : v.Formed) {fuel : Nat}
    (enough : (v.encode doubles).length ≤ fuel) :
    Reads (decodeValue doubles fuel) (v.encode doubles) v.decoded := by
  induction formed generalizing fuel with
  | empty =>
      obtain ⟨fuel, rfl⟩ := exists_succ doubles enough
      intro more position w
      exact ⟨position + 1, w, rfl⟩
  | @bool v =>
      obtain ⟨fuel, rfl⟩ := exists_succ doubles enough
      intro more position w
      cases v <;> exact ⟨position + 1, w, rfl⟩
  | @int v =>
      obtain ⟨fuel, rfl⟩ := exists_succ doubles enough
      intro more position w
      obtain ⟨after, left, read⟩ := dec_eq 105 more position w (not_mem_intText v)
        (intOfText_intText v)
      refine ⟨after, left, ?_⟩
      rw [Value.encode, decodeValue]
      change (dec 0 intOfText "int" 105 59 _ w >>= _) = _
      rw [read]
      rfl
  | @size v =>
      obtain ⟨fuel, rfl⟩ := exists_succ doubles enough
      intro more position w
      have clear : 59 ∉ numeral v.toNat := not_mem_numeral (by decide)
      have casts : sizeOfText (numeral v.toNat) = .ok v := by
        rw [sizeOfText_numeral v.toNat_lt, UInt64.ofNat_toNat]
      obtain ⟨after, left, read⟩ := dec_eq 115 more position w clear casts
      refine ⟨after, left, ?_⟩
      rw [Value.encode, decodeValue]
      change (dec 0 sizeOfText "size" 115 59 _ w >>= _) = _
      rw [read]
      rfl
  | @real v =>
      obtain ⟨fuel, rfl⟩ := exists_succ doubles enough
      intro more position w
      have casts : doubleOfText doubles (doubles.toText v) = .ok v := by
        rw [doubleOfText, doubles.ofText_toText]
      obtain ⟨after, left, read⟩ := dec_eq 114 more position w (doubles.unterminated v) casts
      refine ⟨after, left, ?_⟩
      rw [Value.encode, decodeValue]
      change (dec doubles.zero (doubleOfText doubles) "real" 114 59 _ w >>= _) = _
      rw [read]
      rfl
  | @bytes v small =>
      obtain ⟨fuel, rfl⟩ := exists_succ doubles enough
      intro more position w
      obtain ⟨c, rest, head, digit?⟩ := encodeB_head v more
      obtain ⟨after, left, read⟩ := decodeBytes_eq more position w small
      refine ⟨after, { left with b := v }, ?_⟩
      rw [head] at read
      rw [Value.encode, head, decodeValue_digit doubles digit?, read]
      rfl
  | @dict v distinct small formed ih =>
      obtain ⟨fuel, rfl⟩ := exists_succ doubles enough
      intro more position w
      have bounds := length_le_encodeEntries doubles v
      have length : (Value.encode doubles (.dict v)).length =
          (encodeEntries doubles v).length + 2 := by
        simp [Value.encode, ascii]
      obtain ⟨after, left, loop⟩ := @decodeDictLoop_eq Double doubles (decodeValue doubles fuel)
        v small (fun e member => ih e member (by have := bounds.2 e member; omega))
        fuel (by omega) [] more (position + 1) w
      refine ⟨after, left, ?_⟩
      have shape : Value.encode doubles (.dict v) ++ more =
          100 :: (encodeEntries doubles v ++ 59 :: more) := by
        simp [Value.encode, ascii]
      rw [shape]
      exact loop
  | @array v formed ih =>
      obtain ⟨fuel, rfl⟩ := exists_succ doubles enough
      intro more position w
      have bounds := length_le_encodeElements doubles v
      have length : (Value.encode doubles (.array v)).length =
          (encodeElements doubles v).length + 2 := by
        simp [Value.encode, ascii]
      obtain ⟨after, left, loop⟩ := @decodeArrayLoop_eq Double doubles (decodeValue doubles fuel)
        v (fun e member => ih e member (by have := bounds.2 e member; omega))
        fuel (by omega) [] more (position + 1) w
      refine ⟨after, left, ?_⟩
      have shape : Value.encode doubles (.array v) ++ more =
          97 :: (encodeElements doubles v ++ 59 :: more) := by
        simp [Value.encode, ascii]
      rw [shape]
      exact loop

theorem decode_encode (formed : v.Formed) :
    Value.decode doubles (v.encode doubles) = .ok v.decoded := by
  obtain ⟨after, left, read⟩ := decodeValue_reads doubles formed
    (Nat.le_succ (v.encode doubles).length) [] 0 {}
  rw [List.append_nil] at read
  rw [Value.decode, read]
  rfl

section Streams

variable (more : Bytes) (position : Nat)

theorem readBytes_eq {b : Bytes} (small : b.length < 2 ^ 64) :
    ∃ after, readBytes doubles { rest := encodeB b ++ more, position := position } =
      .ok (b, { rest := more, position := after }) := by
  have enough : ((Value.bytes b).encode doubles).length ≤ (encodeB b ++ more).length + 1 := by
    rw [Value.encode, List.length_append]
    omega
  obtain ⟨after, left, read⟩ := decodeValue_reads doubles (.bytes small) enough more position {}
  rw [Value.encode] at read
  refine ⟨after, ?_⟩
  rw [readBytes, Stream.good_at, Bool.not_true, if_neg Bool.false_ne_true, read]
  rfl

private theorem length_encode_le (v : Value Double) :
    (v.encode doubles).length ≤ (v.encode doubles ++ more).length + 1 + 1 := by
  rw [List.length_append]
  omega

theorem readArray_eq {a : List (Value Double)} (formed : (Value.array a).Formed) :
    ∃ after, readArray doubles
        { rest := (Value.array a).encode doubles ++ more, position := position } =
      .ok (decodedElements a, { rest := more, position := after }) := by
  obtain ⟨after, left, read⟩ := decodeValue_reads doubles formed
    (length_encode_le doubles more _) more position {}
  refine ⟨after, ?_⟩
  -- The first byte sends the decoder to `decode_array`.
  let i : Stream := { rest := (Value.array a).encode doubles ++ more, position := position }
  have opened : decodeArray (decodeValue doubles (i.rest.length + 1)) (i.rest.length + 1) i {} =
      .ok (.array (decodedElements a), { rest := more, position := after }, left) := read
  rw [readArray, opened]
  rfl

theorem readDict_eq {d : List (Bytes × Value Double)} (formed : (Value.dict d).Formed) :
    ∃ after, readDict doubles
        { rest := (Value.dict d).encode doubles ++ more, position := position } =
      .ok (decodedEntries [] d, { rest := more, position := after }) := by
  obtain ⟨after, left, read⟩ := decodeValue_reads doubles formed
    (length_encode_le doubles more _) more position {}
  refine ⟨after, ?_⟩
  let i : Stream := { rest := (Value.dict d).encode doubles ++ more, position := position }
  have opened : decodeDict (decodeValue doubles (i.rest.length + 1)) (i.rest.length + 1) i {} =
      .ok (.dict (decodedEntries [] d), { rest := more, position := after }, left) := read
  rw [readDict, opened]
  rfl

end Streams

end Decode

section Keys

variable {doubles}

theorem nodup_decodeDictLoop {decoder : ValueDecoder Double} {fuel : Nat} {c : Option UInt8}
    {d : List (Bytes × Value Double)} {i : Stream} {w : WorkSpace}
    {result : Value Double × Stream × WorkSpace} (distinct : (d.map (·.1)).Nodup)
    (success : decodeDictLoop decoder fuel c d i w = .ok result) :
    ∃ d, result.1 = .dict d ∧ (d.map (·.1)).Nodup := by
  induction fuel generalizing c d i w with
  | zero => cases success
  | succ fuel ih =>
      rw [decodeDictLoop] at success
      split at success
      · obtain ⟨⟨i, w⟩, -, success⟩ := bind_ok success
        obtain ⟨⟨v, i, w⟩, -, success⟩ := bind_ok success
        exact ih (nodup_keys_assign distinct) success
      · obtain ⟨-, -, success⟩ := bind_ok success
        obtain ⟨-, -, success⟩ := bind_ok success
        cases success
        exact ⟨d, rfl, distinct⟩

theorem nodup_decodeDict {decoder : ValueDecoder Double} {fuel : Nat} {i : Stream}
    {w : WorkSpace} {result : Value Double × Stream × WorkSpace}
    (success : decodeDict decoder fuel i w = .ok result) :
    ∃ d, result.1 = .dict d ∧ (d.map (·.1)).Nodup := by
  simp only [decodeDict] at success
  by_cases ended : (!i.get.2.good) = true
  · rw [if_pos ended] at success
    cases success
    exact ⟨[], rfl, List.nodup_nil⟩
  · rw [if_neg ended] at success
    by_cases other : i.get.1 ≠ some 100
    · rw [if_pos other] at success
      cases success
    · rw [if_neg other] at success
      have none? : (([] : List (Bytes × Value Double)).map (·.1)).Nodup := List.nodup_nil
      exact nodup_decodeDictLoop none? success

theorem nodup_decodeDictionary {b : Bytes} {d : List (Bytes × Value Double)}
    (success : decodeDictionary doubles b = .ok d) : (d.map (·.1)).Nodup := by
  obtain ⟨⟨read, i⟩, reads, same⟩ := bind_ok success
  cases same
  obtain ⟨⟨v, i, w⟩, decodes, reads⟩ := bind_ok reads
  obtain ⟨d, rfl, distinct⟩ := nodup_decodeDict decodes
  cases reads
  exact distinct

end Keys

/-- Values that are equal when dictionaries are compared as maps. -/
inductive Value.Same : Value Double → Value Double → Prop where
  | empty : Same .empty .empty
  | bool {v : Bool} : Same (.bool v) (.bool v)
  | int {v : Int64} : Same (.int v) (.int v)
  | size {v : UInt64} : Same (.size v) (.size v)
  | real {v : Double} : Same (.real v) (.real v)
  | bytes {v : Bytes} : Same (.bytes v) (.bytes v)
  | dict {v w : List (Bytes × Value Double)} :
      (∀ k, k ∈ v.map (·.1) ↔ k ∈ w.map (·.1)) →
      (∀ e ∈ v, ∀ f ∈ w, e.1 = f.1 → e.2.Same f.2) → Same (.dict v) (.dict w)
  | array {v w : List (Value Double)} : v.length = w.length →
      (∀ pair ∈ v.zip w, pair.1.Same pair.2) → Same (.array v) (.array w)

/-- No dictionary in the value has an empty key. -/
inductive Value.KeysNonempty : Value Double → Prop where
  | empty : KeysNonempty .empty
  | bool {v : Bool} : KeysNonempty (.bool v)
  | int {v : Int64} : KeysNonempty (.int v)
  | size {v : UInt64} : KeysNonempty (.size v)
  | real {v : Double} : KeysNonempty (.real v)
  | bytes {v : Bytes} : KeysNonempty (.bytes v)
  | dict {v : List (Bytes × Value Double)} :
      (∀ e ∈ v, e.1 ≠ []) → (∀ e ∈ v, e.2.KeysNonempty) → KeysNonempty (.dict v)
  | array {v : List (Value Double)} : (∀ e ∈ v, e.KeysNonempty) → KeysNonempty (.array v)

section Same

variable {v w : Value Double}

theorem decodedElements_eq (vs : List (Value Double)) :
    decodedElements vs = vs.map Value.decoded := by
  induction vs with
  | nil => rfl
  | cons v vs ih => rw [decodedElements, ih, List.map_cons]

theorem decodedEntries_eq {es : List (Bytes × Value Double)}
    (nonempty : ∀ e ∈ es, e.1 ≠ []) (d : List (Bytes × Value Double))
    (distinct : (d.map (·.1) ++ es.map (·.1)).Nodup) :
    decodedEntries d es = d ++ es.map fun e => (e.1, e.2.decoded) := by
  induction es generalizing d with
  | nil => simp [decodedEntries]
  | cons e es ih =>
      obtain ⟨k, v⟩ := e
      have key : decodedKey k = k := by
        rw [decodedKey, if_neg (nonempty (k, v) List.mem_cons_self)]
      have fresh : k ∉ d.map (·.1) := by
        intro member
        exact (List.nodup_append.mp distinct).2.2 k member k List.mem_cons_self rfl
      rw [decodedEntries, key, assign_of_not_mem fresh,
        ih (fun e member => nonempty e (.tail _ member)), List.map_cons, List.append_assoc,
        List.singleton_append]
      simpa using distinct

theorem decoded_eq_self (formed : v.Formed) (nonempty : v.KeysNonempty) : v.decoded = v := by
  induction formed with
  | empty | bool | int | size | real | bytes => rfl
  | @dict v distinct small formed ih =>
      cases nonempty with
      | dict nonempty inner =>
          have items : v.map (fun e => (e.1, e.2.decoded)) = v :=
            (List.map_congr_left fun e member => by rw [ih e member (inner e member), id]).trans
              (List.map_id v)
          rw [Value.decoded, decodedEntries_eq nonempty [] (by simpa using distinct), items,
            List.nil_append]
  | @array v formed ih =>
      cases nonempty with
      | array nonempty =>
          have items : v.map Value.decoded = v :=
            (List.map_congr_left fun e member => ih e member (nonempty e member)).trans
              (List.map_id v)
          rw [Value.decoded, decodedElements_eq, items]

theorem decodedEntries_nonempty {es d : List (Bytes × Value Double)}
    (nonempty : ∀ e ∈ d, e.1 ≠ []) : ∀ e ∈ decodedEntries d es, e.1 ≠ [] := by
  induction es generalizing d with
  | nil => exact nonempty
  | cons e es ih =>
      obtain ⟨k, v⟩ := e
      rw [decodedEntries]
      refine ih fun f member => ?_
      rcases eq_or_mem_of_mem_assign member with rfl | ⟨before, -⟩
      · exact decodedKey_ne_nil k
      · exact nonempty f before

/-- The decoder gives a value back exactly when no key in it is empty. -/
theorem same_decoded_iff (formed : v.Formed) : v.decoded.Same v ↔ v.KeysNonempty := by
  induction formed with
  | empty => exact ⟨fun _ => .empty, fun _ => .empty⟩
  | bool => exact ⟨fun _ => .bool, fun _ => .bool⟩
  | int => exact ⟨fun _ => .int, fun _ => .int⟩
  | size => exact ⟨fun _ => .size, fun _ => .size⟩
  | real => exact ⟨fun _ => .real, fun _ => .real⟩
  | bytes => exact ⟨fun _ => .bytes, fun _ => .bytes⟩
  | @dict v distinct small formed ih =>
      constructor
      · intro same
        rw [Value.decoded] at same
        cases same with
        | dict keys same =>
            have nonempty : ∀ e ∈ v, e.1 ≠ [] := by
              intro e member empty
              have listed := (keys e.1).mpr (List.mem_map_of_mem member)
              obtain ⟨f, found, same⟩ := List.mem_map.mp listed
              exact decodedEntries_nonempty (by simp) f found (same.trans empty)
            rw [decodedEntries_eq nonempty [] (by simpa using distinct)] at same
            refine .dict nonempty fun e member => (ih e member).mp ?_
            exact same (e.1, e.2.decoded) (List.mem_map_of_mem member) e member rfl
      · intro nonempty
        cases nonempty with
        | dict nonempty inner =>
            rw [Value.decoded, decodedEntries_eq nonempty [] (by simpa using distinct)]
            refine .dict (fun k => by simp) fun e decoded f member key => ?_
            obtain ⟨g, inside, rfl⟩ := List.mem_map.mp decoded
            cases List.inj_on_of_nodup_map distinct inside member key
            exact (ih _ inside).mpr (inner _ inside)
  | @array v formed ih =>
      have paired : (v.map Value.decoded).zip v = v.map fun e => (e.decoded, e) := by
        simpa using List.zip_map' (f := Value.decoded) (g := id) (l := v)
      rw [Value.decoded, decodedElements_eq]
      constructor
      · intro same
        cases same with
        | array length same =>
            rw [paired] at same
            exact .array fun e member => (ih e member).mp (same _ (List.mem_map_of_mem member))
      · intro nonempty
        cases nonempty with
        | array nonempty =>
            refine .array (List.length_map _) fun pair member => ?_
            rw [paired] at member
            obtain ⟨e, inside, rfl⟩ := List.mem_map.mp member
            exact (ih e inside).mpr (nonempty e inside)

/-- Decoding an encoded value gives it back, dictionaries compared as maps,
exactly when no dictionary in it has an empty key. -/
theorem decode_encode_same_iff (formed : v.Formed) :
    (∃ w, Value.decode doubles (v.encode doubles) = .ok w ∧ w.Same v) ↔ v.KeysNonempty := by
  rw [← same_decoded_iff formed, decode_encode doubles formed]
  constructor
  · rintro ⟨w, ⟨⟩, same⟩
    exact same
  · intro same
    exact ⟨_, rfl, same⟩

end Same

section EmptyKey

/-- One real, written as `0`. -/
def loneDouble : Doubles Unit where
  zero := ()
  toText _ := ascii "0"
  ofText _ := some ()
  ofText_toText _ := rfl
  unterminated _ := by decide

def oneKey (k : Bytes) : Value Unit := .dict [(k, .empty)]

theorem oneKey_formed {k : Bytes} (small : k.length < 2 ^ 64) : (oneKey k).Formed :=
  .dict (List.nodup_singleton _) (by simpa using small) (by simpa using .empty)

theorem decode_encode_same_name : ∃ w,
    Value.decode loneDouble ((oneKey (ascii "name")).encode loneDouble) = .ok w ∧
      w.Same (oneKey (ascii "name")) :=
  (decode_encode_same_iff loneDouble (oneKey_formed (by decide))).mpr
    (.dict (by decide) (by simpa using .empty))

/-- An empty key comes back as the text `0`. -/
theorem empty_key_misread : (oneKey []).Formed ∧
    Value.decode loneDouble ((oneKey []).encode loneDouble) = .ok (oneKey (ascii "0")) ∧
    ¬ (oneKey (ascii "0")).Same (oneKey []) := by
  have formed : (oneKey []).Formed := oneKey_formed (by decide)
  refine ⟨formed, decode_encode loneDouble formed, fun same => ?_⟩
  cases same with
  | dict keys same => exact absurd ((keys []).mpr (by decide)) (by decide)

end EmptyKey

end Firestr.Util
