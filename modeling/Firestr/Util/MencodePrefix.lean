import Firestr.Util.MencodeInput

/-! Where an encoded value ends. The encoding says so itself, and the decoder
sees when it is cut short, but for a byte string on its own. -/

set_option autoImplicit false

namespace Firestr.Util

open Firestr.Library.Decimal Firestr.Library.Outcomes

section Texts

variable {e : UInt8} {p q r s : Bytes}

/-- A text ends at the first terminator. -/
theorem text_append_inj (clear : e ∉ p) (other : e ∉ q) (same : p ++ e :: r = q ++ e :: s) :
    p = q ∧ r = s := by
  induction p generalizing q with
  | nil =>
      cases q with
      | nil => exact ⟨rfl, (List.cons.inj same).2⟩
      | cons c q => exact absurd ((List.cons.inj same).1 ▸ List.mem_cons_self) other
  | cons c p ih =>
      cases q with
      | nil => exact absurd ((List.cons.inj same).1 ▸ List.mem_cons_self) clear
      | cons d q =>
          obtain ⟨first, same⟩ := List.cons.inj same
          obtain ⟨rest, ends⟩ := ih (fun member => clear (.tail _ member))
            (fun member => other (.tail _ member)) same
          exact ⟨by rw [first, rest], ends⟩

theorem numeral_inj {m n : Nat} (same : numeral m = numeral n) : m = n := by
  have value := congrArg natural same
  rw [natural_numeral, natural_numeral] at value
  exact Option.some.inj value

theorem encodeB_append_inj {a b : Bytes} (same : encodeB a ++ r = encodeB b ++ s) :
    a = b ∧ r = s := by
  simp only [encodeB, List.append_assoc, List.singleton_append] at same
  obtain ⟨lengths, same⟩ := text_append_inj (not_mem_numeral (by decide))
    (not_mem_numeral (by decide)) same
  exact List.append_inj same (numeral_inj lengths)

theorem enc_append_inj {b : UInt8} (clear : e ∉ p) (other : e ∉ q)
    (same : enc b e p ++ r = enc b e q ++ s) : p = q ∧ r = s := by
  simp only [enc, List.cons_append, List.append_assoc] at same
  exact text_append_inj clear other (List.cons.inj same).2

end Texts

variable {Double : Type} {doubles : Doubles Double}

section Inj

/-- What the first byte of an encoding says of the type. -/
def Value.mark : Value Double → UInt8
  | .empty => 110
  | .bool _ => 84
  | .int _ => 105
  | .size _ => 115
  | .real _ => 114
  | .bytes _ => 48
  | .dict _ => 100
  | .array _ => 97

/-- Any digit is `0`, and `F` is `T`. -/
def markOf (c : UInt8) : UInt8 :=
  if 48 ≤ c.toNat ∧ c.toNat ≤ 57 then 48 else if c = 70 then 84 else c

theorem Value.head_encode (v : Value Double) (more : Bytes) :
    (v.encode doubles ++ more).head?.map markOf = some v.mark := by
  cases v with
  | bool v => cases v <;> rfl
  | bytes v =>
      obtain ⟨c, rest, head, digit?⟩ := encodeB_head v more
      rw [Value.encode, head, List.head?_cons, Option.map_some, markOf, if_pos digit?, Value.mark]
  | _ => rfl

theorem Value.mark_eq {v w : Value Double} {r s : Bytes}
    (same : v.encode doubles ++ r = w.encode doubles ++ s) : v.mark = w.mark := by
  have heads := congrArg (fun text => text.head?.map markOf) same
  simp only [Value.head_encode] at heads
  exact Option.some.inj heads

private theorem encodeElements_ne (x : Value Double) (w : List (Value Double)) (r s : Bytes) :
    59 :: r ≠ encodeElements doubles (x :: w) ++ 59 :: s := by
  intro same
  obtain ⟨c, rest, head, other⟩ := x.encode_head doubles (encodeElements doubles w ++ 59 :: s)
  rw [encodeElements, List.append_assoc, head] at same
  exact other (List.cons.inj same).1.symm

private theorem encodeEntries_ne (f : Bytes × Value Double) (w : List (Bytes × Value Double))
    (r s : Bytes) : 59 :: r ≠ encodeEntries doubles (f :: w) ++ 59 :: s := by
  intro same
  obtain ⟨c, rest, head, digit?⟩ := encodeB_head f.1
    (f.2.encode doubles ++ (encodeEntries doubles w ++ 59 :: s))
  rw [encodeEntries, List.append_assoc, List.append_assoc, head] at same
  rw [← (List.cons.inj same).1] at digit?
  exact absurd digit?.2 (by decide)

mutual

theorem Value.encoded_append_inj (v w : Value Double) (r s : Bytes)
    (same : v.encode doubles ++ r = w.encode doubles ++ s) : v = w ∧ r = s := by
  have marks := Value.mark_eq same
  cases v with
  | empty =>
      cases w with
      | empty => exact ⟨rfl, List.append_cancel_left same⟩
      | _ => cases marks
  | bool v =>
      cases w with
      | bool w =>
          cases v <;> cases w <;> first
            | exact ⟨rfl, List.append_cancel_left same⟩
            | exact absurd (List.cons.inj same).1 (by decide)
      | _ => cases marks
  | int v =>
      cases w with
      | int w =>
          rw [Value.encode, Value.encode] at same
          obtain ⟨texts, ends⟩ := enc_append_inj (not_mem_intText v) (not_mem_intText w) same
          have values := congrArg intOfText texts
          rw [intOfText_intText, intOfText_intText] at values
          cases values
          exact ⟨rfl, ends⟩
      | _ => cases marks
  | size v =>
      cases w with
      | size w =>
          rw [Value.encode, Value.encode] at same
          obtain ⟨texts, ends⟩ := enc_append_inj (not_mem_numeral (by decide))
            (not_mem_numeral (by decide)) same
          rw [UInt64.toNat_inj.mp (numeral_inj texts)]
          exact ⟨rfl, ends⟩
      | _ => cases marks
  | real v =>
      cases w with
      | real w =>
          rw [Value.encode, Value.encode] at same
          obtain ⟨texts, ends⟩ := enc_append_inj (doubles.unterminated v) (doubles.unterminated w)
            same
          have values := congrArg doubles.ofText texts
          rw [doubles.ofText_toText, doubles.ofText_toText] at values
          cases values
          exact ⟨rfl, ends⟩
      | _ => cases marks
  | bytes v =>
      cases w with
      | bytes w =>
          rw [Value.encode, Value.encode] at same
          obtain ⟨rfl, ends⟩ := encodeB_append_inj same
          exact ⟨rfl, ends⟩
      | _ => cases marks
  | dict v =>
      cases w with
      | dict w =>
          rw [Value.encode, Value.encode] at same
          obtain ⟨rfl, ends⟩ := encodedEntries_append_inj v w r s (by simpa [ascii] using same)
          exact ⟨rfl, ends⟩
      | _ => cases marks
  | array v =>
      cases w with
      | array w =>
          rw [Value.encode, Value.encode] at same
          obtain ⟨rfl, ends⟩ := encodedElements_append_inj v w r s (by simpa [ascii] using same)
          exact ⟨rfl, ends⟩
      | _ => cases marks

theorem encodedEntries_append_inj (v w : List (Bytes × Value Double)) (r s : Bytes)
    (same : encodeEntries doubles v ++ 59 :: r = encodeEntries doubles w ++ 59 :: s) :
    v = w ∧ r = s := by
  cases v with
  | nil =>
      cases w with
      | nil => exact ⟨rfl, (List.cons.inj same).2⟩
      | cons f w => exact absurd same (encodeEntries_ne f w r s)
  | cons e v =>
      cases w with
      | nil => exact absurd same.symm (encodeEntries_ne e v s r)
      | cons f w =>
          obtain ⟨k, u⟩ := e
          obtain ⟨l, x⟩ := f
          simp only [encodeEntries, List.append_assoc] at same
          obtain ⟨rfl, values⟩ := encodeB_append_inj same
          obtain ⟨rfl, tails⟩ := Value.encoded_append_inj u x _ _ values
          obtain ⟨rfl, ends⟩ := encodedEntries_append_inj v w r s tails
          exact ⟨rfl, ends⟩

theorem encodedElements_append_inj (v w : List (Value Double)) (r s : Bytes)
    (same : encodeElements doubles v ++ 59 :: r = encodeElements doubles w ++ 59 :: s) :
    v = w ∧ r = s := by
  cases v with
  | nil =>
      cases w with
      | nil => exact ⟨rfl, (List.cons.inj same).2⟩
      | cons x w => exact absurd same (encodeElements_ne x w r s)
  | cons u v =>
      cases w with
      | nil => exact absurd same.symm (encodeElements_ne u v s r)
      | cons x w =>
          simp only [encodeElements, List.append_assoc] at same
          obtain ⟨rfl, tails⟩ := Value.encoded_append_inj u x _ _ same
          obtain ⟨rfl, ends⟩ := encodedElements_append_inj v w r s tails
          exact ⟨rfl, ends⟩

end

/-- An encoding says where it ends, whatever order the dictionaries in it are
walked in. -/
theorem encode_append_inj (v w : Value Double) (r s : Bytes)
    (same : v.encode doubles ++ r = w.encode doubles ++ s) : v = w ∧ r = s :=
  Value.encoded_append_inj v w r s same

theorem encode_append_inj_texts :
    (Value.array [.bytes (ascii ";")] : Value Unit) = .array [.bytes (ascii ";")] ∧
      ascii "1:a" = ascii "1:a" :=
  @encode_append_inj Unit loneDouble _ _ _ _ rfl

end Inj

section Cut

/-- `p` is the text cut short. -/
def Cuts (p text : Bytes) : Prop := ∃ c rest, text = p ++ c :: rest

variable {p text more : Bytes} {e : UInt8}

theorem Cuts.length_lt (cuts : Cuts p text) : p.length < text.length := by
  obtain ⟨c, rest, rfl⟩ := cuts
  simp

theorem Cuts.append_or (cuts : Cuts p (text ++ more)) :
    Cuts p text ∨ ∃ q, p = text ++ q ∧ Cuts q more := by
  obtain ⟨c, rest, same⟩ := cuts
  rcases List.append_eq_append_iff.mp same with ⟨q, whole, ends⟩ | ⟨q, whole, ends⟩
  · exact .inr ⟨q, whole, c, rest, ends⟩
  · cases q with
    | nil =>
        rw [List.append_nil] at whole
        exact .inr ⟨[], by rw [whole, List.append_nil], c, rest, ends.symm⟩
    | cons d q => exact .inl ⟨d, q, whole⟩

theorem Cuts.eq_nil (cuts : Cuts p [e]) : p = [] := by
  have length := cuts.length_lt
  exact List.length_eq_zero_iff.mp (Nat.lt_one_iff.mp length)

theorem Cuts.cons {b c : UInt8} (cuts : Cuts (c :: p) (b :: text)) : c = b ∧ Cuts p text := by
  obtain ⟨d, rest, same⟩ := cuts
  obtain ⟨first, tails⟩ := List.cons.inj same
  exact ⟨first.symm, d, rest, tails⟩

/-- The terminator is cut off. -/
theorem Cuts.clear (cuts : Cuts p (text ++ [e])) (clear : e ∉ text) : e ∉ p := by
  rcases cuts.append_or with ⟨c, rest, rfl⟩ | ⟨q, rfl, ends⟩
  · exact fun member => clear (List.mem_append_left _ member)
  · rw [ends.eq_nil, List.append_nil]
    exact clear

theorem Cuts.enc {b c : UInt8} (cuts : Cuts (c :: p) (enc b e text)) (clear : e ∉ text) :
    c = b ∧ e ∉ p := by
  obtain ⟨first, inside⟩ := @Cuts.cons p (text ++ [e]) b c cuts
  exact ⟨first, inside.clear clear⟩

/-- The program throws an exception. -/
def Rejects {Result : Type} (program : Outcome Result) : Prop :=
  ∃ what, program = .error (.thrown what)

theorem rejects_of_meets {Result : Type} {program : Outcome Result}
    (meets : Meets Thrown (fun _ => False) program) : Rejects program := by
  cases program with
  | ok result => exact meets.elim
  | error fault =>
      cases fault with
      | thrown what => exact ⟨what, rfl⟩
      | _ => exact False.elim meets

variable {i : Stream} {w : WorkSpace} {position : Nat}

theorem checkStream_ended (ended : i.good = false) :
    Meets Thrown (fun _ : Unit => False) (checkStream i) := by
  rw [checkStream, ended]
  trivial

theorem getUntil_cut (clear : e ∉ i.rest) : Meets Thrown (fun _ => False) (getUntil i e w) :=
  (getUntil_meets i e w).mono fun _ text => clear text.within

theorem dec_cut {Number : Type} {fallback : Number} {cast : Bytes → Outcome Number}
    {type : String} {b : UInt8} (clear : e ∉ p) :
    Meets Thrown (fun _ => False)
      (dec fallback cast type b e { rest := b :: p, position := position } w) := by
  unfold dec
  simp only [Stream.get_cons, Stream.good_at, Bool.not_true, Bool.false_eq_true, if_false, ne_eq,
    not_true]
  exact (getUntil_cut clear).bind fun _ never => never.elim

/-- A byte string is cut in its length or in its bytes. -/
theorem Cuts.encodeB {k : Bytes} (cuts : Cuts p (encodeB k)) :
    58 ∉ p ∨ ∃ q, p = numeral k.length ++ 58 :: q ∧ q.length < k.length := by
  rcases Cuts.append_or cuts with inside | ⟨q, rfl, ends⟩
  · exact .inl (inside.clear (not_mem_numeral (by decide)))
  · exact .inr ⟨q, by simp, ends.length_lt⟩

/-- Reading more than there is. -/
theorem Stream.read_short {size : Nat} (short : p.length < size) :
    ({ rest := p, position := position } : Stream).read size =
      (p, { rest := [], position := position + p.length, eof := true, fail := true }) := by
  simp only [Stream.read, Stream.good_at, if_true, if_neg (Nat.not_le.mpr short)]

theorem ofNat_length {k q : Bytes} (small : k.length < 2 ^ 64) (short : q.length < k.length) :
    UInt64.ofNat k.length ≠ 0 ∧ q.length < (UInt64.ofNat k.length).toNat := by
  have some? : k ≠ [] := List.ne_nil_of_length_pos (Nat.zero_lt_of_lt short)
  rw [UInt64.toNat_ofNat_of_lt' small]
  exact ⟨ofNat_length_ne_zero some? small, short⟩

/-- A key that is cut short ends the stream, if it does not make `decode_key` throw. -/
theorem decodeKey_cut {k : Bytes} (small : k.length < 2 ^ 64) (cuts : Cuts p (encodeB k))
    (some? : p ≠ []) :
    Meets Thrown (fun r => r.1.good = false)
      (decodeKey { rest := p, position := position } w) := by
  obtain ⟨c, rest, rfl⟩ := List.exists_cons_of_ne_nil some?
  simp only [decodeKey, Stream.peek_cons, Stream.good_at, Bool.not_true, Bool.false_eq_true,
    if_false]
  split
  · trivial
  · rcases cuts.encodeB with clear | ⟨q, whole, short⟩
    · exact (getUntil_cut clear).bind fun _ never => never.elim
    · obtain ⟨after, read⟩ := getUntil_eq q position w (not_mem_numeral (by decide) : 58 ∉ numeral k.length)
      obtain ⟨positive, short⟩ := ofNat_length small short
      rw [whole, read, ok_bind]
      simp only [sizeOfText_numeral small, ok_bind, if_neg positive, Stream.read_short short]
      rfl

/-- The cut is after the length of a byte string that is not in a container. -/
def CutBytes (v : Value Double) (p : Bytes) : Prop :=
  ∃ b, v = .bytes b ∧ numeral b.length ++ [58] <+: p

theorem decodeBytes_cut {b : Bytes} (small : b.length < 2 ^ 64) (cuts : Cuts p (encodeB b))
    (some? : p ≠ []) :
    Meets Thrown (fun r => r.1.good = false ∧ numeral b.length ++ [58] <+: p)
      (decodeBytes { rest := p, position := position } w) := by
  obtain ⟨c, rest, rfl⟩ := List.exists_cons_of_ne_nil some?
  simp only [decodeBytes, Stream.peek_cons, Stream.good_at, Bool.not_true, Bool.false_eq_true,
    if_false]
  split
  · trivial
  · rcases cuts.encodeB with clear | ⟨q, whole, short⟩
    · exact (getUntil_cut clear).bind fun _ never => never.elim
    · obtain ⟨after, read⟩ := getUntil_eq q position { w with b := [] }
        (not_mem_numeral (by decide) : 58 ∉ numeral b.length)
      obtain ⟨positive, short⟩ := ofNat_length small short
      rw [whole, read, ok_bind]
      simp only [sizeOfText_numeral small, ok_bind, if_neg positive, Stream.read_short short]
      exact ⟨rfl, q, by simp⟩

theorem Stream.get_ended (ended : i.good = false) : i.get.2.good = false := by
  unfold Stream.get
  rw [ended]
  simp [Stream.good]

theorem decodeBytes_short {b q : Bytes} (small : b.length < 2 ^ 64) (short : q.length < b.length)
    (position : Nat) (w : WorkSpace) : ∃ r,
    decodeBytes { rest := numeral b.length ++ 58 :: q, position := position } w = .ok r := by
  obtain ⟨positive, short⟩ := ofNat_length small short
  obtain ⟨c, rest, head, digit?⟩ := numeral_head b.length (58 :: q)
  obtain ⟨after, read⟩ := getUntil_eq q position { w with b := [] }
    (not_mem_numeral (by decide) : 58 ∉ numeral b.length)
  rw [head] at read
  simp only [decodeBytes, head, Stream.peek_cons, Stream.good_at, Bool.not_true,
    Bool.false_eq_true, if_false, isDigit, Option.any_some, decide_eq_true digit?]
  rw [read, ok_bind]
  simp only [sizeOfText_numeral small, ok_bind, if_neg positive, Stream.read_short short]
  exact ⟨_, rfl⟩

section Containers

variable {decoder : ValueDecoder Double} {bound fuel : Nat}

/-- A loop that meets the end of the stream throws. -/
theorem decodeArrayLoop_ended {a : List (Value Double)} (positive : 1 ≤ fuel)
    (ended : i.peek.2.good = false) :
    Meets Thrown (fun _ => False) (decodeArrayLoop decoder fuel i.peek.1 a i.peek.2 w) := by
  obtain ⟨fuel, rfl⟩ := Nat.exists_eq_add_of_le' positive
  rw [decodeArrayLoop, if_neg (by simp [ended])]
  exact (checkStream_ended (Stream.get_ended ended)).bind fun _ never => never.elim

theorem decodeDictLoop_ended {d : List (Bytes × Value Double)} (positive : 1 ≤ fuel)
    (ended : i.peek.2.good = false) :
    Meets Thrown (fun _ => False) (decodeDictLoop decoder fuel i.peek.1 d i.peek.2 w) := by
  obtain ⟨fuel, rfl⟩ := Nat.exists_eq_add_of_le' positive
  rw [decodeDictLoop, if_neg (by simp [ended])]
  exact (checkStream_ended (Stream.get_ended ended)).bind fun _ never => never.elim

theorem Stream.peek_ended (ended : i.good = false) : i.peek.2.good = false := by
  unfold Stream.peek
  rw [ended]
  simp [Stream.good]

/-- The decoder sees when a value shorter than `bound` is cut short: it throws, or
leaves a stream that has ended. -/
def SeesCut (doubles : Doubles Double) (decoder : ValueDecoder Double) (bound : Nat)
    (v : Value Double) : Prop :=
  ∀ p position w, p.length < bound → Cuts p (v.encode doubles) →
    Meets Thrown (fun r => r.2.1.good = false) (decoder { rest := p, position := position } w)

theorem decodeArrayLoop_cut (vs : List (Value Double))
    (reads : ∀ v ∈ vs, (v.encode doubles).length < bound →
      Reads decoder (v.encode doubles) v.decoded)
    (sees : ∀ v ∈ vs, SeesCut doubles decoder bound v) (a : List (Value Double)) (position : Nat)
    (w : WorkSpace) (small : p.length < bound) (enough : p.length < fuel)
    (cuts : Cuts p (encodeElements doubles vs ++ [59])) :
    let i : Stream := { rest := p, position := position }
    Meets Thrown (fun _ => False) (decodeArrayLoop decoder fuel i.peek.1 a i.peek.2 w) := by
  induction vs generalizing fuel a p position w with
  | nil =>
      rw [Cuts.eq_nil cuts]
      exact decodeArrayLoop_ended (by omega) rfl
  | cons v vs ih =>
      cases p with
      | nil => exact decodeArrayLoop_ended (by omega) rfl
      | cons c rest =>
          obtain ⟨fuel, rfl⟩ : ∃ less, fuel = less + 1 := ⟨fuel - 1, by omega⟩
          simp only [List.length_cons] at enough
          rw [encodeElements, List.append_assoc] at cuts
          have other : some c ≠ some 59 := by
            obtain ⟨first, more, head, other⟩ := v.encode_head doubles (encodeElements doubles vs ++ [59])
            obtain ⟨d, tail, whole⟩ := cuts
            rw [head] at whole
            rw [(List.cons.inj whole).1] at other
            exact fun same => other (Option.some.inj same)
          change Meets Thrown _ (decodeArrayLoop decoder (fuel + 1) (some c) a
            { rest := c :: rest, position := position } w)
          rw [decodeArrayLoop, if_pos ⟨other, rfl⟩]
          rcases cuts.append_or with inside | ⟨q, whole, later⟩
          · refine (sees v List.mem_cons_self _ position w small inside).bind ?_
            rintro ⟨u, next, left⟩ ended
            exact decodeArrayLoop_ended (by omega) (Stream.peek_ended ended)
          · have lengths := congrArg List.length whole
            simp only [List.length_cons, List.length_append] at lengths small
            obtain ⟨after, left, read⟩ := reads v List.mem_cons_self (by omega) q position w
            have positive := length_encode_pos doubles v
            rw [whole, read]
            exact ih (fun e member => reads e (.tail _ member))
              (fun e member => sees e (.tail _ member)) _ after left (by omega) (by omega) later

theorem decodeDictLoop_cut (es : List (Bytes × Value Double))
    (keys : ∀ e ∈ es, e.1.length < 2 ^ 64)
    (reads : ∀ e ∈ es, (e.2.encode doubles).length < bound →
      Reads decoder (e.2.encode doubles) e.2.decoded)
    (sees : ∀ e ∈ es, SeesCut doubles decoder bound e.2)
    (ends : ∀ i w, i.good = false → Meets Thrown (fun r => r.2.1.good = false) (decoder i w))
    (d : List (Bytes × Value Double)) (position : Nat) (w : WorkSpace) (small : p.length < bound)
    (enough : p.length < fuel)
    (cuts : Cuts p (encodeEntries doubles es ++ [59])) :
    let i : Stream := { rest := p, position := position }
    Meets Thrown (fun _ => False) (decodeDictLoop decoder fuel i.peek.1 d i.peek.2 w) := by
  induction es generalizing fuel d p position w with
  | nil =>
      rw [Cuts.eq_nil cuts]
      exact decodeDictLoop_ended (by omega) rfl
  | cons e es ih =>
      cases p with
      | nil => exact decodeDictLoop_ended (by omega) rfl
      | cons c rest =>
          obtain ⟨k, v⟩ := e
          obtain ⟨fuel, rfl⟩ : ∃ less, fuel = less + 1 := ⟨fuel - 1, by omega⟩
          simp only [List.length_cons] at enough
          rw [encodeEntries, List.append_assoc, List.append_assoc] at cuts
          have other : some c ≠ some 59 := by
            obtain ⟨first, more, head, digit?⟩ := encodeB_head k
              (v.encode doubles ++ (encodeEntries doubles es ++ [59]))
            obtain ⟨d, tail, whole⟩ := cuts
            rw [head] at whole
            rw [(List.cons.inj whole).1] at digit?
            rintro ⟨⟩
            exact absurd digit?.2 (by decide)
          have keySmall := keys (k, v) List.mem_cons_self
          change Meets Thrown _ (decodeDictLoop decoder (fuel + 1) (some c) d
            { rest := c :: rest, position := position } w)
          rw [decodeDictLoop, if_pos ⟨other, rfl⟩]
          rcases cuts.append_or with inside | ⟨q, whole, later⟩
          · refine (decodeKey_cut keySmall inside (List.cons_ne_nil _ _)).bind ?_
            rintro ⟨middle, keyed⟩ ended
            refine (ends middle keyed ended).bind ?_
            rintro ⟨u, next, left⟩ ended
            exact decodeDictLoop_ended (by omega) (Stream.peek_ended ended)
          · have lengths := congrArg List.length whole
            simp only [List.length_cons, List.length_append] at lengths small
            obtain ⟨key, keyed, keyRead⟩ := decodeKey_eq q position w keySmall
            rw [whole, keyRead, ok_bind]
            rcases later.append_or with inside | ⟨q', whole', later⟩
            · refine (sees (k, v) List.mem_cons_self _ key _ (by omega) inside).bind ?_
              rintro ⟨u, next, left⟩ ended
              exact decodeDictLoop_ended (by omega) (Stream.peek_ended ended)
            · have lengths' := congrArg List.length whole'
              simp only [List.length_append] at lengths'
              have valueReads : Reads decoder (v.encode doubles) v.decoded :=
                reads (k, v) List.mem_cons_self (show (v.encode doubles).length < bound by omega)
              obtain ⟨after, left, read⟩ := valueReads q' key { keyed with s := decodedKey k }
              have positive := length_encode_pos doubles v
              simp only [whole', read, ok_bind]
              exact ih (fun e member => keys e (.tail _ member))
                (fun e member => reads e (.tail _ member))
                (fun e member => sees e (.tail _ member)) _ after left (by omega) (by omega) later

end Containers

/-- On an ended stream `decode_value` reads nothing. -/
theorem decodeValue_ended {fuel : Nat} (ended : i.peek.2.good = false) :
    decodeValue doubles (fuel + 1) i w = .ok (.empty, i.peek.2, w) := by
  rw [decodeValue]
  simp only [ended, Bool.not_false, if_true]

/-- A stream with nothing left is seen to have ended. -/
theorem seesCut_of_cons {fuel : Nat} {v : Value Double}
    (sees : ∀ c rest position w, (c :: rest : Bytes).length < fuel →
      Cuts (c :: rest) (v.encode doubles) → Meets Thrown (fun r => r.2.1.good = false)
        (decodeValue doubles fuel { rest := c :: rest, position := position } w)) :
    SeesCut doubles (decodeValue doubles fuel) fuel v := by
  intro p position w small cuts
  obtain ⟨less, rfl⟩ : ∃ less, fuel = less + 1 := ⟨fuel - 1, by omega⟩
  cases p with
  | nil =>
      rw [decodeValue_ended rfl]
      rfl
  | cons c rest => exact sees c rest position w small cuts

theorem decodeValue_good {fuel : Nat} (i : Stream) (w : WorkSpace) (ended : i.good = false)
    (positive : 1 ≤ fuel) :
    Meets Thrown (fun r => r.2.1.good = false) (decodeValue doubles fuel i w) := by
  obtain ⟨fuel, rfl⟩ := Nat.exists_eq_add_of_le' positive
  rw [decodeValue_ended (Stream.peek_ended ended)]
  exact Stream.peek_ended ended

/-- The decoder throws on a value that is cut short, but for a byte string on its own. -/
theorem decodeValue_cut {v : Value Double} (formed : v.Formed) {fuel : Nat} {c : UInt8}
    {rest : Bytes} (small : (c :: rest).length < fuel) (cuts : Cuts (c :: rest) (v.encode doubles)) :
    Meets Thrown (fun r => r.2.1.good = false ∧ CutBytes v (c :: rest))
      (decodeValue doubles fuel { rest := c :: rest, position := position } w) := by
  induction formed generalizing fuel c rest position w with
  | empty => exact absurd cuts.length_lt (by simp [Value.encode, ascii])
  | @bool v => exact absurd cuts.length_lt (by cases v <;> simp [Value.encode, ascii])
  | @int v =>
      obtain ⟨fuel, rfl⟩ : ∃ less, fuel = less + 1 := ⟨fuel - 1, by omega⟩
      obtain ⟨rfl, clear⟩ := Cuts.enc cuts (not_mem_intText v)
      exact Meets.bind (dec_cut clear) fun _ never => never.elim
  | @size v =>
      obtain ⟨fuel, rfl⟩ : ∃ less, fuel = less + 1 := ⟨fuel - 1, by omega⟩
      obtain ⟨rfl, clear⟩ := Cuts.enc cuts (not_mem_numeral (by decide))
      exact Meets.bind (dec_cut clear) fun _ never => never.elim
  | @real v =>
      obtain ⟨fuel, rfl⟩ : ∃ less, fuel = less + 1 := ⟨fuel - 1, by omega⟩
      obtain ⟨rfl, clear⟩ := Cuts.enc cuts (doubles.unterminated v)
      exact Meets.bind (dec_cut clear) fun _ never => never.elim
  | @bytes v fits =>
      obtain ⟨fuel, rfl⟩ : ∃ less, fuel = less + 1 := ⟨fuel - 1, by omega⟩
      have digit? : 48 ≤ c.toNat ∧ c.toNat ≤ 57 := by
        obtain ⟨first, more, head, digit?⟩ := encodeB_head v []
        obtain ⟨d, tail, whole⟩ := cuts
        rw [Value.encode, ← List.append_nil (encodeB v), head] at whole
        rwa [(List.cons.inj whole).1] at digit?
      rw [Value.encode] at cuts
      rw [decodeValue_digit doubles digit?]
      exact (decodeBytes_cut fits cuts (List.cons_ne_nil _ _)).bind fun r cut =>
        ⟨cut.1, v, rfl, cut.2⟩
  | @dict v distinct fits formed ih =>
      obtain ⟨fuel, rfl⟩ : ∃ less, fuel = less + 1 := ⟨fuel - 1, by omega⟩
      have shorter : rest.length < fuel := by
        rw [List.length_cons] at small
        omega
      have inside : Cuts (c :: rest) (100 :: (encodeEntries doubles v ++ [59])) := by
        simpa [Value.encode, ascii] using cuts
      obtain ⟨rfl, entries⟩ := inside.cons
      have sees : ∀ e ∈ v, SeesCut doubles (decodeValue doubles fuel) fuel e.2 :=
        fun e member => seesCut_of_cons fun c rest position w small cuts =>
          (ih e member small cuts).mono fun _ seen => seen.1
      have never := decodeDictLoop_cut v fits
        (fun e member enough => decodeValue_reads doubles (formed e member) enough.le) sees
        (fun i w ended => decodeValue_good i w ended (by omega)) [] (position + 1) w shorter
        shorter entries
      exact Meets.mono never fun _ never => never.elim
  | @array v formed ih =>
      obtain ⟨fuel, rfl⟩ : ∃ less, fuel = less + 1 := ⟨fuel - 1, by omega⟩
      have shorter : rest.length < fuel := by
        rw [List.length_cons] at small
        omega
      have inside : Cuts (c :: rest) (97 :: (encodeElements doubles v ++ [59])) := by
        simpa [Value.encode, ascii] using cuts
      obtain ⟨rfl, elements⟩ := inside.cons
      have sees : ∀ e ∈ v, SeesCut doubles (decodeValue doubles fuel) fuel e :=
        fun e member => seesCut_of_cons fun c rest position w small cuts =>
          (ih e member small cuts).mono fun _ seen => seen.1
      have never := decodeArrayLoop_cut v
        (fun e member enough => decodeValue_reads doubles (formed e member) enough.le) sees []
        (position + 1) w shorter shorter elements
      exact Meets.mono never fun _ never => never.elim

/-- A byte string on its own whose end is cut off is read, with zeros at its end. -/
theorem decode_cutBytes {v : Value Double} (formed : v.Formed) (cuts : Cuts p (v.encode doubles))
    (cut : CutBytes v p) : ∃ u, Value.decode doubles p = .ok u := by
  obtain ⟨b, rfl, begins⟩ := cut
  cases formed with
  | bytes fits =>
      rw [Value.encode] at cuts
      rcases cuts.encodeB with clear | ⟨q, rfl, short⟩
      · exact absurd (begins.subset (by simp)) clear
      · obtain ⟨r, read⟩ := decodeBytes_short fits short 0 {}
        obtain ⟨c, rest, head, digit?⟩ := numeral_head b.length (58 :: q)
        rw [head] at read
        rw [head, Value.decode, decodeValue_digit doubles digit?, read]
        exact ⟨_, rfl⟩

/-- A value that is cut short is rejected, but for a byte string on its own whose
length has been read. -/
theorem rejects_iff {v : Value Double} (formed : v.Formed) (some? : p ≠ [])
    (begins : p <+: v.encode doubles) (proper : p ≠ v.encode doubles) :
    Rejects (Value.decode doubles p) ↔ ¬CutBytes v p := by
  obtain ⟨q, whole⟩ := begins
  obtain ⟨d, tail, rfl⟩ : ∃ d tail, q = d :: tail := by
    apply List.exists_cons_of_ne_nil
    rintro rfl
    exact proper ((List.append_nil p).symm.trans whole)
  have cuts : Cuts p (v.encode doubles) := ⟨d, tail, whole.symm⟩
  constructor
  · rintro ⟨what, failure⟩ cut
    obtain ⟨u, success⟩ := decode_cutBytes formed cuts cut
    rw [success] at failure
    cases failure
  · intro uncut
    obtain ⟨c, rest, rfl⟩ := List.exists_cons_of_ne_nil some?
    apply rejects_of_meets
    exact Meets.bind (decodeValue_cut formed (Nat.lt_succ_self _) cuts) fun r cut => uncut cut.2

/-- A byte string in a container is rejected when it is cut short. -/
theorem rejects_cut_element :
    Rejects (Value.decode loneDouble (ascii "a2:h")) :=
  (@rejects_iff Unit loneDouble _ (.array [.bytes (ascii "hi")])
    (.array (by simpa using .bytes (by decide))) (by decide) (by decide) (by decide)).mpr
    fun ⟨_, same, _⟩ => by cases same

/-- On its own it is read with a zero for the byte that is missing. -/
theorem cut_bytes_read : (Value.bytes (ascii "hi") : Value Unit).Formed ∧
    ascii "2:h" <+: (Value.bytes (ascii "hi")).encode loneDouble ∧
    ascii "2:h" ≠ (Value.bytes (ascii "hi")).encode loneDouble ∧
    Value.decode loneDouble (ascii "2:h") = .ok (.bytes [104, 0]) ∧
    ¬Rejects (Value.decode loneDouble (ascii "2:h")) := by
  have read : Value.decode loneDouble (ascii "2:h") = .ok (.bytes [104, 0]) := by
    rfl
  refine ⟨.bytes (by decide), by decide, by decide, read, ?_⟩
  rintro ⟨what, failure⟩
  rw [read] at failure
  cases failure

end Cut

end Firestr.Util
