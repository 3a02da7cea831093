import Mathlib.Algebra.Group.Nat.Defs
import Mathlib.Tactic.Common

/-! Bytes as base 64 text, with `=` behind the last group. The text is decoded six bits at a
time, and characters that are not digits are passed over. -/

set_option autoImplicit false

namespace Firestr.Library.Base64

def digit (n : Nat) : UInt8 :=
  if n < 26 then UInt8.ofNat (65 + n)
  else if n < 52 then UInt8.ofNat (71 + n)
  else if n < 62 then UInt8.ofNat (n - 4)
  else if n = 62 then 43
  else 47

def digitValue (c : UInt8) : Option Nat :=
  if 65 ≤ c ∧ c ≤ 90 then some (c.toNat - 65)
  else if 97 ≤ c ∧ c ≤ 122 then some (c.toNat - 71)
  else if 48 ≤ c ∧ c ≤ 57 then some (c.toNat + 4)
  else if c = 43 then some 62
  else if c = 47 then some 63
  else none

/-- The `=` of the padding. -/
def pad : UInt8 := 61

def encode : List UInt8 → List UInt8
  | [] => []
  | [a] => [digit (a.toNat / 4), digit (a.toNat % 4 * 16), pad, pad]
  | [a, b] =>
      [digit (a.toNat / 4), digit (a.toNat % 4 * 16 + b.toNat / 16), digit (b.toNat % 16 * 4), pad]
  | a :: b :: c :: rest =>
      digit (a.toNat / 4) :: digit (a.toNat % 4 * 16 + b.toNat / 16) ::
        digit (b.toNat % 16 * 4 + c.toNat / 64) :: digit (c.toNat % 64) :: encode rest

/-- The bytes that are complete, and the bits of the one that is not. -/
structure Decoder where
  out : List UInt8 := []
  bits : Nat := 0
  count : Nat := 0
  deriving DecidableEq, Repr

def Decoder.take (d : Decoder) (c : UInt8) : Decoder :=
  match digitValue c with
  | none => d
  | some n =>
    if d.count + 6 ≥ 8 then
      { out := d.out ++ [UInt8.ofNat ((d.bits * 64 + n) / 2 ^ (d.count + 6 - 8))]
        bits := (d.bits * 64 + n) % 2 ^ (d.count + 6 - 8)
        count := d.count + 6 - 8 }
    else { d with bits := d.bits * 64 + n, count := d.count + 6 }

def decode (text : List UInt8) : List UInt8 := (text.foldl Decoder.take {}).out

/-- A digit or the padding. -/
def InAlphabet (c : UInt8) : Prop := c = pad ∨ (digitValue c).isSome = true

section Digits

variable {n : Nat} {a b c : UInt8} {out : List UInt8}

theorem digitValue_digit (small : n < 64) : digitValue (digit n) = some n := by
  have all : ∀ n : Fin 64, digitValue (digit n) = some n.val := by decide
  exact all ⟨n, small⟩

theorem inAlphabet_digit (small : n < 64) : InAlphabet (digit n) := by
  unfold InAlphabet
  rw [digitValue_digit small]
  exact .inr rfl

theorem take_pad (d : Decoder) : d.take pad = d := rfl

/-- The first digit of a byte is kept until the second one completes it. -/
theorem take_first (small : n < 64) :
    Decoder.take { out := out } (digit n) = { out := out, bits := n, count := 6 } := by
  unfold Decoder.take
  rw [digitValue_digit small]
  simp

theorem take_second {bits : Nat} (small : n < 64) :
    Decoder.take { out := out, bits := bits, count := 6 } (digit n) =
      { out := out ++ [UInt8.ofNat ((bits * 64 + n) / 16)]
        bits := (bits * 64 + n) % 16
        count := 4 } := by
  unfold Decoder.take
  rw [digitValue_digit small]
  simp

theorem take_third {bits : Nat} (small : n < 64) :
    Decoder.take { out := out, bits := bits, count := 4 } (digit n) =
      { out := out ++ [UInt8.ofNat ((bits * 64 + n) / 4)]
        bits := (bits * 64 + n) % 4
        count := 2 } := by
  unfold Decoder.take
  rw [digitValue_digit small]
  simp

theorem take_fourth {bits : Nat} (small : n < 64) :
    Decoder.take { out := out, bits := bits, count := 2 } (digit n) =
      { out := out ++ [UInt8.ofNat (bits * 64 + n)], bits := 0, count := 0 } := by
  unfold Decoder.take
  rw [digitValue_digit small]
  simp [Nat.mod_one]

private theorem byte_of_eq {n : Nat} (same : n = a.toNat) : UInt8.ofNat n = a := by
  rw [same, UInt8.ofNat_toNat]

end Digits

/-- Decoding gives the bytes back. -/
theorem decode_encode (bytes : List UInt8) : decode (encode bytes) = bytes := by
  suffices rule : ∀ out, ((encode bytes).foldl Decoder.take { out := out }).out = out ++ bytes by
    exact rule []
  induction bytes using encode.induct with
  | case1 =>
      intro out
      exact (List.append_nil out).symm
  | case2 a =>
      intro out
      have first := a.toNat_lt
      have complete : UInt8.ofNat ((a.toNat / 4 * 64 + a.toNat % 4 * 16) / 16) = a :=
        byte_of_eq (by omega)
      simp only [encode, List.foldl_cons, List.foldl_nil, take_pad]
      rw [take_first (by omega), take_second (by omega), complete]
  | case3 a b =>
      intro out
      have first := a.toNat_lt
      have second := b.toNat_lt
      have complete : UInt8.ofNat
          ((a.toNat / 4 * 64 + (a.toNat % 4 * 16 + b.toNat / 16)) / 16) = a :=
        byte_of_eq (by omega)
      have completed : UInt8.ofNat
          (((a.toNat / 4 * 64 + (a.toNat % 4 * 16 + b.toNat / 16)) % 16 * 64 +
            b.toNat % 16 * 4) / 4) = b := byte_of_eq (by omega)
      simp only [encode, List.foldl_cons, List.foldl_nil, take_pad]
      rw [take_first (by omega), take_second (by omega), take_third (by omega), complete,
        completed, List.append_assoc, List.singleton_append]
  | case4 a b c rest ih =>
      intro out
      have first := a.toNat_lt
      have second := b.toNat_lt
      have third := c.toNat_lt
      have complete : UInt8.ofNat
          ((a.toNat / 4 * 64 + (a.toNat % 4 * 16 + b.toNat / 16)) / 16) = a :=
        byte_of_eq (by omega)
      have completed : UInt8.ofNat
          (((a.toNat / 4 * 64 + (a.toNat % 4 * 16 + b.toNat / 16)) % 16 * 64 +
            (b.toNat % 16 * 4 + c.toNat / 64)) / 4) = b := byte_of_eq (by omega)
      have last : UInt8.ofNat
          ((((a.toNat / 4 * 64 + (a.toNat % 4 * 16 + b.toNat / 16)) % 16 * 64 +
            (b.toNat % 16 * 4 + c.toNat / 64)) % 4) * 64 + c.toNat % 64) = c :=
        byte_of_eq (by omega)
      simp only [encode, List.foldl_cons]
      rw [take_first (by omega), take_second (by omega), take_third (by omega),
        take_fourth (by omega), complete, completed, last, ih]
      simp only [List.append_assoc]
      rfl

theorem inAlphabet_of_mem_encode (bytes : List UInt8) : ∀ c ∈ encode bytes, InAlphabet c := by
  induction bytes using encode.induct with
  | case1 =>
      intro c member
      cases member
  | case2 a =>
      have first := a.toNat_lt
      rw [encode]
      intro c member
      simp only [List.mem_cons, List.not_mem_nil, or_false] at member
      rcases member with rfl | rfl | rfl | rfl
      · exact inAlphabet_digit (by omega)
      · exact inAlphabet_digit (by omega)
      · exact .inl rfl
      · exact .inl rfl
  | case3 a b =>
      have first := a.toNat_lt
      have second := b.toNat_lt
      rw [encode]
      intro c member
      simp only [List.mem_cons, List.not_mem_nil, or_false] at member
      rcases member with rfl | rfl | rfl | rfl
      · exact inAlphabet_digit (by omega)
      · exact inAlphabet_digit (by omega)
      · exact inAlphabet_digit (by omega)
      · exact .inl rfl
  | case4 a b c rest ih =>
      have first := a.toNat_lt
      have second := b.toNat_lt
      have third := c.toNat_lt
      rw [encode]
      intro d member
      simp only [List.mem_cons] at member
      rcases member with rfl | rfl | rfl | rfl | member
      · exact inAlphabet_digit (by omega)
      · exact inAlphabet_digit (by omega)
      · exact inAlphabet_digit (by omega)
      · exact inAlphabet_digit (by omega)
      · exact ih d member

end Firestr.Library.Base64
