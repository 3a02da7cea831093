import Firestr.Util.Bytes
import Firestr.Util.Dbc

/-! Trimming and splitting of strings. -/

set_option autoImplicit false

namespace Firestr.Util

def isSpace (byte : UInt8) : Bool := byte == 32 || (decide (9 ≤ byte) && decide (byte ≤ 13))

def trim (t : Bytes) : Bytes := ((t.dropWhile isSpace).reverse.dropWhile isSpace).reverse

/-- `split`: the trimmed parts between delimiters, without the empty ones. -/
def split (s delimiters : Bytes) : Outcome (List Bytes) := do
  let tokens := (s.splitOnP (· ∈ delimiters)).filter fun t => !t.isEmpty
  let result := (tokens.map trim).filter fun t => !t.isEmpty
  ensure (!result.isEmpty) "!(result.empty())"
  pure result

/-- The tokens that `split` returns if there are any. -/
def tokens (s delimiters : Bytes) : List Bytes :=
  (((s.splitOnP (· ∈ delimiters)).filter fun t => !t.isEmpty).map trim).filter fun t => !t.isEmpty

section Tokens

variable {s delimiters : Bytes}

theorem split_of_tokens (some? : tokens s delimiters ≠ []) :
    split s delimiters = .ok (tokens s delimiters) := by
  have ensured : (!(tokens s delimiters).isEmpty) = true := by
    rw [Bool.not_eq_true', List.isEmpty_eq_false_iff]
    exact some?
  unfold tokens at ensured
  unfold split
  simp only [ensured, ensure_true, ok_bind, pure_ok]
  rfl

theorem split_of_no_tokens (none? : tokens s delimiters = []) :
    split s delimiters = .error (.raised .ensure "!(result.empty())") := by
  unfold tokens at none?
  unfold split
  simp only [none?]
  rfl

theorem trim_of_not_space {t : Bytes} (plain : ∀ byte ∈ t, isSpace byte = false) : trim t = t := by
  have kept : ∀ t : Bytes, (∀ byte ∈ t, isSpace byte = false) → t.dropWhile isSpace = t := by
    intro t plain
    cases t with
    | nil => rfl
    | cons byte rest => rw [List.dropWhile_cons, plain byte List.mem_cons_self, if_neg (by decide)]
  rw [trim, kept t plain, kept t.reverse fun byte member => plain byte (List.mem_reverse.mp member),
    List.reverse_reverse]

theorem tokens_append_cons (s rest : Bytes) {delimiter : UInt8} (cut : delimiter ∈ delimiters) :
    tokens (s ++ delimiter :: rest) delimiters = tokens s delimiters ++ tokens rest delimiters := by
  unfold tokens
  rw [List.splitOnP_append_cons s rest (decide_eq_true cut), List.filter_append, List.map_append,
    List.filter_append]

theorem tokens_of_plain (some? : s ≠ []) (whole : ∀ byte ∈ s, byte ∉ delimiters)
    (plain : ∀ byte ∈ s, isSpace byte = false) : tokens s delimiters = [s] := by
  unfold tokens
  rw [List.splitOnP_eq_singleton fun byte member => decide_eq_false (whole byte member)]
  have kept : (!s.isEmpty) = true := not_isEmpty_of_ne_nil some?
  simp only [List.filter_cons, kept, if_true, List.filter_nil, List.map_cons, List.map_nil,
    trim_of_not_space plain]

end Tokens

end Firestr.Util
