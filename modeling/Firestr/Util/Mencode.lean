import Firestr.Library.Assoc
import Firestr.Library.Decimal
import Firestr.Util.Bytes
import Firestr.Util.Dbc

/-! The mencode format. `encode` writes a value to a byte string, and `decode`
reads one from a stream with a work space that keys and values share. -/

set_option autoImplicit false

namespace Firestr.Util

open Firestr.Library.Assoc Firestr.Library.Decimal

/-- `value`. A dictionary lists its entries in the order its map is walked. -/
inductive Value (Double : Type) where
  | empty
  | bool (v : Bool)
  | int (v : Int64)
  | size (v : UInt64)
  | real (v : Double)
  | bytes (v : Bytes)
  | dict (v : List (Bytes × Value Double))
  | array (v : List (Value Double))

/-- The reals, and what `lexical_cast` does with them: their text has no `;`
and is read back as the same real. -/
structure Doubles (Double : Type) where
  zero : Double
  toText : Double → Bytes
  ofText : Bytes → Option Double
  ofText_toText : ∀ v, ofText (toText v) = some v
  unterminated : ∀ v, 59 ∉ toText v

variable {Double : Type}

section Access

def Value.asBool : Value Double → Outcome Bool
  | .bool v => .ok v
  | _ => .error (.thrown "value is not an boolean")

def Value.asInt : Value Double → Outcome Int64
  | .int v => .ok v
  | _ => .error (.thrown "value is not an integer")

def Value.asSize : Value Double → Outcome UInt64
  | .size v => .ok v
  | _ => .error (.thrown "value is not an size type")

def Value.asDouble : Value Double → Outcome Double
  | .real v => .ok v
  | _ => .error (.thrown "value is not an real")

def Value.asString : Value Double → Outcome Bytes
  | .bytes v => .ok v
  | _ => .error (.thrown "value is not a string")

def Value.asBytes : Value Double → Outcome Bytes
  | .bytes v => .ok v
  | _ => .error (.thrown "value is not a byte array")

def Value.asDict : Value Double → Outcome (List (Bytes × Value Double))
  | .dict v => .ok v
  | _ => .error (.thrown "value is not an dictionary")

def Value.asArray : Value Double → Outcome (List (Value Double))
  | .array v => .ok v
  | _ => .error (.thrown "value is not an array")

end Access

section Encode

/-- `lexical_cast<std::string>` of an `int64_t`. -/
def intText (v : Int64) : Bytes :=
  if v.toInt < 0 then 45 :: numeral v.toInt.natAbs else numeral v.toInt.natAbs

def enc (s e : UInt8) (text : Bytes) : Bytes := s :: text ++ [e]

def encodeB (v : Bytes) : Bytes := numeral v.length ++ [58] ++ v

variable (doubles : Doubles Double)

mutual

def Value.encode : Value Double → Bytes
  | .empty => ascii "n"
  | .bool v => if v then ascii "T" else ascii "F"
  | .int v => enc 105 59 (intText v)
  | .size v => enc 115 59 (numeral v.toNat)
  | .real v => enc 114 59 (doubles.toText v)
  | .bytes v => encodeB v
  | .dict v => ascii "d" ++ encodeEntries v ++ ascii ";"
  | .array v => ascii "a" ++ encodeElements v ++ ascii ";"

def encodeEntries : List (Bytes × Value Double) → Bytes
  | [] => []
  | (k, v) :: rest => encodeB k ++ v.encode ++ encodeEntries rest

def encodeElements : List (Value Double) → Bytes
  | [] => []
  | v :: rest => v.encode ++ encodeElements rest

end

end Encode

/-- `std::istream` over a string: what is left of it, and its flags. -/
structure Stream where
  rest : Bytes
  position : Nat := 0
  eof : Bool := false
  fail : Bool := false
  deriving DecidableEq, Repr

namespace Stream

def good (i : Stream) : Bool := !i.eof && !i.fail

def get (i : Stream) : Option UInt8 × Stream :=
  if i.good then
    match i.rest with
    | c :: rest => (some c, { i with rest := rest, position := i.position + 1 })
    | [] => (none, { i with eof := true, fail := true })
  else (none, { i with fail := true })

def peek (i : Stream) : Option UInt8 × Stream :=
  if i.good then
    match i.rest with
    | c :: _ => (some c, i)
    | [] => (none, { i with eof := true })
  else (none, { i with fail := true })

def read (i : Stream) (size : Nat) : Bytes × Stream :=
  if i.good then
    if size ≤ i.rest.length then
      (i.rest.take size, { i with rest := i.rest.drop size, position := i.position + size })
    else
      (i.rest, { rest := [], position := i.position + i.rest.length, eof := true, fail := true })
  else ([], { i with fail := true })

/-- `tellg`, as it is printed. -/
def tellg (i : Stream) : String := if i.good then toString i.position else "-1"

end Stream

/-- `get` and `peek` as the `int` they return. -/
def charText (c : Option UInt8) : String :=
  match c with
  | some c => toString c.toNat
  | none => "-1"

structure WorkSpace where
  s : Bytes := []
  b : Bytes := []
  deriving DecidableEq, Repr

section LexicalCast

def badLexicalCast : Fault :=
  .thrown "bad lexical cast: source type value could not be interpreted as target"

/-- The sign of a text and what follows it. -/
def signed : Bytes → Bool × Bytes
  | 45 :: digits => (true, digits)
  | 43 :: digits => (false, digits)
  | digits => (false, digits)

/-- `lexical_cast<size_t>`, which negates modulo the word. -/
def sizeOfText (text : Bytes) : Outcome UInt64 :=
  match natural (signed text).2 with
  | some n =>
    if n < 2 ^ 64 then
      .ok (if (signed text).1 then 0 - UInt64.ofNat n else UInt64.ofNat n)
    else .error badLexicalCast
  | none => .error badLexicalCast

/-- `lexical_cast<int64_t>`. -/
def intOfText (text : Bytes) : Outcome Int64 :=
  match natural (signed text).2 with
  | some n =>
    if (signed text).1 then
      if n ≤ 2 ^ 63 then .ok (Int64.ofInt (-(n : Int))) else .error badLexicalCast
    else if n < 2 ^ 63 then .ok (Int64.ofInt n) else .error badLexicalCast
  | none => .error badLexicalCast

def doubleOfText (doubles : Doubles Double) (text : Bytes) : Outcome Double :=
  match doubles.ofText text with
  | some v => .ok v
  | none => .error badLexicalCast

end LexicalCast

def checkStream (i : Stream) : Outcome Unit :=
  if i.good then .ok ()
  else .error (.thrown ("unexpected end of stream at byte " ++ i.tellg))

/-- The loop of `get_until` with its current character. -/
def getUntilLoop (e : UInt8) :
    Nat → Option UInt8 → Stream → Bytes → Outcome (Option UInt8 × Stream × Bytes)
  | 0, _, _, _ => .error .diverged
  | fuel + 1, c, i, s =>
    if c ≠ some e ∧ i.good = true then getUntilLoop e fuel i.get.1 i.get.2 (s ++ c.toList)
    else .ok (c, i, s)

def getUntil (i : Stream) (e : UInt8) (w : WorkSpace) : Outcome (Stream × WorkSpace) := do
  let (c, i) := i.get
  let (c, i, s) ← getUntilLoop e (i.rest.length + 2) c i []
  checkStream i
  check (c == some e) "c == e"
  pure (i, { w with s := s })

/-- `dec` for a type with the fallback `t{}` and its `lexical_cast`. -/
def dec {Number : Type} (fallback : Number) (cast : Bytes → Outcome Number) (type : String)
    (b e : UInt8) (i : Stream) (w : WorkSpace) : Outcome (Number × Stream × WorkSpace) := do
  let (c, i) := i.get
  if !i.good then pure (fallback, i, w)
  else if c ≠ some b then
    .error (.thrown ("expected " ++ type ++ " at byte " ++ i.tellg))
  else do
    let (i, w) ← getUntil i e w
    let v ← cast w.s
    pure (v, i, w)

def decodeBool (i : Stream) : Outcome (Bool × Stream) :=
  let (c, i) := i.get
  if !i.good then .ok (false, i)
  else if c = some 84 then .ok (true, i)
  else if c = some 70 then .ok (false, i)
  else .error (.thrown ("expected boolean at byte " ++ i.tellg))

def decodeEmpty (i : Stream) : Outcome Stream :=
  let (c, i) := i.get
  if !i.good then .ok i
  else if c ≠ some 110 then .error (.thrown ("expected empty at byte " ++ i.tellg))
  else .ok i

def isDigit (c : Option UInt8) : Bool := c.any fun c => decide (48 ≤ c.toNat ∧ c.toNat ≤ 57)

def character (c : Option UInt8) : String :=
  String.ofList (c.toList.map fun c => Char.ofNat c.toNat)

def decodeBytes (i : Stream) (w : WorkSpace) : Outcome (Stream × WorkSpace) := do
  let w := { w with b := [] }
  let (c, i) := i.peek
  if !i.good then pure (i, w)
  else if !isDigit c then
    .error (.thrown ("expected byte string at byte " ++ i.tellg ++ " but got `" ++
      character c ++ "'"))
  else do
    let (i, w) ← getUntil i 58 w
    let size ← sizeOfText w.s
    if size = 0 then pure (i, w)
    else
      let (got, i) := i.read size.toNat
      pure (i, { w with b := copyAt (List.replicate size.toNat 0) 0 got })

def decodeKey (i : Stream) (w : WorkSpace) : Outcome (Stream × WorkSpace) := do
  let (c, i) := i.peek
  if !i.good then pure (i, w)
  else if !isDigit c then
    .error (.thrown ("expected byte key at byte " ++ i.tellg ++ " but got `" ++
      character c ++ "'"))
  else do
    let (i, w) ← getUntil i 58 w
    let size ← sizeOfText w.s
    if size = 0 then pure (i, w)
    else
      let (got, i) := i.read size.toNat
      pure (i, { w with s := copyAt (List.replicate size.toNat 0) 0 got })

/-- A function that reads a value. -/
abbrev ValueDecoder (Double : Type) :=
  Stream → WorkSpace → Outcome (Value Double × Stream × WorkSpace)

section Containers

variable (decodeValue : ValueDecoder Double)

/-- The loop of `decode_dict` with its current character. -/
def decodeDictLoop : Nat → Option UInt8 → List (Bytes × Value Double) → ValueDecoder Double
  | 0, _, _, _, _ => .error .diverged
  | fuel + 1, c, d, i, w =>
    if c ≠ some 59 ∧ i.good = true then do
      let (i, w) ← decodeKey i w
      let k := w.s
      let (v, i, w) ← decodeValue i w
      decodeDictLoop fuel i.peek.1 (assign d k v) i.peek.2 w
    else do
      let (c, i) := i.get
      checkStream i
      check (c == some 59) "c == ';'"
      pure (.dict d, i, w)

def decodeDict (fuel : Nat) : ValueDecoder Double := fun i w =>
  let (c, i) := i.get
  if !i.good then .ok (.dict [], i, w)
  else if c ≠ some 100 then .error (.thrown ("expected dictionary at byte " ++ i.tellg))
  else decodeDictLoop decodeValue fuel i.peek.1 [] i.peek.2 w

/-- The loop of `decode_array` with its current character. -/
def decodeArrayLoop : Nat → Option UInt8 → List (Value Double) → ValueDecoder Double
  | 0, _, _, _, _ => .error .diverged
  | fuel + 1, c, a, i, w =>
    if c ≠ some 59 ∧ i.good = true then do
      let (v, i, w) ← decodeValue i w
      decodeArrayLoop fuel i.peek.1 (a ++ [v]) i.peek.2 w
    else do
      let (c, i) := i.get
      checkStream i
      check (c == some 59) "c == ';'"
      pure (.array a, i, w)

def decodeArray (fuel : Nat) : ValueDecoder Double := fun i w =>
  let (c, i) := i.get
  if !i.good then .ok (.array [], i, w)
  else if c ≠ some 97 then .error (.thrown ("expected array at byte " ++ i.tellg))
  else decodeArrayLoop decodeValue fuel i.peek.1 [] i.peek.2 w

end Containers

section Decode

variable (doubles : Doubles Double)

/-- `decode_value`, with fuel for the depth and for the loops inside. -/
def decodeValue : Nat → ValueDecoder Double
  | 0, _, _ => .error .diverged
  | fuel + 1, i, w =>
    let (c, i) := i.peek
    if !i.good then .ok (.empty, i, w)
    else if c = some 70 ∨ c = some 84 then do
      let (v, i) ← decodeBool i
      pure (.bool v, i, w)
    else if c = some 105 then do
      let (v, i, w) ← dec 0 intOfText "int" 105 59 i w
      pure (.int v, i, w)
    else if c = some 115 then do
      let (v, i, w) ← dec 0 sizeOfText "size" 115 59 i w
      pure (.size v, i, w)
    else if c = some 114 then do
      let (v, i, w) ← dec doubles.zero (doubleOfText doubles) "real" 114 59 i w
      pure (.real v, i, w)
    else if c = some 100 then decodeDict (decodeValue fuel) fuel i w
    else if c = some 97 then decodeArray (decodeValue fuel) fuel i w
    else if c = some 110 then do
      let i ← decodeEmpty i
      pure (.empty, i, w)
    else if isDigit c then do
      let (i, w) ← decodeBytes i w
      pure (.bytes w.b, i, w)
    else
      .error (.thrown ("unexpected value type `" ++ charText c ++ "' at byte " ++ i.tellg))

/-- `operator >>` of a `dict`, with fuel for all the bytes that are left. -/
def readDict (i : Stream) : Outcome (List (Bytes × Value Double) × Stream) := do
  let (v, i, _) ← decodeDict (decodeValue doubles (i.rest.length + 1)) (i.rest.length + 1) i {}
  match v with
  | .dict d => pure (d, i)
  | _ => pure ([], i)

/-- `operator >>` of an `array`. -/
def readArray (i : Stream) : Outcome (List (Value Double) × Stream) := do
  let (v, i, _) ← decodeArray (decodeValue doubles (i.rest.length + 1)) (i.rest.length + 1) i {}
  match v with
  | .array a => pure (a, i)
  | _ => pure ([], i)

/-- `operator >>` of `bytes`. -/
def readBytes (i : Stream) : Outcome (Bytes × Stream) :=
  if !i.good then .ok ([], i)
  else do
    let (v, i, _) ← decodeValue doubles (i.rest.length + 1) i {}
    match v with
    | .bytes b => pure (b, i)
    | _ => pure ([], i)

/-- `decode<dict>`. -/
def decodeDictionary (b : Bytes) : Outcome (List (Bytes × Value Double)) := do
  let (d, _) ← readDict doubles { rest := b }
  pure d

/-- `decode<value>`. -/
def Value.decode (b : Bytes) : Outcome (Value Double) := do
  let (v, _, _) ← decodeValue doubles (b.length + 1) { rest := b } {}
  pure v

end Decode

end Firestr.Util
