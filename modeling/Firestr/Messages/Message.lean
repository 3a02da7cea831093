import Firestr.Util.Mencode

/-! Messages and how they are written. The type, the rest of the metadata and
the data follow each other as byte strings, and the rest of the metadata is
itself written as two arrays and a dictionary. -/

set_option autoImplicit false

namespace Firestr.Messages

open Firestr.Util

abbrev Address := List Bytes

/-- What of the `metadata` is written: `type`, `to`, `from` and `extra`. -/
structure Metadata (Double : Type) where
  type : Bytes := []
  toAddress : Address := []
  fromAddress : Address := []
  extra : List (Bytes × Value Double) := []

structure Message (Double : Type) where
  metadata : Metadata Double := {}
  data : Bytes := []

variable {Double : Type} (doubles : Doubles Double)

def addressArray (address : Address) : Value Double := .array (address.map .bytes)

/-- What `operator <<` collects in its `ms`. -/
def Metadata.header (m : Metadata Double) : Bytes :=
  (addressArray m.toAddress : Value Double).encode doubles ++
    (addressArray m.fromAddress : Value Double).encode doubles ++ (Value.dict m.extra).encode doubles

/-- `operator <<`. -/
def Message.encode (m : Message Double) : Bytes :=
  encodeB m.metadata.type ++ encodeB (m.metadata.header doubles) ++ encodeB m.data

/-- The strings of an array, after those that are there. -/
def readAddress (address : Address) (a : List (Value Double)) : Outcome Address :=
  a.foldlM
    (fun address s => do
      let s ← s.asString
      pure (address ++ [s])) address

/-- `operator >>` into a message. -/
def Message.read (m : Message Double) (i : Stream) : Outcome (Message Double × Stream) := do
  let (mt, i) ← readBytes doubles i
  let (mb, i) ← readBytes doubles i
  let (toAddress, ms) ← readArray doubles { rest := mb }
  let (fromAddress, ms) ← readArray doubles ms
  let (extra, _) ← readDict doubles ms
  let toAddress ← readAddress m.metadata.toAddress toAddress
  let fromAddress ← readAddress m.metadata.fromAddress fromAddress
  let (data, i) ← readBytes doubles i
  pure ({ metadata := { type := mt, toAddress, fromAddress, extra }, data }, i)

/-- `decode<message>`. -/
def Message.decode (b : Bytes) : Outcome (Message Double) := do
  let (m, _) ← Message.read doubles {} { rest := b }
  pure m

end Firestr.Messages
