import Firestr.Library.Assoc
import Firestr.Util.Mencode
import Firestr.Util.Strings

/-! Queue addresses: a transport, a host and a port between colons, then options
after commas. -/

set_option autoImplicit false

namespace Firestr.Network

open Firestr.Library.Assoc Firestr.Library.Decimal Firestr.Util

/-- The item of a vector, which has no defined value out of range. -/
def itemAt (items : List Bytes) (i : Nat) : Outcome Bytes :=
  match items[i]? with
  | some item => .ok item
  | none => .error .dangling

/-- `parse_port`: `lexical_cast` to a `port_type` negates modulo the word. -/
def parsePort (p : Bytes) : Outcome UInt16 :=
  match natural (signed p).2 with
  | some n =>
    if n < 2 ^ 16 then .ok (if (signed p).1 then 0 - UInt16.ofNat n else UInt16.ofNat n)
    else .error (.thrown "unable to parse port, port must be a number")
  | none => .error (.thrown "unable to parse port, port must be a number")

/-- One option. A second `=` is not an error: the exception is not thrown. -/
def parseOption (o : List (Bytes × Bytes)) (s : Bytes) : Outcome (List (Bytes × Bytes)) := do
  match ← split s (ascii "=") with
  | [key] => pure (assign o key (ascii "1"))
  | [key, item] => pure (assign o key item)
  | _ => pure o

def parseOptions (ss : List Bytes) : Outcome (List (Bytes × Bytes)) := do
  require (!ss.isEmpty) "!(ss.empty())"
  let o ← ss.foldlM parseOption []
  ensure (ss.length == o.length) "ss.size() == o.size()"
  pure o

structure AddressComponents where
  address : Bytes
  transport : Bytes
  host : Bytes
  port : UInt16
  options : List (Bytes × Bytes)
  deriving DecidableEq

/-- `substr(2)` of the host. -/
def hostOf (host : Bytes) : Outcome Bytes :=
  if host.length < 2 then .error (.thrown "basic_string::substr") else .ok (host.drop 2)

/-- `insert` of a range, which leaves the keys that are there. -/
def insertOptions (options overrides : List (Bytes × Bytes)) : List (Bytes × Bytes) :=
  overrides.foldl (fun options o =>
    if o.1 ∈ options.map (·.1) then options else options ++ [o]) options

/-- `parse_address`. Its exceptions for a missing port, a wrong transport and a
host without slashes are made but not thrown. -/
def parseAddress (queueAddress : Bytes) (defaults : List (Bytes × Bytes)) :
    Outcome AddressComponents := do
  let s ← split queueAddress (ascii ",")
  check (decide (1 ≤ s.length)) "s.size() >= 1"
  let a ← split (← itemAt s 0) (ascii ":")
  let transport ← itemAt a 0
  let host ← hostOf (← itemAt a 1)
  let port ← parsePort (← itemAt a 2)
  let options ← (if 1 < s.length then do
      let overrides ← parseOptions s.tail
      pure (insertOptions defaults overrides)
    else pure defaults : Outcome (List (Bytes × Bytes)))
  pure {
    address := queueAddress
    transport := transport
    host := host
    port := port
    options := options }

example : parseAddress (ascii "tcp://localhost:10,block=0,x") [] = .ok {
    address := ascii "tcp://localhost:10,block=0,x"
    transport := ascii "tcp"
    host := ascii "localhost"
    port := 10
    options := [(ascii "block", ascii "0"), (ascii "x", ascii "1")] } := by decide +kernel

end Firestr.Network
