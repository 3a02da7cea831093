import Firestr.Util.Bytes
import Firestr.Util.Dbc

/-! The chunk of a message and its datagram. A datagram is a mark, the 64-bit
sequence number, the 16-bit chunk total and chunk number, then the payload. -/

set_option autoImplicit false

namespace Firestr.Network

open Firestr.Util

def maxFlight : Nat := 4
/-- Resend after this many ticks without an ack. -/
def resendTickThreshold : Nat := 1
/-- Purge a message after this many ticks without an ack. -/
def resendThreshold : Nat := 5
def udpPacketSize : Nat := 512
def maxUdpBuffSize : Nat := udpPacketSize * 2
def sequenceBase : Nat := 1
def chunkTotalBase : Nat := sequenceBase + 8
def chunkBase : Nat := chunkTotalBase + 2
def messageBase : Nat := chunkBase + 2
def headerSize : Nat := messageBase
def udpChunkSize : Nat := udpPacketSize - headerSize
def maxChunks : Nat := 2 ^ 16
def maxMessageSize : Nat := maxChunks * udpChunkSize

/-- Protocol name of UDP endpoints. -/
def udp : String := "udp"

structure Endpoint where
  protocol : String
  address : String
  port : UInt16
  deriving DecidableEq, Repr

structure EndpointMessage where
  ep : Endpoint
  data : Bytes
  robust : Bool
  deriving DecidableEq, Repr

inductive MsgType where
  | qmsg
  | msg
  | ack
  deriving DecidableEq, Repr

/-- `message_chunk`. `writeData` holds the `write_size` bytes at `write_data`,
which the chunk points to in the message it was cut from. The source leaves
`chunk` and `type` of a fresh chunk unset and sets both before it reads them. -/
structure MessageChunk where
  valid : Bool := false
  host : String := ""
  port : UInt16 := 0
  sequence : UInt64 := 0
  totalChunks : UInt16 := 0
  chunk : UInt16 := 0
  data : Bytes := []
  resent : Bool := false
  type : MsgType := .qmsg
  writeData : Bytes := []
  deriving DecidableEq, Repr

def writeBeU64 (b : Bytes) (offset : Nat) (v : UInt64) : Outcome Bytes := do
  require (decide (subSize b.length offset ≥ 8)) "b.size() - offset >= sizeof(uint64_t)"
  pure <| ((((((((b.set offset ((v >>> 56) &&& 0xFF).toUInt8).set
    (offset + 1) ((v >>> 48) &&& 0xFF).toUInt8).set
    (offset + 2) ((v >>> 40) &&& 0xFF).toUInt8).set
    (offset + 3) ((v >>> 32) &&& 0xFF).toUInt8).set
    (offset + 4) ((v >>> 24) &&& 0xFF).toUInt8).set
    (offset + 5) ((v >>> 16) &&& 0xFF).toUInt8).set
    (offset + 6) ((v >>> 8) &&& 0xFF).toUInt8).set
    (offset + 7) (v &&& 0xFF).toUInt8)

def writeBeU16 (b : Bytes) (offset : Nat) (v : UInt16) : Outcome Bytes := do
  require (decide (subSize b.length offset ≥ 2)) "b.size() - offset >= sizeof(uint16_t)"
  pure <| (b.set offset ((v >>> 8) &&& 0xFF).toUInt8).set (offset + 1) (v &&& 0xFF).toUInt8

def readBeU64 (b : Bytes) (offset : Nat) : Outcome UInt64 := do
  require (decide (subSize b.length offset ≥ 8)) "b.size() - offset >= sizeof(uint64_t)"
  let v8 := (b.getD offset 0).toUInt64
  let v7 := (b.getD (offset + 1) 0).toUInt64
  let v6 := (b.getD (offset + 2) 0).toUInt64
  let v5 := (b.getD (offset + 3) 0).toUInt64
  let v4 := (b.getD (offset + 4) 0).toUInt64
  let v3 := (b.getD (offset + 5) 0).toUInt64
  let v2 := (b.getD (offset + 6) 0).toUInt64
  let v1 := (b.getD (offset + 7) 0).toUInt64
  pure ((v8 <<< 56) ||| (v7 <<< 48) ||| (v6 <<< 40) ||| (v5 <<< 32) |||
    (v4 <<< 24) ||| (v3 <<< 16) ||| (v2 <<< 8) ||| v1)

def readBeU16 (b : Bytes) (offset : Nat) : Outcome UInt16 := do
  require (decide (subSize b.length offset ≥ 2)) "b.size() - offset >= sizeof(uint16_t)"
  let v2 := (b.getD offset 0).toUInt16
  let v1 := (b.getD (offset + 1) 0).toUInt16
  pure ((v2 <<< 8) ||| v1)

/-- The mark of a datagram: `!`, `=` or `@`. -/
def mark : MsgType → UInt8
  | .msg => 0x21
  | .qmsg => 0x3D
  | .ack => 0x40

/-- Encode `ch` into the buffer `r`, which keeps nothing of its old content. -/
def encodeUdpWire (r : Bytes) (ch : MessageChunk) : Outcome Bytes := do
  let r := resize r (headerSize + ch.writeData.length) 0
  let r := r.set 0 (mark ch.type)
  let r ← writeBeU64 r sequenceBase ch.sequence
  let r ← writeBeU16 r chunkTotalBase ch.totalChunks
  let r ← writeBeU16 r chunkBase ch.chunk
  pure (if ch.writeData.length > 0 then copyAt r messageBase ch.writeData else r)

def typeOfMark (byte : UInt8) : Option MsgType :=
  if byte = 0x21 then some .msg
  else if byte = 0x3D then some .qmsg
  else if byte = 0x40 then some .ack
  else none

def decodeUdpWire (b : Bytes) : Outcome MessageChunk := do
  require (decide (b.length ≥ headerSize)) "b.size() >= HEADER_SIZE"
  let ch : MessageChunk := {}
  match typeOfMark (b.getD 0 0) with
  | none => pure ch
  | some type =>
    let ch := { ch with type := type }
    if b.length < sequenceBase + 8 then return ch
    let sequence ← readBeU64 b sequenceBase
    let ch := { ch with sequence := sequence }
    if b.length < chunkTotalBase + 2 then return ch
    let totalChunks ← readBeU16 b chunkTotalBase
    let ch := { ch with totalChunks := totalChunks }
    check (decide (ch.totalChunks.toNat ≤ maxChunks)) "ch.total_chunks <= MAX_CHUNKS"
    if b.length < chunkBase + 2 then return ch
    let chunk ← readBeU16 b chunkBase
    let ch := { ch with chunk := chunk }
    check (decide (b.length ≥ headerSize)) "b.size() >= HEADER_SIZE"
    let dataSize := subSize b.length headerSize
    if dataSize > 0 then
      if dataSize > maxUdpBuffSize then return ch
      return { ch with data := b.drop messageBase, valid := true }
    return { ch with valid := true }

end Firestr.Network
