/-
Gnat/Proto3.lean

The packets of MQTT 3.1.1 and before: what `ReadFrom` reads from a `Packet`
and what `SendOn` writes.

The encoders of the source fill a static array through a `uint8_t` cursor.
Every byte they send was stored by the same call, so the array they start
from is a parameter here (`frame`, `header`), and `sendOn` starts from zeros.
-/
import Gnat.Lib.Cursor
import Gnat.Packet

namespace Gnat

open Lib

variable {W : Type} [Network W]

/-- `memcpy(buffer + current_byte, s.data, s.length)` and the advance of the
cursor by `s.length`. -/
def appendString {cap size : Nat} (c : Cursor cap) (s : StringBuffer size) :
    Option (Cursor cap) :=
  if s.length ≤ size then c.append s.bytes else none

/-- Write an encoded frame, if it was encoded inside its buffer. -/
def writeFrame {cap : Nat} (conn : ClientConnection) (frame : Option (Cursor cap)) :
    ServerM W Bool :=
  match frame with
  | none => throw .outOfBounds
  | some c => conn.write c.sent

/-! ### CONNECT -/

/-- `Connect`. -/
structure Connect where
  protocolName : StringBuffer 6 := .empty 6
  protocolLevel : UInt8
  flags : UInt8
  keepAlive : UInt16
  clientId : StringBuffer 23 := .empty 23
  deriving DecidableEq

namespace Connect

/-- `Connect out;`: the scalar members are not initialised. -/
def uninitialised (target : Target) : Connect where
  protocolLevel := target.stackLevel
  flags := target.stackFlags
  keepAlive := target.stackKeepAlive

/-- `Connect::ReadFrom`. -/
def readFrom {C : Type} [Client W C] (target : Target) (client : C) :
    ServerM W (Option Connect × C) := do
  let out := uninitialised target
  let (read, protocolName, client) ← readString out.protocolName client
  if read then
    let (read, protocolLevel, client) ← readUInt8 out.protocolLevel client
    if read then
      let (read, flags, client) ← readUInt8 out.flags client
      if read then
        let (read, keepAlive, client) ← readUInt16 out.keepAlive client
        if read then
          return (some { out with protocolName, protocolLevel, flags, keepAlive }, client)
        else return (none, client)
      else return (none, client)
    else return (none, client)
  else return (none, client)

/-- The frame `Connect::SendOn` encodes. -/
def frame (connect : Connect) (buffer : List.Vector UInt8 128) : Option (Cursor 128) := do
  let c ← (Cursor.start buffer).put 0x10
  let remainingLength := c.current
  let c := c.skip
  let c ← c.put 0
  let c ← c.put (UInt8.ofNat connect.protocolName.length)
  let c ← appendString c connect.protocolName
  let c ← c.put connect.protocolLevel
  let c ← c.put connect.flags
  let c ← c.put (connect.keepAlive >>> 8).toUInt8
  let c ← c.put (connect.keepAlive &&& 0xFF).toUInt8
  let c ← c.put 0
  let c ← c.put (UInt8.ofNat connect.clientId.length)
  let c ← appendString c connect.clientId
  return c.patch remainingLength (UInt8.ofNat c.current - 2)

/-- `Connect::SendOn`. -/
def sendOn (connect : Connect) (client : ClientConnection) : ServerM W Bool :=
  writeFrame client (connect.frame (List.Vector.replicate 128 0))

end Connect

/-! ### CONNACK -/

/-- `ConnectAck`. -/
structure ConnectAck where
  error : Bool := false
  flags : UInt8 := 0
  returnCode : UInt8 := 0
  deriving DecidableEq

namespace ConnectAck

/-- `ConnectAck::ReadFrom`. -/
def readFrom {C : Type} [Client W C] (client : C) :
    ServerM W (Option ConnectAck × C) := do
  let out : ConnectAck := {}
  let (read, flags, client) ← readUInt8 out.flags client
  if read then
    let (read, returnCode, client) ← readUInt8 out.returnCode client
    if read then return (some { out with flags, returnCode }, client)
    else return (none, client)
  else return (none, client)

/-- The frame `ConnectAck::SendOn` encodes. -/
def frame (ack : ConnectAck) (buffer : List.Vector UInt8 128) : Option (Cursor 128) := do
  let c ← (Cursor.start buffer).put 0x20
  let remainingLength := c.current
  let c := c.skip
  let c ← c.put 0
  let c ← c.put (if ack.error then 0x80 else 0)
  return c.patch remainingLength (UInt8.ofNat c.current - 2)

/-- `ConnectAck::SendOn`. -/
def sendOn (ack : ConnectAck) (client : ClientConnection) : ServerM W Bool :=
  writeFrame client (ack.frame (List.Vector.replicate 128 0))

end ConnectAck

/-! ### PUBLISH -/

/-- `Publish`. -/
structure Publish where
  topic : StringBuffer 128 := .empty 128
  payloadBytes : Nat := 0
  deriving DecidableEq

/-- `((flags >> 1) & 0b11) != 0`: a packet id follows the topic. -/
def hasPacketId (flags : UInt8) : Bool :=
  (flags >>> 1) &&& 3 != 0

namespace Publish

/-- `Publish::ReadFrom`. -/
def readFrom (client : Packet) (flags : UInt8) :
    ServerM W (Option Publish × Packet) := do
  let out : Publish := {}
  let (read, topic, client) ← readString out.topic client
  if read then
    if hasPacketId flags then
      let (read, _, client) ← readUInt16 0 client
      if read then
        return (some { topic, payloadBytes := client.bytesRemaining }, client)
      else return (none, client)
    else return (some { topic, payloadBytes := client.bytesRemaining }, client)
  else return (none, client)

/-- The loop of `Publish::SendOn` that encodes the remaining length. -/
def encodeLength : (fuel : Nat) → (length : Nat) → Cursor 256 → Option (Cursor 256)
  | 0, _, _ => none
  | fuel + 1, length, c =>
      if 0 < length then do
        let c ← c.put (UInt8.ofNat (if 127 < length then length % 128 ||| 128 else length))
        encodeLength fuel (length / 128) c
      else some c

/-- `int length = 2 + topic.length + payload_bytes`, a sum of type `uint32_t`.
From `2 ^ 31` on the `int` is negative, which the loop treats like zero. -/
def remainingLength (publish : Publish) : Nat :=
  let length := (2 + publish.topic.length + publish.payloadBytes) % 2 ^ 32
  if length < 2 ^ 31 then length else 0

/-- The header `Publish::SendOn` encodes: all of the frame but the payload. -/
def header (publish : Publish) (buffer : List.Vector UInt8 256) :
    Option (Cursor 256) := do
  let c ← (Cursor.start buffer).put 0x30
  let length := publish.remainingLength
  let c ← encodeLength (length + 1) length c
  let c ← c.put 0
  let c ← c.put (UInt8.ofNat publish.topic.length)
  appendString c publish.topic

/-- `Publish::SendOn`. -/
def sendOn (publish : Publish) (connection : ClientConnection) (payload : List UInt8) :
    ServerM W Bool := do
  match publish.header (List.Vector.replicate 256 0) with
  | none => throw .outOfBounds
  | some c =>
    Prog.check (c.current < 256) Fault.publishBufferAssert
    if ← connection.writePartial c.sent then
      connection.write (payload.take publish.payloadBytes)
    else return false

end Publish

/-! ### SUBSCRIBE -/

/-- `Subscribe`. -/
structure Subscribe where
  topicName : StringBuffer 25 := .empty 25
  packetId : UInt16 := 0
  deriving DecidableEq

namespace Subscribe

variable {γ : Type}

/-- The loop of `Subscribe::ReadFrom`.  `callback` is called with each topic;
`captured` is what it captures by reference.  The result says whether the loop
was left at its end. -/
def readTopics (callback : γ → List UInt8 → ServerM W (Bool × γ)) :
    (fuel : Nat) → (topic : StringBuffer 128) → (captured : γ) → Packet →
      ServerM W (Bool × γ × Packet)
  | fuel, topic, captured, client => do
    if 0 < client.bytesRemaining then
      match fuel with
      | 0 => throw .outOfFuel
      | fuel + 1 =>
        let (read, topic, client) ← readString topic client
        if read then
          let (accepted, captured) ← callback captured topic.bytes
          if accepted then
            let (read, _, client) ← readUInt8 0 client
            if read then readTopics callback fuel topic captured client
            else return (false, captured, client)
          else return (false, captured, client)
        else return (false, captured, client)
    else return (true, captured, client)

/-- `Subscribe::ReadFrom`.  Each round of the loop reads at least the two
bytes of a length, so the bytes that remain bound the rounds. -/
def readFrom (callback : γ → List UInt8 → ServerM W (Bool × γ)) (captured : γ)
    (client : Packet) : ServerM W (Option Subscribe × γ × Packet) := do
  let out : Subscribe := {}
  let (read, packetId, client) ← readUInt16 out.packetId client
  if read then
    let (done, captured, client) ←
      readTopics callback client.bytesRemaining (.empty 128) captured client
    if done then return (some { out with packetId }, captured, client)
    else return (none, captured, client)
  else return (none, captured, client)

/-- The frame `Subscribe::SendOn` encodes and its remaining length. -/
def frame (subscribe : Subscribe) (buffer : List.Vector UInt8 128) :
    Option (Cursor 128 × UInt8) := do
  let c ← (Cursor.start buffer).put 0x82
  let remainingLength := c.current
  let c := c.skip
  let c ← c.put (subscribe.packetId >>> 8).toUInt8
  let c ← c.put (subscribe.packetId &&& 0xFF).toUInt8
  let c ← c.put 0
  let c ← c.put (UInt8.ofNat subscribe.topicName.length)
  let c ← appendString c subscribe.topicName
  let c ← c.put 0
  let length := UInt8.ofNat c.current - 2
  return (c.patch remainingLength length, length)

/-- `Subscribe::SendOn`. -/
def sendOn (subscribe : Subscribe) (client : ClientConnection) : ServerM W Bool := do
  match subscribe.frame (List.Vector.replicate 128 0) with
  | none => throw .outOfBounds
  | some (c, length) =>
    Prog.check (length < 127) Fault.subscribeLengthAssert
    client.write c.sent

end Subscribe

/-! ### SUBACK -/

/-- `SubscribeAck`. -/
structure SubscribeAck where
  subscribePacketId : UInt16 := 0
  responses : List.Vector UInt8 32 := List.Vector.replicate 32 0
  responsesCount : UInt8 := 0
  deriving DecidableEq

namespace SubscribeAck

/-- `SubscribeAck::ReadFrom`. -/
def readFrom {C : Type} [Client W C] (client : C) :
    ServerM W (Option SubscribeAck × C) := do
  let out : SubscribeAck := {}
  let (read, subscribePacketId, client) ← readUInt16 out.subscribePacketId client
  if read then
    let (read, response, client) ← readUInt8 (out.responses.get 0) client
    if read then
      let responses := out.responses.set 0 response
      return (some { subscribePacketId, responses, responsesCount := 1 }, client)
    else return (none, client)
  else return (none, client)

/-- The buffer of `SubscribeAck::SendOn` and the size of the packet in it. -/
def frame (ack : SubscribeAck) (buffer : List.Vector UInt8 32) :
    Option (Cursor 32 × UInt8) := do
  let c ← (Cursor.start buffer).put 0x90
  let remainingLength := c.current
  let c := c.skip
  let c ← c.put (ack.subscribePacketId >>> 8).toUInt8
  let c ← c.put (ack.subscribePacketId &&& 0xFF).toUInt8
  -- `current_byte += responses_count + 1`, one more than was copied
  let c ← c.append (ack.responses.toList.take ack.responsesCount.toNat)
  let c := c.skip
  let packetSize := UInt8.ofNat c.current - 1
  return (c.patch remainingLength (packetSize - 2), packetSize)

/-- `SubscribeAck::SendOn`. -/
def sendOn (ack : SubscribeAck) (connection : ClientConnection) : ServerM W Bool :=
  match ack.frame (List.Vector.replicate 32 0) with
  | none => throw .outOfBounds
  | some (c, packetSize) => connection.write (c.buffer.take packetSize.toNat)

end SubscribeAck

/-! ### PINGRESP -/

/-- `PingResp::SendOn`. -/
def PingResp.sendOn (connection : ClientConnection) : ServerM W Bool :=
  connection.write [0xD0, 0]

end Gnat
