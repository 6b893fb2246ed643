/-
Gnat/Server.lean

`Server::HandleMessage`, the part of it for each packet type a definition of
its own.
-/
import Gnat.DataStore
import Gnat.KeyType
import Gnat.Proto3

namespace Gnat

open Lib

/-- `Status`. -/
inductive Status
  | ok
  | failure (message : String)
  deriving DecidableEq, Repr

/-- What a call of `HandleMessage` finds around it. -/
structure Env (K : Type) where
  target : Target
  /-- What `clock_->timestamp()` returns. -/
  timestamp : UInt32
  /-- The order of `entries_` at this call. -/
  order : IterationOrder K

/-- The store of a server whose handlers run in `ServerM W`. -/
abbrev Store (K W : Type) := DataStore K (ServerM W)

variable {W : Type} [Network W] {K : Type} [DecidableEq K] [KeyType K]

/-- What `strcmp` of two null-terminated strings returns.  Memory that ends
before a null byte is not compared further. -/
def strcmp : List UInt8 → List UInt8 → Int
  | a :: as, b :: bs => if a = b ∧ a ≠ 0 then strcmp as bs else a.toNat - b.toNat
  | _, _ => 0

/-- The memory from `buffer.data` on: the array and the `uint16_t` length
behind it. -/
def StringBuffer.memory {size : Nat} (buffer : StringBuffer size) : List UInt8 :=
  buffer.data.toList ++ memoryUInt16 (UInt16.ofNat buffer.length)

/-- `"MQTT"` with its terminator. -/
def nameMqtt : List UInt8 := [0x4D, 0x51, 0x54, 0x54, 0]

/-- `"MQIsdp"` with its terminator. -/
def nameMqIsdp : List UInt8 := [0x4D, 0x51, 0x49, 0x73, 0x64, 0x70, 0]

/-- `(*connect).protocol_level`. -/
def protocolLevelOf (target : Target) : Option Connect → Except Fault UInt8
  | some connect => .ok connect.protocolLevel
  | none =>
      if target.trapsUndefined then .error .emptyOptional
      else .ok target.strayLevel

/-- The connection type for a protocol level, if it is a supported one. -/
def connectionTypeOf (protocolLevel : UInt8) : Option ConnectionType :=
  if protocolLevel = 3 then some .mqtt31
  else if protocolLevel = 4 then some .mqtt311
  else if protocolLevel = 5 then some .mqtt5
  else none

/-- The test of the header and the protocol name. -/
def wrongProtocol : Option Connect → Bool
  | none => true
  | some connect =>
      strcmp nameMqtt connect.protocolName.memory = 0 &&
        strcmp nameMqIsdp connect.protocolName.memory = 0

/-- `packet->connection()->set_connection_type(type)`, if there is a type. -/
def setConnectionType (packet : Packet) (type : Option ConnectionType) : Packet :=
  match type with
  | some type =>
      { packet with connection := { packet.connection with connectionType := type } }
  | none => packet

/-- `HandleMessage` for a CONNECT. -/
def handleConnect (target : Target) (packet : Packet) : ServerM W (Status × Packet) := do
  let (connect, packet) ← Connect.readFrom target packet
  let protocolLevel ← Prog.ofExcept (protocolLevelOf target connect)
  let type := connectionTypeOf protocolLevel
  let packet := setConnectionType packet type
  let ack : ConnectAck := { error := wrongProtocol connect || type.isNone }
  if ← ack.sendOn packet.connection then return (.ok, packet)
  else return (.failure "Unable to send response.", packet)

/-- `HandleMessage` for a PUBLISH. -/
def handlePublish (env : Env K) (store : Store K W) (packet : Packet) :
    ServerM W (Status × Packet × Store K W) := do
  let (publishOpt, packet) ← Publish.readFrom packet packet.typeFlags
  match publishOpt with
  | none => return (.failure "No publish header!", packet, store)
  | some publish =>
    let (data, packet) ← packet.read publish.payloadBytes
    match data with
    | none => return (.failure "Unable to complete read.", packet, store)
    | some data =>
      let entry : DataStoreEntry :=
        { data := data.toList, length := publish.payloadBytes, timestamp := env.timestamp,
          data_length := data.toList_length }
      let key ← Prog.ofExcept
        (KeyType.encodeKey env.target publish.topic.bytes publish.topic.length)
      let store ← store.set key entry
      return (.ok, packet, store)

/-- The observer of a subscription: what matches goes to its connection. -/
def observer (keyMatcher : K → Bool) (conn : ClientConnection) (key : K)
    (entry : DataStoreEntry) : ServerM W Bool := do
  if keyMatcher key then
    let topic ← Prog.ofExcept (KeyType.decodeKey key (.empty 128))
    let packet : Publish := { topic, payloadBytes := entry.length }
    if ← packet.sendOn conn entry.data then return true else return false
  else return true

/-- The handler `topic_callback` leaves in `observer`, if it was called. -/
abbrev Captured (K W : Type) := Option (K → DataStoreEntry → ServerM W Bool)

/-- The code of `'+'`. -/
def plus : UInt8 := 0x2B

/-- The code of `'#'`. -/
def hash : UInt8 := 0x23

/-- How many bytes of a filter make the key, and which matcher is used. -/
def filterKeyBytes (topic : List UInt8) : Nat :=
  if hash ∈ topic then topic.length - 1 else topic.length

/-- `is_prefix ? PrefixKeyMatcher(target_key) : FullKeyMatcher(target_key)`. -/
def filterMatcher (topic : List UInt8) (targetKey : K) : K → Bool :=
  if hash ∈ topic then KeyType.prefixKeyMatcher targetKey
  else KeyType.fullKeyMatcher targetKey

/-- `topic_callback`. -/
def topicCallback (target : Target) (conn : ClientConnection) (captured : Captured K W)
    (topic : List UInt8) : ServerM W (Bool × Captured K W) := do
  let connectionHeap ← conn.createHeapCopy
  if plus ∈ topic then return (false, captured)
  else
    let targetKey : K ← Prog.ofExcept
      (KeyType.encodeKey target topic (filterKeyBytes topic))
    return (true, some (observer (filterMatcher topic targetKey) connectionHeap))

/-- `HandleMessage` for a SUBSCRIBE. -/
def handleSubscribe (env : Env K) (store : Store K W) (packet : Packet) :
    ServerM W (Status × Packet × Store K W) := do
  let (subscribeOpt, captured, packet) ←
    Subscribe.readFrom (topicCallback env.target packet.connection) none packet
  match subscribeOpt with
  | none => return (.failure "", packet, store)
  | some subscribe =>
    let ack : SubscribeAck :=
      { subscribePacketId := subscribe.packetId, responsesCount := 1 }
    if ← ack.sendOn packet.connection then
      match captured with
      | some handler =>
        let store ← store.addObserver env.order ⟨packet.connection.id, handler⟩
        return (.ok, packet, store)
      | none => return (.ok, packet, store)
    else return (.failure "Unable to send response.", packet, store)

/-- `HandleMessage`. -/
def handleMessage (env : Env K) (store : Store K W) (packet : Packet) :
    ServerM W (Status × Packet × Store K W) :=
  match packet.type with
  | .connect => do
      let (status, packet) ← handleConnect env.target packet
      return (status, packet, store)
  | .publish => handlePublish env store packet
  | .subscribe => handleSubscribe env store packet
  | .pingreq => do
      if ← PingResp.sendOn packet.connection then return (.ok, packet, store)
      else return (.failure "Unable to send response.", packet, store)
  | .disconnect => do
      packet.connection.close
      return (.ok, packet, store)
  | _ => return (.failure "Unsupported packet type.", packet, store)

end Gnat
