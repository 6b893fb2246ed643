/-
Gnat/Packet.lean

`FixedHeader` and `Packet`: one packet of a connection's stream, with the
number of its bytes that are still to be read.

`bytesRemaining` is a natural number.  It is a `uint32_t` in the source, and
`Packet::Read` and `Packet::Drain` only subtract sizes that were compared with
it before, so no difference wraps.
-/
import Gnat.Field

namespace Gnat

open Lib

/-- `PacketType`. -/
inductive PacketType
  | reserved
  | connect
  | connack
  | publish
  | puback
  | pubrec
  | pubrel
  | pubcomp
  | subscribe
  | suback
  | unsubscribe
  | unsuback
  | pingreq
  | pingresp
  | disconnect
  | auth
  deriving DecidableEq, Repr

/-- `static_cast<PacketType>` of a four-bit value. -/
def PacketType.ofCode : Nat → PacketType
  | 0 => reserved
  | 1 => connect
  | 2 => connack
  | 3 => publish
  | 4 => puback
  | 5 => pubrec
  | 6 => pubrel
  | 7 => pubcomp
  | 8 => subscribe
  | 9 => suback
  | 10 => unsubscribe
  | 11 => unsuback
  | 12 => pingreq
  | 13 => pingresp
  | 14 => disconnect
  | _ => auth

/-- The type in a control byte. -/
def controlType (control : UInt8) : PacketType :=
  PacketType.ofCode (control >>> 4).toNat

/-- The flags in a control byte. -/
def controlFlags (control : UInt8) : UInt8 :=
  control &&& 0xF

/-- `FixedHeader`. -/
structure FixedHeader where
  control : UInt8 := 0
  remainingSize : Nat := 0
  deriving DecidableEq, Repr

/-- `Packet`. -/
structure Packet where
  control : UInt8
  bytesRemaining : Nat
  connection : ClientConnection
  deriving DecidableEq, Repr

variable {W : Type} [Network W]

/-- `FixedHeader::ReadFrom`. -/
def FixedHeader.readFrom (target : Target) (client : ClientConnection) :
    ServerM W (Option FixedHeader) := do
  let out : FixedHeader := {}
  let (read, control, client) ← readUInt8 out.control client
  if read then
    let (read, remainingSize) ← readVariableByteInteger target client
    if read then return some { control, remainingSize } else return none
  else return none

namespace Packet

/-- `type()`. -/
def type (packet : Packet) : PacketType :=
  controlType packet.control

/-- `type_flags()`. -/
def typeFlags (packet : Packet) : UInt8 :=
  controlFlags packet.control

/-- `ReadNext`. -/
def readNext (target : Target) (connection : ClientConnection) :
    ServerM W (Option Packet) := do
  match ← FixedHeader.readFrom target connection with
  | none => return none
  | some header => return some ⟨header.control, header.remainingSize, connection⟩

/-- The move constructor: the new packet, and what is left of `from`. -/
def move (packet : Packet) : Packet × Packet :=
  (packet, { packet with bytesRemaining := 0 })

/-- The destructor: what was not read is drained, so that the connection is
clean for the next packet. -/
def destroy (packet : Packet) : ServerM W Unit := do
  if 0 < packet.bytesRemaining then
    let _ ← packet.connection.drain packet.bytesRemaining
    return ()
  else return ()

/-- `Read`. -/
def read (packet : Packet) (size : Nat) :
    ServerM W (Option (List.Vector UInt8 size) × Packet) := do
  Prog.check (size ≤ packet.bytesRemaining) Fault.packetReadAssert
  match ← packet.connection.read size with
  | some bytes =>
    return (some bytes, { packet with bytesRemaining := packet.bytesRemaining - size })
  | none => return (none, packet)

/-- `Drain`. -/
def drain (packet : Packet) (size : Nat) : ServerM W (Bool × Packet) := do
  if packet.bytesRemaining < size then return (false, packet)
  else if ← packet.connection.drain size then
    return (true, { packet with bytesRemaining := packet.bytesRemaining - size })
  else return (false, packet)

end Packet

instance : Client W Packet where
  read := Packet.read

end Gnat
