/-
Gnat/Message.lean

Messages as the MQTT 3.1.1 spec lays them out, and the frames that carry them.

This is the sender's side: what a well-behaved client puts on the wire.  A
frame carries a message if its control byte has the message's type and its body
is the message's; the flags in the control byte are free, and so is the
encoding of the remaining length.
-/
import Gnat.Proto3
import Gnat.Stream

namespace Gnat

/-- A number below `2 ^ 16` on the wire, the high byte first. -/
def wireBytes (n : Nat) : List UInt8 :=
  [UInt8.ofNat (n / 256), UInt8.ofNat n]

/-- A string on the wire. -/
def wireString (s : List UInt8) : List UInt8 :=
  wireBytes s.length ++ s

theorem wireUInt16_wireBytes {n : Nat} (h : n < 2 ^ 16) :
    wireUInt16 (UInt8.ofNat (n / 256)) (UInt8.ofNat n) = n := by
  simp only [wireUInt16, UInt8.toNat_ofNat']
  omega

@[simp] theorem length_wireString (s : List UInt8) : (wireString s).length = 2 + s.length := by
  simp [wireString, wireBytes]
  omega

/-- A topic filter of a SUBSCRIBE with its byte of options. -/
structure Filter where
  topic : List UInt8
  options : UInt8
  deriving DecidableEq

/-- A filter on the wire. -/
def Filter.bytes (f : Filter) : List UInt8 :=
  wireString f.topic ++ [f.options]

@[simp] theorem Filter.length_bytes (f : Filter) : f.bytes.length = f.topic.length + 3 := by
  simp [Filter.bytes]
  omega

/-- A message of a client. -/
inductive Message
  | connect (name : List UInt8) (level flags : UInt8) (keepAlive : UInt16)
      (payload : List UInt8)
  | connack (flags returnCode : UInt8)
  | publish (topic : List UInt8) (packetId : UInt16) (payload : List UInt8)
  | subscribe (packetId : UInt16) (filters : List Filter)
  | suback (packetId : UInt16) (codes : List UInt8)
  | other (type : PacketType) (body : List UInt8)
  deriving DecidableEq

namespace Message

def type : Message → PacketType
  | connect .. => .connect
  | connack .. => .connack
  | publish .. => .publish
  | subscribe .. => .subscribe
  | suback .. => .suback
  | other type _ => type

/-- The body of a message whose control byte has the given flags: they say
whether a PUBLISH has a packet id. -/
def body (flags : UInt8) : Message → List UInt8
  | connect name level connectFlags keepAlive payload =>
      wireString name ++ ([level, connectFlags] ++ wireBytes keepAlive.toNat) ++ payload
  | connack flags returnCode => [flags, returnCode]
  | publish topic packetId payload =>
      wireString topic ++ ((if hasPacketId flags then wireBytes packetId.toNat else []) ++
        payload)
  | subscribe packetId filters =>
      wireBytes packetId.toNat ++ filters.flatMap Filter.bytes
  | suback packetId codes => wireBytes packetId.toNat ++ codes
  | other _ body => body

/-- What the spec and the buffers of the broker ask of a message. -/
def WellFormed : Message → Prop
  | connect name _ _ _ _ => name.length ≤ 6
  | connack _ _ => True
  | publish topic _ _ => topic.length ≤ 128
  | subscribe _ filters => filters ≠ [] ∧ ∀ f ∈ filters, f.topic.length ≤ 128
  | suback _ codes => codes ≠ []
  | other type _ => type ≠ .connect ∧ type ≠ .publish ∧ type ≠ .subscribe

instance : (msg : Message) → Decidable msg.WellFormed
  | connect name _ _ _ _ => inferInstanceAs (Decidable (name.length ≤ 6))
  | connack _ _ => isTrue trivial
  | publish topic _ _ => inferInstanceAs (Decidable (topic.length ≤ 128))
  | subscribe _ filters =>
      inferInstanceAs (Decidable (filters ≠ [] ∧ ∀ f ∈ filters, f.topic.length ≤ 128))
  | suback _ codes => inferInstanceAs (Decidable (codes ≠ []))
  | other type _ =>
      inferInstanceAs (Decidable (type ≠ .connect ∧ type ≠ .publish ∧ type ≠ .subscribe))

end Message

/-- The frame is one of the message. -/
structure Frame.Carries (f : Frame) (msg : Message) : Prop where
  type : f.type = msg.type
  body : f.body = msg.body f.typeFlags

end Gnat
