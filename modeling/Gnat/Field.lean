/-
Gnat/Field.lean

The field readers of `packets.h`: `ReadVariableByteInteger`, `ReadString` and
the fixed-width reader, and the buffers they read into.
-/
import Gnat.Connection

namespace Gnat

open Lib

/-- `StringBuffer<Size>`: an array and how much of it is in use. -/
structure StringBuffer (size : Nat) where
  data : List.Vector UInt8 size
  length : Nat
  deriving DecidableEq

namespace StringBuffer

/-- A buffer as it is constructed. -/
def empty (size : Nat) : StringBuffer size :=
  ⟨List.Vector.replicate size 0, 0⟩

/-- The string a buffer holds. -/
def bytes {size : Nat} (b : StringBuffer size) : List UInt8 :=
  b.data.toList.take b.length

/-- `memcpy` to the start of the array; the caller sees to it that `src`
fits. -/
def fill {size : Nat} (data : List.Vector UInt8 size) (src : List UInt8) :
    List.Vector UInt8 size :=
  ⟨(src ++ data.toList.drop src.length).take size, by
    simp only [List.length_take, List.length_append, List.length_drop,
      List.Vector.toList_length]
    omega⟩

theorem fill_take {size : Nat} {data : List.Vector UInt8 size} {src : List UInt8}
    (h : src.length ≤ size) : (fill data src).toList.take src.length = src := by
  simp [fill, List.Vector.toList, List.take_take, Nat.min_eq_left h]

/-- Reading a buffer that was filled with all of `src`. -/
theorem bytes_fill {size : Nat} {data : List.Vector UInt8 size} {src : List UInt8}
    (h : src.length ≤ size) : (⟨fill data src, src.length⟩ : StringBuffer size).bytes = src :=
  fill_take h

end StringBuffer

section

variable {W C : Type} [Network W] [Client W C]

/-- The value of two bytes on the wire, the high byte first. -/
def wireUInt16 (high low : UInt8) : Nat :=
  high.toNat * 256 + low.toNat

/-- A `uint16_t` in memory, the low byte first. -/
def memoryUInt16 (x : UInt16) : List UInt8 :=
  [x.toUInt8, (x >>> 8).toUInt8]

/-- The `uint16_t` whose memory is `memory`. -/
def ofMemoryUInt16 (memory : List UInt8) : UInt16 :=
  UInt16.ofNat (wireUInt16 (memory.getD 1 0) (memory.getD 0 0))

/-- The loop of `ReadVariableByteInteger`, from the values `multiplier` and
`*out` have reached.  `fuel` bounds the number of rounds. -/
def readVariableByteLoop (target : Target) (client : ClientConnection) :
    (fuel : Nat) → (multiplier : Int) → (out : Nat) → ServerM W (Bool × Nat)
  | 0, _, _ => throw .outOfFuel
  | fuel + 1, multiplier, out => do
      match ← client.read 1 with
      | none => return (false, out)
      | some next =>
        let nextByte := next.head.toNat
        let product ← Prog.ofExcept (target.intMul (nextByte % 128 : Nat) multiplier)
        let out := ((out + product) % 2 ^ 32).toNat
        let multiplier ← Prog.ofExcept (target.intMul multiplier 128)
        if nextByte < 128 then return (true, out)
        else readVariableByteLoop target client fuel multiplier out

/-- `ReadVariableByteInteger`, into a `uint32_t`. -/
def readVariableByteInteger (target : Target) (client : ClientConnection) :
    ServerM W (Bool × Nat) := fun m =>
  readVariableByteLoop target client (Network.pending client.socket m.net + 1) 1 0 m

/-- `ReadString`, once it has read the length. -/
def readStringBytes {size : Nat} (out : StringBuffer size) (length : Nat) (client : C) :
    ServerM W (Bool × StringBuffer size × C) := do
  if size < length then return (false, ⟨out.data, length⟩, client)
  else
    match ← Client.read client length with
    | (none, client) => return (false, ⟨out.data, length⟩, client)
    | (some src, client) =>
      return (true, ⟨StringBuffer.fill out.data src.toList, length⟩, client)

/-- `ReadString`. -/
def readString {size : Nat} (out : StringBuffer size) (client : C) :
    ServerM W (Bool × StringBuffer size × C) := do
  match ← Client.read client 2 with
  | (none, client) => return (false, out, client)
  | (some lengthRaw, client) =>
    readStringBytes out (wireUInt16 (lengthRaw.get 0) (lengthRaw.get 1)) client

/-- The loop of `TypedReadField<Field, TYPE_BYTES>::Read`: the bytes of the
wire go to the indices `count - 1, ..., 0` of the object's memory.  The result
of `Read` is not looked at. -/
def readBytesLoop : (count : Nat) → (out : List UInt8) → C →
    ServerM W (List UInt8 × C)
  | 0, out, client => return (out, client)
  | i + 1, out, client => do
      let (byte, client) ← Client.read client 1
      let out := match byte with
        | some b => out.set i b.head
        | none => out
      readBytesLoop i out client

/-- `TypedReadField<Field, TYPE_BYTES>::Read`. -/
def readBytes (count : Nat) (out : List UInt8) (client : C) :
    ServerM W (Bool × List UInt8 × C) := do
  let (out, client) ← readBytesLoop count out client
  return (true, out, client)

/-- `ReadField` of a one-byte field into a `uint8_t`. -/
def readUInt8 (out : UInt8) (client : C) : ServerM W (Bool × UInt8 × C) := do
  let (read, memory, client) ← readBytes 1 [out] client
  return (read, memory.getD 0 0, client)

/-- `ReadField` of a two-byte field into a `uint16_t`. -/
def readUInt16 (out : UInt16) (client : C) : ServerM W (Bool × UInt16 × C) := do
  let (read, memory, client) ← readBytes 2 (memoryUInt16 out) client
  return (read, ofMemoryUInt16 memory, client)

end

end Gnat
