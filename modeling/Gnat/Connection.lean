/-
Gnat/Connection.lean

Connections, as the broker sees them.

`Server` and `Packet` are templates over a `ClientConnection` with `Read`,
`Drain`, `WritePartial`, `Write`, `Close` and `CreateHeapCopy`.  A connection
object here is a handle: copies of it name the same socket.  What the calls
do to the sockets is a parameter, the class `Network`: a type `W` of states of
the world outside the broker and one function for each call.  Nothing is
assumed of it except that a client has sent finitely many bytes, so the
results below hold for every pattern of failing calls; the classes with more
laws are in `Gnat/Network.lean`.

The broker runs in `ServerM W`.  Its state is the world together with two
records of what the broker has done: the calls of `Write` and `WritePartial`
in order, and the number of heap copies of connections made so far, which
numbers the copies.
-/
import Gnat.Lib.Prog
import Gnat.Target

namespace Gnat

open Lib

/-- `ConnectionType`. -/
inductive ConnectionType
  | unknown
  | mqtt31
  | mqtt311
  | mqtt5
  deriving DecidableEq, Repr

/-- A connection object. -/
structure ClientConnection where
  socket : Nat
  /-- What `id()` returns. -/
  id : UInt32
  /-- Which heap copy this object is, if it is one. -/
  copy : Option Nat := none
  connectionType : ConnectionType := .unknown
  deriving DecidableEq, Repr

/-- A call of `Write` or `WritePartial`. -/
structure Write where
  /-- The object it was made on. -/
  via : ClientConnection
  bytes : List UInt8
  /-- Whether it returned true. -/
  accepted : Bool
  deriving DecidableEq, Repr

/-- What connections can do: the calls made on a socket, as functions of the
state of the world.  A `read` that fails stores nothing. -/
class Network (W : Type) where
  /-- How many bytes the peer has sent that are not consumed yet. -/
  pending : Nat → W → Nat
  read : Nat → (size : Nat) → W → Option (List.Vector UInt8 size) × W
  drain : Nat → Nat → W → Bool × W
  writePartial : Nat → List UInt8 → W → Bool × W
  write : Nat → List UInt8 → W → Bool × W
  close : Nat → W → W
  /-- A read that succeeds consumes what it stores. -/
  read_pending {socket size : Nat} {w w' : W} {bytes : List.Vector UInt8 size} :
    read socket size w = (some bytes, w') →
      pending socket w' + size ≤ pending socket w

/-- The world and the broker's record of its calls. -/
structure Machine (W : Type) where
  net : W
  written : List Write := []
  heapCopies : Nat := 0

/-- The monad the broker runs in. -/
abbrev ServerM (W : Type) := Prog Fault (Machine W)

variable {W : Type} [Network W]

namespace ClientConnection

/-- `Read`. -/
def read (conn : ClientConnection) (size : Nat) :
    ServerM W (Option (List.Vector UInt8 size)) := fun m =>
  let r := Network.read conn.socket size m.net
  .ok (r.1, { m with net := r.2 })

/-- `Drain`. -/
def drain (conn : ClientConnection) (bytes : Nat) : ServerM W Bool := fun m =>
  let r := Network.drain conn.socket bytes m.net
  .ok (r.1, { m with net := r.2 })

/-- `WritePartial`. -/
def writePartial (conn : ClientConnection) (bytes : List UInt8) :
    ServerM W Bool := fun m =>
  let r := Network.writePartial conn.socket bytes m.net
  .ok (r.1, { m with net := r.2, written := m.written ++ [⟨conn, bytes, r.1⟩] })

/-- `Write`. -/
def write (conn : ClientConnection) (bytes : List UInt8) :
    ServerM W Bool := fun m =>
  let r := Network.write conn.socket bytes m.net
  .ok (r.1, { m with net := r.2, written := m.written ++ [⟨conn, bytes, r.1⟩] })

/-- `Close`. -/
def close (conn : ClientConnection) : ServerM W Unit := fun m =>
  .ok ((), { m with net := Network.close conn.socket m.net })

/-- `CreateHeapCopy`: a new object for the same socket. -/
def createHeapCopy (conn : ClientConnection) : ServerM W ClientConnection :=
  fun m =>
    .ok ({ conn with copy := some m.heapCopies, connectionType := .unknown },
      { m with heapCopies := m.heapCopies + 1 })

end ClientConnection

/-- What the field readers need of the object they read from. -/
class Client (W C : Type) where
  /-- `client->Read(buffer, size)`: the bytes stored, if the call succeeds,
  and the client after the call. -/
  read : C → (size : Nat) → ServerM W (Option (List.Vector UInt8 size) × C)

instance : Client W ClientConnection where
  read conn size := do
    let bytes ← conn.read size
    return (bytes, conn)

/-! ### Weakest preconditions of the calls -/

section

open Prog

variable {conn : ClientConnection} {m : Machine W} {E : Fault → Prop}

@[simp] theorem wp_read {size : Nat}
    {Q : Option (List.Vector UInt8 size) → Machine W → Prop} :
    wp (conn.read size) Q E m ↔
      Q (Network.read conn.socket size m.net).1
        { m with net := (Network.read conn.socket size m.net).2 } := Iff.rfl

@[simp] theorem wp_client_read {size : Nat}
    {Q : Option (List.Vector UInt8 size) × ClientConnection → Machine W → Prop} :
    wp (Client.read conn size) Q E m ↔
      Q ((Network.read conn.socket size m.net).1, conn)
        { m with net := (Network.read conn.socket size m.net).2 } := Iff.rfl

@[simp] theorem wp_drain {bytes : Nat} {Q : Bool → Machine W → Prop} :
    wp (conn.drain bytes) Q E m ↔
      Q (Network.drain conn.socket bytes m.net).1
        { m with net := (Network.drain conn.socket bytes m.net).2 } := Iff.rfl

@[simp] theorem wp_writePartial {bytes : List UInt8} {Q : Bool → Machine W → Prop} :
    wp (conn.writePartial bytes) Q E m ↔
      Q (Network.writePartial conn.socket bytes m.net).1
        { m with
          net := (Network.writePartial conn.socket bytes m.net).2
          written := m.written ++
            [⟨conn, bytes, (Network.writePartial conn.socket bytes m.net).1⟩] } :=
  Iff.rfl

@[simp] theorem wp_write {bytes : List UInt8} {Q : Bool → Machine W → Prop} :
    wp (conn.write bytes) Q E m ↔
      Q (Network.write conn.socket bytes m.net).1
        { m with
          net := (Network.write conn.socket bytes m.net).2
          written := m.written ++
            [⟨conn, bytes, (Network.write conn.socket bytes m.net).1⟩] } :=
  Iff.rfl

@[simp] theorem wp_close {Q : Unit → Machine W → Prop} :
    wp conn.close Q E m ↔
      Q () { m with net := Network.close conn.socket m.net } := Iff.rfl

omit [Network W] in
@[simp] theorem wp_createHeapCopy {Q : ClientConnection → Machine W → Prop} :
    wp conn.createHeapCopy Q E m ↔
      Q { conn with copy := some m.heapCopies, connectionType := .unknown }
        { m with heapCopies := m.heapCopies + 1 } := Iff.rfl

end

end Gnat
