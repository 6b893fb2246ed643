/-
Gnat/Network.lean

Networks with laws, and two concrete ones.

* `StreamNetwork`: the copies of a connection share one stream, and the calls
  that read consume exactly what they are asked for.  A read of no bytes may
  fail.
* `ReliableNetwork`: besides, every call succeeds.

`Wire` is the plain reliable network, a list of unread bytes for each socket.
`Net` is one whose calls fail: each connection delivers the bytes it has and
as many reads as it has left, then every read fails, and writes fail as a
given sequence says.
-/
import Gnat.Connection

namespace Gnat

/-- Networks on which the copies of a connection share one stream. -/
class StreamNetwork (W : Type) extends Network W where
  /-- The bytes of a socket's stream that are not consumed. -/
  input : Nat → W → List UInt8
  pending_eq (socket : Nat) (w : W) : pending socket w = (input socket w).length
  read_some {socket size : Nat} {w w' : W} {bytes : List.Vector UInt8 size} :
    read socket size w = (some bytes, w') →
      input socket w = bytes.toList ++ input socket w'
  read_none {socket size : Nat} {w w' : W} :
    read socket size w = (none, w') → input socket w' = input socket w
  read_other {socket socket' size : Nat} {w : W} :
    socket' ≠ socket → input socket' (read socket size w).2 = input socket' w
  read_isSome {socket size : Nat} {w : W} :
    0 < size → size ≤ (input socket w).length → (read socket size w).1.isSome
  drain_input {socket bytes : Nat} {w : W} :
    bytes ≤ (input socket w).length →
      input socket (drain socket bytes w).2 = (input socket w).drop bytes
  drain_other {socket socket' bytes : Nat} {w : W} :
    socket' ≠ socket → input socket' (drain socket bytes w).2 = input socket' w
  writePartial_input {socket socket' : Nat} {bytes : List UInt8} {w : W} :
    input socket' (writePartial socket bytes w).2 = input socket' w
  write_input {socket socket' : Nat} {bytes : List UInt8} {w : W} :
    input socket' (write socket bytes w).2 = input socket' w

/-- Stream networks on which every call succeeds. -/
class ReliableNetwork (W : Type) extends StreamNetwork W where
  /-- The peer of a socket sends bytes. -/
  arrive : Nat → List UInt8 → W → W
  arrive_input (socket : Nat) (bytes : List UInt8) (w : W) :
    input socket (arrive socket bytes w) = input socket w ++ bytes
  arrive_other {socket socket' : Nat} {bytes : List UInt8} {w : W} :
    socket' ≠ socket → input socket' (arrive socket bytes w) = input socket' w
  read_succeeds {socket size : Nat} {w : W} :
    size ≤ (input socket w).length → (read socket size w).1.isSome
  writePartial_succeeds (socket : Nat) (bytes : List UInt8) (w : W) :
    (writePartial socket bytes w).1 = true
  write_succeeds (socket : Nat) (bytes : List UInt8) (w : W) :
    (write socket bytes w).1 = true
  close_input {socket socket' : Nat} {w : W} :
    input socket' (close socket w) = input socket' w

/-! ### The plain reliable network -/

/-- The unread bytes of each socket. -/
structure Wire where
  input : Nat → List UInt8 := fun _ => []

namespace Wire

/-- Replace the unread bytes of a socket. -/
def update (w : Wire) (socket : Nat) (bytes : List UInt8) : Wire :=
  ⟨Function.update w.input socket bytes⟩

@[simp] theorem update_self (w : Wire) (socket : Nat) (bytes : List UInt8) :
    (w.update socket bytes).input socket = bytes :=
  Function.update_self ..

@[simp] theorem update_of_ne {w : Wire} {socket socket' : Nat} {bytes : List UInt8}
    (h : socket' ≠ socket) : (w.update socket bytes).input socket' = w.input socket' :=
  Function.update_of_ne h ..

/-- A read takes the front of the unread bytes. -/
def read (socket size : Nat) (w : Wire) : Option (List.Vector UInt8 size) × Wire :=
  if h : size ≤ (w.input socket).length then
    (some ⟨(w.input socket).take size, by rw [List.length_take, Nat.min_eq_left h]⟩,
      w.update socket ((w.input socket).drop size))
  else (none, w)

theorem read_of_le {socket size : Nat} {w : Wire} (h : size ≤ (w.input socket).length) :
    read socket size w =
      (some ⟨(w.input socket).take size, by rw [List.length_take, Nat.min_eq_left h]⟩,
        w.update socket ((w.input socket).drop size)) :=
  dif_pos h

theorem read_of_lt {socket size : Nat} {w : Wire} (h : (w.input socket).length < size) :
    read socket size w = (none, w) :=
  dif_neg (Nat.not_le.mpr h)

theorem read_some {socket size : Nat} {w w' : Wire} {bytes : List.Vector UInt8 size}
    (h : read socket size w = (some bytes, w')) :
    w.input socket = bytes.toList ++ w'.input socket := by
  rcases Nat.lt_or_ge (w.input socket).length size with hlt | hle
  · rw [read_of_lt hlt] at h
    cases h
  · rw [read_of_le hle] at h
    cases h
    simp [List.Vector.toList]

theorem read_none {socket size : Nat} {w w' : Wire}
    (h : read socket size w = (none, w')) : w' = w := by
  rcases Nat.lt_or_ge (w.input socket).length size with hlt | hle
  · rw [read_of_lt hlt] at h
    cases h
    rfl
  · rw [read_of_le hle] at h
    cases h

theorem read_other {socket socket' size : Nat} {w : Wire} (h : socket' ≠ socket) :
    (read socket size w).2.input socket' = w.input socket' := by
  unfold read
  split
  · exact update_of_ne h
  · rfl

end Wire

instance : ReliableNetwork Wire where
  pending socket w := (w.input socket).length
  read := Wire.read
  drain socket bytes w :=
    if bytes ≤ (w.input socket).length then
      (true, w.update socket ((w.input socket).drop bytes))
    else (false, w)
  writePartial _ _ w := (true, w)
  write _ _ w := (true, w)
  close _ w := w
  read_pending h := by
    rw [Wire.read_some h, List.length_append, List.Vector.toList_length]
    omega
  input socket w := w.input socket
  pending_eq _ _ := rfl
  read_some := Wire.read_some
  read_none h := by rw [Wire.read_none h]
  read_other := Wire.read_other
  read_isSome _ h := by rw [Wire.read_of_le h]; rfl
  drain_input h := by rw [if_pos h]; exact Wire.update_self ..
  drain_other h := by
    split
    · exact Wire.update_of_ne h
    · rfl
  writePartial_input := rfl
  write_input := rfl
  arrive socket bytes w := w.update socket (w.input socket ++ bytes)
  arrive_input _ _ _ := Wire.update_self ..
  arrive_other h := Wire.update_of_ne h
  read_succeeds h := by rw [Wire.read_of_le h]; rfl
  writePartial_succeeds _ _ _ := rfl
  write_succeeds _ _ _ := rfl
  close_input := rfl

/-! ### A network whose calls fail -/

/-- One end of a connection: the bytes it still delivers, and how many calls
of `Read` still succeed (`none`: the calls do not start to fail by
themselves). -/
structure Socket where
  input : List UInt8 := []
  readsLeft : Option Nat := none
  deriving DecidableEq, Repr

namespace Socket

/-- The next `Read` of `size` bytes succeeds. -/
def Delivers (s : Socket) (size : Nat) : Prop :=
  size ≤ s.input.length ∧ s.readsLeft ≠ some 0

instance (s : Socket) (size : Nat) : Decidable (s.Delivers size) := by
  unfold Delivers; infer_instance

/-- The socket after a `Read` that succeeded. -/
def after (s : Socket) (size : Nat) : Socket where
  input := s.input.drop size
  readsLeft := s.readsLeft.map (· - 1)

/-- The socket after a `Read` that failed: from then on all do. -/
def dead (s : Socket) : Socket :=
  { s with readsLeft := some 0 }

end Socket

/-- Sockets that may fail.  `writeOk i` tells whether the `i`-th write from
here on succeeds. -/
structure Net where
  sockets : Nat → Socket := fun _ => {}
  writeOk : Nat → Bool := fun _ => true

namespace Net

/-- Replace a socket. -/
def update (w : Net) (socket : Nat) (s : Socket) : Net :=
  { w with sockets := Function.update w.sockets socket s }

@[simp] theorem update_sockets_self (w : Net) (socket : Nat) (s : Socket) :
    (w.update socket s).sockets socket = s :=
  Function.update_self ..

/-- A read succeeds if the socket delivers. -/
def read (socket size : Nat) (w : Net) : Option (List.Vector UInt8 size) × Net :=
  let s := w.sockets socket
  if h : s.Delivers size then
    (some ⟨s.input.take size, by rw [List.length_take, Nat.min_eq_left h.1]⟩,
      w.update socket (s.after size))
  else (none, w.update socket s.dead)

theorem read_of_delivers {socket size : Nat} {w : Net}
    (h : (w.sockets socket).Delivers size) :
    read socket size w =
      (some ⟨(w.sockets socket).input.take size, by
          rw [List.length_take, Nat.min_eq_left h.1]⟩,
        w.update socket ((w.sockets socket).after size)) :=
  dif_pos h

theorem read_of_not_delivers {socket size : Nat} {w : Net}
    (h : ¬ (w.sockets socket).Delivers size) :
    read socket size w = (none, w.update socket (w.sockets socket).dead) :=
  dif_neg h

/-- A write takes its result from the sequence. -/
def write (_socket : Nat) (_bytes : List UInt8) (w : Net) : Bool × Net :=
  (w.writeOk 0, { w with writeOk := fun i => w.writeOk (i + 1) })

end Net

instance : Network Net where
  pending socket w := (w.sockets socket).input.length
  read := Net.read
  drain socket bytes w :=
    let s := w.sockets socket
    if s.Delivers bytes then (true, w.update socket (s.after bytes))
    else (false, w.update socket s.dead)
  writePartial := Net.write
  write := Net.write
  close socket w := w.update socket (w.sockets socket).dead
  read_pending {socket size w w' bytes} h := by
    by_cases hd : (w.sockets socket).Delivers size
    · rw [Net.read_of_delivers hd] at h
      cases h
      have := hd.1
      simp only [Net.update_sockets_self, Socket.after, List.length_drop]
      omega
    · rw [Net.read_of_not_delivers hd] at h
      cases h

end Gnat
