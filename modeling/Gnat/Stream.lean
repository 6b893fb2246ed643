/-
Gnat/Stream.lean

Packets on a stream that delivers.

`Consumed socket taken m m'` says that the bytes `taken` were read from the
front of a socket's stream and nothing else happened.  A `Frame` is a packet
as it is laid out on the wire; `readNext_frame` says that `Packet::ReadNext`
reads the header of the frame in front of the stream, whatever follows it and
however its remaining length is encoded.
-/
import Gnat.Lib.VarInt
import Gnat.Network
import Gnat.Packet

namespace Gnat

open Lib Prog StreamNetwork

variable {W : Type} [StreamNetwork W] {m m₁ m' : Machine W} {socket : Nat}

/-! ### Consuming the front of a stream -/

/-- The bytes `taken` were read from the stream of a socket, and nothing else
happened. -/
structure Consumed (socket : Nat) (taken : List UInt8) (m m' : Machine W) : Prop where
  front : input socket m.net = taken ++ input socket m'.net
  others : ∀ s, s ≠ socket → input s m'.net = input s m.net
  written : m'.written = m.written
  heapCopies : m'.heapCopies = m.heapCopies

theorem Consumed.trans {taken taken' : List UInt8} (h : Consumed socket taken m m₁)
    (h' : Consumed socket taken' m₁ m') : Consumed socket (taken ++ taken') m m' where
  front := by rw [h.front, h'.front, List.append_assoc]
  others s hs := (h'.others s hs).trans (h.others s hs)
  written := h'.written.trans h.written
  heapCopies := h'.heapCopies.trans h.heapCopies

/-- What is behind the bytes that were consumed. -/
theorem Consumed.rest {taken rest : List UInt8} (h : Consumed socket taken m m')
    (hin : input socket m.net = taken ++ rest) : input socket m'.net = rest :=
  List.append_cancel_left (h.front.symm.trans hin)

/-- A read of the bytes in front of the stream, if it succeeds. -/
theorem read_front {size : Nat} {taken rest : List UInt8} {w : W}
    (hin : input socket w = taken ++ rest) (hsize : taken.length = size)
    (hsome : (Network.read socket size w).1.isSome) :
    (Network.read socket size w).1 = some ⟨taken, hsize⟩ ∧
      input socket (Network.read socket size w).2 = rest := by
  rcases hr : Network.read socket size w with ⟨- | bytes, w'⟩
  · rw [hr] at hsome
    cases hsome
  · have happend : taken ++ rest = bytes.toList ++ input socket w' :=
      hin.symm.trans (read_some hr)
    have hlen : taken.length = bytes.toList.length := by
      rw [hsize, List.Vector.toList_length]
    obtain ⟨hbytes, hrest⟩ := List.append_inj happend hlen
    exact ⟨congrArg some (List.Vector.eq _ _ hbytes.symm), hrest.symm⟩

theorem read_consumed {size : Nat} {taken rest : List UInt8}
    (hin : input socket m.net = taken ++ rest) (hsize : taken.length = size)
    (hsome : (Network.read socket size m.net).1.isSome) :
    Consumed socket taken m { m with net := (Network.read socket size m.net).2 } where
  front := by rw [(read_front hin hsize hsome).2]; exact hin
  others _ hs := read_other hs
  written := rfl
  heapCopies := rfl

/-- A connection reads the bytes in front of its stream, if there is one. -/
theorem wp_read_front {conn : ClientConnection} {size : Nat} {taken rest : List UInt8}
    (hin : input conn.socket m.net = taken ++ rest) (hsize : taken.length = size)
    (hpos : 0 < size) {E : Fault → Prop} :
    wp (conn.read size)
      (fun r m' => r = some ⟨taken, hsize⟩ ∧ Consumed conn.socket taken m m') E m := by
  have hle : size ≤ (input conn.socket m.net).length := by
    rw [hin, List.length_append]
    omega
  have hsome := read_isSome hpos hle
  rw [wp_read]
  exact ⟨(read_front hin hsize hsome).1, read_consumed hin hsize hsome⟩

theorem wp_read_byte {conn : ClientConnection} {b : UInt8} {rest : List UInt8}
    (hin : input conn.socket m.net = b :: rest) {E : Fault → Prop} :
    wp (conn.read 1) (fun r m' => r = some ⟨[b], rfl⟩ ∧ Consumed conn.socket [b] m m') E m := by
  have hsize : [b].length = 1 := rfl
  exact wp_read_front (hin : _ = [b] ++ rest) hsize (by decide)

/-! ### Frames -/

/-- A packet as it is laid out on the wire: a control byte, the remaining
length in one to four bytes, and as many bytes as it says. -/
structure Frame where
  control : UInt8
  lengthBytes : List UInt8
  body : List UInt8
  numeral : VarInt.IsNumeral lengthBytes
  length_le : lengthBytes.length ≤ 4
  value_eq : VarInt.value lengthBytes = body.length

namespace Frame

/-- The bytes in front of the body. -/
def header (f : Frame) : List UInt8 :=
  f.control :: f.lengthBytes

/-- The bytes on the wire. -/
def bytes (f : Frame) : List UInt8 :=
  f.header ++ f.body

def type (f : Frame) : PacketType :=
  controlType f.control

def typeFlags (f : Frame) : UInt8 :=
  controlFlags f.control

/-- The packet `ReadNext` is to return for the frame. -/
def packet (f : Frame) (conn : ClientConnection) : Packet :=
  ⟨f.control, f.body.length, conn⟩

/-- The shortest frame around a body. -/
def ofBody (control : UInt8) (body : List UInt8) (h : body.length < 2 ^ 28) : Frame where
  control := control
  lengthBytes := VarInt.encode body.length
  body := body
  numeral := VarInt.isNumeral_encode _
  length_le := VarInt.length_encode_le (k := 3) h
  value_eq := VarInt.value_encode _

theorem body_length_lt (f : Frame) : f.body.length < 2 ^ 28 := by
  rw [← f.value_eq]
  calc VarInt.value f.lengthBytes < 128 ^ f.lengthBytes.length := VarInt.value_lt _
    _ ≤ 128 ^ 4 := Nat.pow_le_pow_right (by decide) f.length_le

end Frame

/-! ### Reading a header -/

/-- The rounds of `ReadVariableByteInteger` over a numeral: after `k` digits
the multiplier is `128 ^ k`, and with four digits in all nothing overflows. -/
theorem readVariableByteLoop_numeral {target : Target} {conn : ClientConnection}
    {digits rest : List UInt8} (hdigits : VarInt.IsNumeral digits) {k fuel out : Nat}
    (hk : k + digits.length ≤ 4) (hfuel : digits.length ≤ fuel)
    (hin : input conn.socket m.net = digits ++ rest) (hout : out < 128 ^ k)
    {E : Fault → Prop} :
    wp (readVariableByteLoop target conn fuel ((128 ^ k : Nat) : Int) out)
      (fun r m' => r = (true, out + 128 ^ k * VarInt.value digits) ∧
        Consumed conn.socket digits m m') E m := by
  induction digits generalizing k fuel out m with
  | nil => exact hdigits.elim
  | cons b l ih =>
      rw [List.length_cons] at hk hfuel
      obtain ⟨fuel, rfl⟩ := Nat.exists_eq_add_of_le' (by omega : 1 ≤ fuel)
      -- with four digits in all neither product leaves the 31 bits
      have hpow : 128 ^ k ≤ 128 ^ 3 := Nat.pow_le_pow_right (by decide) (by omega)
      have hdigit : b.toNat % 128 < 128 := Nat.mod_lt _ (by decide)
      have hproduct : b.toNat % 128 * 128 ^ k ≤ 127 * 128 ^ k :=
        Nat.mul_le_mul_right _ (by omega)
      have hmul : target.intMul ((b.toNat % 128 : Nat) : Int) ((128 ^ k : Nat) : Int) =
          .ok ((b.toNat % 128 * 128 ^ k : Nat) : Int) :=
        Target.intMul_natCast (by omega)
      have hnext : target.intMul ((128 ^ k : Nat) : Int) 128 =
          .ok ((128 ^ (k + 1) : Nat) : Int) :=
        Target.intMul_natCast (a := 128 ^ k) (b := 128) (by omega)
      have hsum : (((out : Int) + ((b.toNat % 128 * 128 ^ k : Nat) : Int)) % 2 ^ 32).toNat =
          out + 128 ^ k * (b.toNat % 128) := by
        rw [Nat.mul_comm (128 ^ k)]
        omega
      simp only [readVariableByteLoop, wp_bind]
      refine wp_imp (wp_read_byte (hin : _ = b :: (l ++ rest))) ?_
      rintro - m₁ ⟨rfl, h₁⟩
      simp only [List.Vector.head, wp_bind, wp_ofExcept, hmul, hnext, hsum, wp_ite, wp_pure]
      rcases hdigits.cases with ⟨b', heq, hlt⟩ | ⟨b', l', heq, hge, hl'⟩
      · obtain ⟨rfl, rfl⟩ := List.cons.inj heq
        rw [if_pos hlt]
        exact ⟨by simp [VarInt.value], h₁⟩
      · obtain ⟨rfl, rfl⟩ := List.cons.inj heq
        rw [if_neg (by omega)]
        have hout' : out + 128 ^ k * (b.toNat % 128) < 128 ^ (k + 1) := by
          rw [Nat.pow_succ, Nat.mul_comm (128 ^ k) (b.toNat % 128)]
          omega
        refine wp_imp (ih hl' (by omega) (by omega) (h₁.rest hin) hout') ?_
        rintro - m₂ ⟨rfl, h₂⟩
        refine ⟨?_, h₁.trans h₂⟩
        rw [VarInt.value, Nat.pow_succ]
        ring_nf

theorem readVariableByteInteger_numeral {target : Target} {conn : ClientConnection}
    {digits rest : List UInt8} (hdigits : VarInt.IsNumeral digits)
    (hlen : digits.length ≤ 4) (hin : input conn.socket m.net = digits ++ rest)
    {E : Fault → Prop} :
    wp (readVariableByteInteger target conn)
      (fun r m' => r = (true, VarInt.value digits) ∧ Consumed conn.socket digits m m')
      E m := by
  have hfuel : digits.length ≤ Network.pending conn.socket m.net + 1 := by
    rw [pending_eq, hin, List.length_append]
    omega
  have h : wp (readVariableByteLoop target conn _ ((128 ^ 0 : Nat) : Int) 0) _ E m :=
    readVariableByteLoop_numeral hdigits (by omega) hfuel hin (by decide)
  simpa only [readVariableByteInteger, wp, Nat.pow_zero, Nat.cast_one, Nat.zero_add,
    Nat.one_mul] using h

/-- **`ReadNext` reads the header in front of the stream**, and nothing of what
follows it. -/
theorem readNext_frame {target : Target} {conn : ClientConnection} (f : Frame)
    {rest : List UInt8} (hin : input conn.socket m.net = f.header ++ rest)
    {E : Fault → Prop} :
    wp (Packet.readNext target conn)
      (fun r m' => r = some (f.packet conn) ∧ Consumed conn.socket f.header m m') E m := by
  have hin₁ : input conn.socket m.net = f.control :: (f.lengthBytes ++ rest) := hin
  simp only [Packet.readNext, FixedHeader.readFrom, readUInt8, readBytes, readBytesLoop,
    wp_bind, Client.read]
  refine wp_imp (wp_read_byte hin₁) ?_
  rintro - m₁ ⟨rfl, h₁⟩
  simp only [wp_pure, if_true, wp_bind]
  refine wp_imp (readVariableByteInteger_numeral f.numeral f.length_le (h₁.rest hin₁)) ?_
  rintro - m₂ ⟨rfl, h₂⟩
  refine ⟨?_, h₁.trans h₂⟩
  simp [Frame.packet, f.value_eq, List.Vector.head]

end Gnat
