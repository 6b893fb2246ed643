/-
Gnat/RoundTrip.lean

A PUBLISH that is sent and read.

The sender and the reader have a network each; what connects them is the list of
bytes the sender wrote.  `ReadBack` is what a reader finds that has these bytes in
front of its stream, whatever follows them there.
-/
import Gnat.Received
import Gnat.Sent

namespace Gnat

open Lib Prog StreamNetwork

/-- Wherever the bytes stand in front of a stream, `ReadNext` and
`Publish::ReadFrom` read a PUBLISH without flags with the topic and the size of the
payload; then the payload is what is left of the packet, and reading it consumes
the last of the bytes. -/
def ReadBack (bytes topic payload : List UInt8) : Prop :=
  ∀ (W : Type) [ReliableNetwork W] (target : Target) (conn : ClientConnection)
    (rest : List UInt8) (m : Machine W), input conn.socket m.net = bytes ++ rest →
    ∃ p m₁ publish p₁ m₂ read p₂ m₃,
      Packet.readNext target conn m = .ok (some p, m₁) ∧
      p.type = .publish ∧ p.typeFlags = 0 ∧
      Publish.readFrom p p.typeFlags m₁ = .ok ((some publish, p₁), m₂) ∧
      publish.topic.bytes = topic ∧ publish.topic.length = topic.length ∧
      publish.payloadBytes = payload.length ∧
      p₁.bytesRemaining = payload.length ∧ input conn.socket m₂.net = payload ++ rest ∧
      p₁.read payload.length m₂ = .ok ((some read, p₂), m₃) ∧ read.toList = payload ∧
      p₂.bytesRemaining = 0 ∧ input conn.socket m₃.net = rest

/-- The digits are the shortest numeral of a number, and fit into a header. -/
structure ShortestLength (n : Nat) (digits : List UInt8) : Prop where
  numeral : VarInt.IsNumeral digits
  value : VarInt.value digits = n
  length_le : digits.length ≤ 4
  shortest : ∀ l, VarInt.IsNumeral l → VarInt.value l = n → digits.length ≤ l.length
  no_zero_group : digits.getLast? ≠ some 0

theorem shortestLength_encode {n : Nat} (hpos : 0 < n) (h : n < 2 ^ 28) :
    ShortestLength n (VarInt.encode n) where
  numeral := VarInt.isNumeral_encode n
  value := VarInt.value_encode n
  length_le := VarInt.length_encode_le (k := 3) h
  shortest _ hl hvalue := hvalue ▸ VarInt.length_encode_value_le hl
  no_zero_group := VarInt.getLast?_encode hpos

/-- The header of a frame in front of the stream is read. -/
theorem readNext_framed {W : Type} [ReliableNetwork W] (target : Target)
    {conn : ClientConnection} {control : UInt8} {body rest : List UInt8} {m : Machine W}
    (hlength : body.length < 2 ^ 28)
    (hin : input conn.socket m.net = framed control body ++ rest) :
    ∃ m₁, Packet.readNext target conn m = .ok (some ⟨control, body.length, conn⟩, m₁) ∧
      At conn m.heapCopies body rest ⟨control, body.length, conn⟩ m₁ := by
  let f : Frame := .ofBody control body hlength
  have hbytes : input conn.socket m.net = f.header ++ (f.body ++ rest) := by
    rw [← List.append_assoc]
    exact hin
  have hheader : wp (Packet.readNext target conn) _ (fun _ => False) m :=
    readNext_frame f hbytes
  obtain ⟨_, m₁, hnext, rfl, hconsumed⟩ := hheader.exists_ok
  exact ⟨m₁, hnext, rfl, rfl, hconsumed.rest hbytes, hconsumed.heapCopies⟩

/-- The frame of a PUBLISH is read back. -/
theorem publishFrame_readBack {topic payload : List UInt8} (htopic : topic.length ≤ 128)
    (hsize : 2 + topic.length + payload.length < 2 ^ 28) :
    ReadBack (publishFrame topic payload) topic payload := by
  intro W _ target conn rest m hin
  have hlength : ((Message.publish topic 0 payload).body 0).length < 2 ^ 28 := by
    show (wireString topic ++ payload).length < 2 ^ 28
    rwa [List.length_append, length_wireString]
  -- the header
  obtain ⟨m₁, hnext, hat⟩ := readNext_framed target hlength hin
  have htype : controlType 0x30 = .publish := by decide
  have hflags : controlFlags 0x30 = 0 := by decide
  -- the topic
  obtain ⟨⟨_, p₁⟩, m₂, hread, rfl, hat₁⟩ :=
    (hat.publish htopic (E := fun _ => False)).exists_ok
  -- the payload
  have hat₁' : At conn m.heapCopies (payload ++ []) rest p₁ m₂ := by
    rwa [List.append_nil]
  obtain ⟨⟨_, p₂⟩, m₃, hpayload, rfl, hat₂⟩ :=
    (hat₁'.read rfl (E := fun _ => False)).exists_ok
  exact ⟨_, m₁, publishOf topic payload, p₁, m₂, _, p₂, m₃, hnext, htype, hflags,
    hflags ▸ hread, publishOf_bytes htopic, rfl, rfl, hat₁.size, hat₁.front, hpayload, rfl,
    hat₂.size, hat₂.front⟩

/-- **The round trip of a PUBLISH.**  What `SendOn` writes is one frame with the
shortest remaining length, and it is read back, for every topic the buffer holds
and every payload the length field has room for. -/
theorem publish_round_trip {W : Type} [ReliableNetwork W] (conn : ClientConnection)
    (m : Machine W) {publish : Publish} {payload : List UInt8}
    (htopic : publish.topic.length ≤ 128) (hpayload : payload.length = publish.payloadBytes)
    (hsize : 2 + publish.topic.length + publish.payloadBytes ≤ 268435455) :
    ∃ m' ws digits, publish.sendOn conn payload m = .ok (true, m') ∧
      m'.written = m.written ++ ws ∧ (∀ w ∈ ws, w.via = conn ∧ w.accepted = true) ∧
      ws.flatMap Write.bytes =
        0x30 :: (digits ++ (wireString publish.topic.bytes ++ payload)) ∧
      ShortestLength (2 + publish.topic.length + publish.payloadBytes) digits ∧
      ReadBack (ws.flatMap Write.bytes) publish.topic.bytes payload := by
  have hlength := StringBuffer.length_bytes htopic
  obtain ⟨m', hsend, hwrote⟩ := exists_sent (m := m)
    (Publish.sendOn_wrote htopic hpayload (by omega))
  have hbytes : List.flatMap Write.bytes
      [⟨conn, publishHeader publish.topic.bytes publish.payloadBytes, true⟩,
        ⟨conn, payload, true⟩] = publishFrame publish.topic.bytes payload := by
    rw [← publishHeader_append, hpayload]
    simp
  refine ⟨m', _, VarInt.encode (2 + publish.topic.length + publish.payloadBytes), hsend,
    hwrote.written, ?_, ?_, shortestLength_encode (by omega) (by omega), ?_⟩
  · intro w hw
    simp only [List.mem_cons, List.not_mem_nil, or_false] at hw
    rcases hw with rfl | rfl <;> exact ⟨rfl, rfl⟩
  · rw [hbytes, ← publishHeader_append, publishHeader, hpayload, hlength, List.cons_append,
      List.append_assoc]
  · rw [hbytes]
    exact publishFrame_readBack (by omega) (by omega)

/-- The topic `a` with the payload `hi`. -/
theorem publish_round_trip_hi :
    ∃ m' ws digits, (publishOf [0x61] [0x68, 0x69]).sendOn { socket := 0, id := 7 }
        [0x68, 0x69] ({ net := {} } : Machine Wire) = .ok (true, m') ∧
      m'.written = [] ++ ws ∧
      (∀ w ∈ ws, w.via = { socket := 0, id := 7 } ∧ w.accepted = true) ∧
      ws.flatMap Write.bytes =
        0x30 :: (digits ++ (wireString (publishOf [0x61] [0x68, 0x69]).topic.bytes ++
          [0x68, 0x69])) ∧
      ShortestLength 5 digits ∧
      ReadBack (ws.flatMap Write.bytes) (publishOf [0x61] [0x68, 0x69]).topic.bytes
        [0x68, 0x69] := by
  have htopic : (publishOf [0x61] [0x68, 0x69]).topic.length ≤ 128 := by decide
  exact publish_round_trip { socket := 0, id := 7 } { net := ({} : Wire) } htopic rfl (by decide)

end Gnat
