/-
Gnat/ClientPackets.lean

The packets at the start of a session, sent and read: CONNECT and SUBACK.

`ReadsBack` is what a reader makes of the bytes of a packet in front of its stream,
whatever follows them: the value it returns and what it leaves of the packet.  The
encoder and the decoder of a CONNECT do not have the same fields: `SendOn` writes a
client id, which `ReadFrom` leaves to the destructor of the packet
(`connect_read_back`).  Those of a SUBACK do not have the same number of responses:
there is one in every SUBACK that was read (`suback_roundTrips_iff`), and room for 28
in one that is sent.
-/
import Gnat.RoundTrip

namespace Gnat

open Lib Prog StreamNetwork

/-! ### Reading back -/

/-- Wherever the bytes stand in front of a stream, `ReadNext` reads a packet of the
given type and its `ReadFrom` returns `x`; then `left` is what is left of the packet. -/
def ReadsBack {α : Type} (type : PacketType)
    (readFrom : ∀ {W : Type} [ReliableNetwork W], Target → Packet →
      ServerM W (Option α × Packet))
    (bytes : List UInt8) (x : α) (left : List UInt8) : Prop :=
  ∀ (W : Type) [ReliableNetwork W] (target : Target) (conn : ClientConnection)
    (rest : List UInt8) (m : Machine W), input conn.socket m.net = bytes ++ rest →
    ∃ p m₁ p₁ m₂, Packet.readNext target conn m = .ok (some p, m₁) ∧ p.type = type ∧
      readFrom target p m₁ = .ok ((some x, p₁), m₂) ∧
      p₁.bytesRemaining = left.length ∧ input conn.socket m₂.net = left ++ rest

section

variable {α : Type} {type : PacketType}
variable {readFrom : ∀ {W : Type} [ReliableNetwork W], Target → Packet →
  ServerM W (Option α × Packet)}
variable {x y : α} {bytes left left' : List UInt8}

/-- A frame is read back if its body is. -/
theorem readsBack_framed {control : UInt8} {body : List UInt8}
    (htype : controlType control = type) (hlength : body.length < 2 ^ 28)
    (hread : ∀ {W : Type} [ReliableNetwork W] (target : Target) {conn : ClientConnection}
      {n : Nat} {rest : List UInt8} {p : Packet} {m : Machine W}, At conn n body rest p m →
        wp (readFrom target p) (fun r m' => r.1 = some x ∧ At conn n left rest r.2 m')
          (fun _ => False) m) :
    ReadsBack type readFrom (framed control body) x left := by
  intro W _ target conn rest m hin
  obtain ⟨m₁, hnext, hat⟩ := readNext_framed target hlength hin
  obtain ⟨⟨_, p₁⟩, m₂, hrun, rfl, hat₁⟩ := (hread target hat).exists_ok
  exact ⟨_, m₁, p₁, m₂, hnext, htype, hrun, hat₁.size, hat₁.front⟩

/-- Bytes are read back in one way. -/
theorem ReadsBack.unique (h : ReadsBack type readFrom bytes x left)
    (h' : ReadsBack type readFrom bytes y left') : x = y ∧ left.length = left'.length := by
  let m : Machine Wire := { net := ⟨fun _ => bytes ++ []⟩ }
  obtain ⟨p, m₁, p₁, m₂, hnext, -, hrun, hsize, -⟩ :=
    h Wire {} { socket := 0, id := 0 } [] m rfl
  obtain ⟨q, n₁, q₁, n₂, hnext', -, hrun', hsize', -⟩ :=
    h' Wire {} { socket := 0, id := 0 } [] m rfl
  -- both are the one run there is
  cases hnext.symm.trans hnext'
  cases hrun.symm.trans hrun'
  exact ⟨rfl, hsize.symm.trans hsize'⟩

end

/-! ### CONNECT -/

/-- `kDefaultConnect`. -/
def defaultConnect : Connect where
  protocolName := ⟨StringBuffer.fill (StringBuffer.empty 6).data [0x4D, 0x51, 0x54, 0x54], 4⟩
  protocolLevel := 4
  flags := 2
  keepAlive := 0
  clientId := ⟨StringBuffer.fill (StringBuffer.empty 23).data [0x47, 0x4E, 0x41, 0x54], 4⟩

namespace Connect

/-- The CONNECT that carries all five fields. -/
def message (connect : Connect) : Message :=
  .connect connect.protocolName.bytes connect.protocolLevel connect.flags connect.keepAlive
    (wireString connect.clientId.bytes)

theorem length_message (connect : Connect) (hname : connect.protocolName.length ≤ 6)
    (hid : connect.clientId.length ≤ 23) :
    (connect.message.body 0).length =
      connect.protocolName.length + connect.clientId.length + 8 := by
  have hname' := StringBuffer.length_bytes hname
  have hid' := StringBuffer.length_bytes hid
  simp [message, Message.body, wireBytes, hname', hid']
  omega

theorem frame_holds (connect : Connect) (buffer : List.Vector UInt8 128)
    (hname : connect.protocolName.length ≤ 6) (hid : connect.clientId.length ≤ 23) :
    ∃ c, connect.frame buffer = some c ∧ c.Holds (framed 0x10 (connect.message.body 0)) := by
  have hname' := StringBuffer.length_bytes hname
  have hlength := connect.length_message hname hid
  obtain ⟨c₁, hc₁, h₁⟩ := (Cursor.holds_start buffer).put 0x10 (by decide) (by decide)
  obtain ⟨b, h₂⟩ := h₁.skip (by decide) (by decide)
  obtain ⟨c₃, c₄, c₅, hc₃, hc₄, hc₅, h₅⟩ := holds_putString h₂ connect.protocolName hname
    (by decide) (by simp; omega) (by simp; omega)
  obtain ⟨c₆, hc₆, h₆⟩ := h₅.put connect.protocolLevel
    (by simp [hname']; omega) (by simp [hname']; omega)
  obtain ⟨c₇, hc₇, h₇⟩ := h₆.put connect.flags
    (by simp [hname']; omega) (by simp [hname']; omega)
  obtain ⟨c₈, c₉, hc₈, hc₉, h₉⟩ := holds_putUInt16 h₇ connect.keepAlive
    (by simp [hname']; omega) (by simp [hname']; omega)
  obtain ⟨d₁, d₂, d₃, hd₁, hd₂, hd₃, h⟩ := holds_putString h₉ connect.clientId hid
    (by decide) (by simp [hname', wireBytes]; omega) (by simp [hname', wireBytes]; omega)
  have hheld : d₃.Holds (0x10 :: b :: connect.message.body 0) := by
    simpa [message, Message.body] using h
  refine ⟨d₃.patch 1 (UInt8.ofNat d₃.current - 2), ?_, holds_framed hheld (by omega)⟩
  simp only [frame, hc₁, hc₃, hc₄, hc₅, hc₆, hc₇, hc₈, hc₉, hd₁, hd₂, hd₃, h₁.current_eq,
    Option.bind_eq_bind, Option.bind_some]
  rfl

/-- `ReadFrom` stops in front of the client id. -/
theorem readsBack (connect : Connect) (hname : connect.protocolName.length ≤ 6)
    (hid : connect.clientId.length ≤ 23) :
    ReadsBack .connect (fun target p => readFrom target p)
      (framed 0x10 (connect.message.body 0))
      (connectOf connect.protocolName.bytes connect.protocolLevel connect.flags
        connect.keepAlive) (wireString connect.clientId.bytes) := by
  have hname' : connect.protocolName.bytes.length ≤ 6 :=
    StringBuffer.length_bytes hname ▸ hname
  have hlength := connect.length_message hname hid
  exact readsBack_framed (by decide) (by omega) fun _ => At.connect hname'

/-- Equal in all five fields. -/
structure Same (a b : Connect) : Prop where
  protocolName : a.protocolName.bytes = b.protocolName.bytes
  protocolLevel : a.protocolLevel = b.protocolLevel
  flags : a.flags = b.flags
  keepAlive : a.keepAlive = b.keepAlive
  clientId : a.clientId.bytes = b.clientId.bytes

/-- What is written is read back, all of it. -/
def RoundTrips (connect : Connect) : Prop :=
  ∀ (W : Type) [ReliableNetwork W] (conn : ClientConnection) (m : Machine W),
    ∃ m' bytes back, connect.sendOn conn m = .ok (true, m') ∧
      m'.written = m.written ++ [⟨conn, bytes, true⟩] ∧
      ReadsBack .connect (fun target p => readFrom target p) bytes back [] ∧
      back.Same connect

theorem sendOn_wrote {W : Type} [ReliableNetwork W] (connect : Connect)
    (hname : connect.protocolName.length ≤ 6) (hid : connect.clientId.length ≤ 23)
    {conn : ClientConnection} {m : Machine W} {E : Fault → Prop} :
    wp (connect.sendOn conn) (fun r m' => r = true ∧
      Wrote [⟨conn, framed 0x10 (connect.message.body 0), true⟩] m m') E m := by
  rw [sendOn, writeFrame_eq (connect.frame_holds _ hname hid)]
  exact wp_write_wrote _

end Connect

/-- **A CONNECT that is sent and read**: what `SendOn` writes is read back with the
name, the level, the flags and the keep-alive time; the client id stays empty, and
exactly its bytes are left in the packet. -/
theorem connect_read_back {W : Type} [ReliableNetwork W] (conn : ClientConnection)
    (m : Machine W) {connect : Connect} (hname : connect.protocolName.length ≤ 6)
    (hid : connect.clientId.length ≤ 23) :
    ∃ m' bytes back, connect.sendOn conn m = .ok (true, m') ∧
      m'.written = m.written ++ [⟨conn, bytes, true⟩] ∧
      ReadsBack .connect (fun target p => Connect.readFrom target p) bytes back
        (wireString connect.clientId.bytes) ∧
      back.protocolName.bytes = connect.protocolName.bytes ∧
      back.protocolName.length = connect.protocolName.length ∧
      back.protocolLevel = connect.protocolLevel ∧ back.flags = connect.flags ∧
      back.keepAlive = connect.keepAlive ∧ back.clientId = .empty 23 := by
  have hname' := StringBuffer.length_bytes hname
  obtain ⟨m', hsend, hwrote⟩ := exists_sent (x := connect.sendOn conn) (m := m)
    (connect.sendOn_wrote hname hid)
  refine ⟨m', _, _, hsend, hwrote.written, connect.readsBack hname hid, ?_, hname', rfl, rfl,
    rfl, rfl⟩
  exact StringBuffer.bytes_fill (by omega)

/-- The CONNECT of a client that uses the defaults. -/
theorem connect_read_back_default :
    ∃ m' bytes back, defaultConnect.sendOn { socket := 0, id := 7 }
        ({ net := {} } : Machine Wire) = .ok (true, m') ∧
      m'.written = [] ++ [⟨{ socket := 0, id := 7 }, bytes, true⟩] ∧
      ReadsBack .connect (fun target p => Connect.readFrom target p) bytes back
        (wireString defaultConnect.clientId.bytes) ∧
      back.protocolName.bytes = defaultConnect.protocolName.bytes ∧
      back.protocolName.length = defaultConnect.protocolName.length ∧
      back.protocolLevel = defaultConnect.protocolLevel ∧
      back.flags = defaultConnect.flags ∧ back.keepAlive = defaultConnect.keepAlive ∧
      back.clientId = .empty 23 :=
  connect_read_back { socket := 0, id := 7 } { net := ({} : Wire) } (by decide) (by decide)

/-- The id `GNAT` is not read back. -/
theorem default_connect_loses_id : ¬ defaultConnect.RoundTrips := by
  have hname : defaultConnect.protocolName.length ≤ 6 := by decide
  have hid : defaultConnect.clientId.length ≤ 23 := by decide
  let conn : ClientConnection := { socket := 0, id := 7 }
  let m : Machine Wire := { net := {} }
  intro h
  obtain ⟨m', bytes, back, hsend, hwritten, hback, -⟩ := h Wire conn m
  obtain ⟨m'', hsend', hwrote⟩ := exists_sent (x := defaultConnect.sendOn conn) (m := m)
    (defaultConnect.sendOn_wrote hname hid)
  cases hsend.symm.trans hsend'
  -- the one write is the frame, which is read back with six bytes left
  obtain rfl : bytes = framed 0x10 (defaultConnect.message.body 0) := by
    simpa using hwritten.symm.trans hwrote.written
  have hleft := (hback.unique (defaultConnect.readsBack hname hid)).2
  exact absurd hleft (by decide)

/-! ### SUBACK -/

namespace SubscribeAck

/-- What `ReadFrom` returns: one response, whatever follows it. -/
def answer (packetId : UInt16) (code : UInt8) : SubscribeAck where
  subscribePacketId := packetId
  responses := List.Vector.cons code (List.Vector.replicate 31 0)
  responsesCount := 1

theorem at_readFrom {W : Type} [ReliableNetwork W] {conn : ClientConnection} {n : Nat}
    {more rest : List UInt8} {p : Packet} {m : Machine W} {E : Fault → Prop}
    {packetId : UInt16} {code : UInt8}
    (h : At conn n (wireBytes packetId.toNat ++ code :: more) rest p m) :
    wp (readFrom p)
      (fun r m' => r.1 = some (answer packetId code) ∧ At conn n more rest r.2 m') E m := by
  simp only [readFrom, wp_bind]
  refine wp_imp (h.readUInt16 _) ?_
  rintro ⟨_, _, p₁⟩ m₁ ⟨rfl, rfl, h₁⟩
  rw [if_pos rfl, wp_bind]
  refine wp_imp (h₁.readUInt8 _) ?_
  rintro ⟨_, _, p₂⟩ m₂ ⟨rfl, rfl, h₂⟩
  exact ⟨rfl, h₂⟩

/-- A SUBACK with responses is read back as one with the first of them. -/
theorem readsBack (packetId : UInt16) {code : UInt8} {codes : List UInt8}
    (hcodes : codes.length < 2 ^ 16) :
    ReadsBack .suback (fun _ p => readFrom p) (subackFrame packetId (code :: codes))
      (answer packetId code) codes := by
  have hlength : ((Message.suback packetId (code :: codes)).body 0).length < 2 ^ 28 := by
    simp [Message.body, wireBytes]
    omega
  exact readsBack_framed (by decide) hlength fun _ => at_readFrom

/-- Whatever the network does, a SUBACK that was read has one response. -/
theorem readFrom_count {W : Type} [Network W] (p : Packet) (m : Machine W) :
    wp (readFrom p) (fun r _ => ∀ back, r.1 = some back → back.responsesCount = 1)
      (fun _ => True) m := by
  have hnone : ∀ back : SubscribeAck, (none : Option SubscribeAck) = some back →
      back.responsesCount = 1 := fun back h => absurd h (by simp)
  simp only [readFrom, wp_bind]
  refine wp_imp (readUInt16_reads _ p m) ?_
  rintro ⟨- | -, packetId, p₁⟩ m₁ -
  · exact hnone
  rw [if_pos rfl, wp_bind]
  refine wp_imp (readUInt8_reads _ p₁ m₁) ?_
  rintro ⟨- | -, code, p₂⟩ m₂ -
  · exact hnone
  · rintro back ⟨⟩
    rfl

/-- What is written, inside the buffer, is read back with the same packet id, as many
responses, and the same ones. -/
def RoundTrips (ack : SubscribeAck) : Prop :=
  ∀ (W : Type) [ReliableNetwork W] (conn : ClientConnection) (m : Machine W),
    ∃ m' bytes back left, ack.sendOn conn m = .ok (true, m') ∧
      m'.written = m.written ++ [⟨conn, bytes, true⟩] ∧
      ReadsBack .suback (fun _ p => readFrom p) bytes back left ∧
      back.subscribePacketId = ack.subscribePacketId ∧
      back.responsesCount = ack.responsesCount ∧ back.codes = ack.codes

theorem RoundTrips.count_eq_one {ack : SubscribeAck} (h : ack.RoundTrips) :
    ack.responsesCount = 1 := by
  obtain ⟨_, bytes, back, left, -, -, hback, -, hcount, -⟩ :=
    h Wire { socket := 0, id := 0 } { net := {} }
  -- a stream that starts with the bytes
  obtain ⟨p, m₁, p₁, m₂, -, -, hrun, -⟩ :=
    hback Wire {} { socket := 0, id := 0 } [] { net := ⟨fun _ => bytes ++ []⟩ } rfl
  rw [← hcount]
  exact (readFrom_count p m₁).ok hrun back rfl

theorem roundTrips_one {ack : SubscribeAck} (h : ack.responsesCount = 1) : ack.RoundTrips := by
  intro W _ conn m
  -- the first of the 32 responses is the only one
  obtain ⟨code, hcode⟩ : ∃ code, ack.codes = [code] := by
    apply List.length_eq_one_iff.mp
    rw [length_codes, h]
    rfl
  obtain ⟨m', hsend, hwrote⟩ := exists_sent (x := ack.sendOn conn) (m := m)
    (ack.sendOn_frame (by rw [h]; decide))
  rw [hcode] at hwrote
  exact ⟨m', _, _, [], hsend, hwrote.written, readsBack ack.subscribePacketId (by decide), rfl,
    h.symm, hcode.symm⟩

theorem sendOn_overflows {W : Type} [Network W] {ack : SubscribeAck}
    (hcount : 28 < ack.responsesCount.toNat) (conn : ClientConnection) (m : Machine W) :
    ack.sendOn conn m = .error .outOfBounds := by
  rw [sendOn, ack.frame_none _ hcount]
  rfl

theorem sendOn_fits {W : Type} [ReliableNetwork W] {ack : SubscribeAck}
    (hcount : ack.responsesCount.toNat ≤ 28) (conn : ClientConnection) (m : Machine W) :
    ∃ m', ack.sendOn conn m = .ok (true, m') ∧ m'.written = m.written ++
      [⟨conn, subackFrame ack.subscribePacketId ack.codes, true⟩] := by
  obtain ⟨m', hsend, hwrote⟩ := exists_sent (x := ack.sendOn conn) (m := m)
    (ack.sendOn_frame hcount)
  exact ⟨m', hsend, hwrote.written⟩

end SubscribeAck

/-- **The round trip of a SUBACK**: the frame is written inside the buffer exactly if
it has at most 28 responses, and read back exactly if it has one. -/
theorem suback_roundTrips_iff (ack : SubscribeAck) :
    (∀ (W : Type) [ReliableNetwork W] (conn : ClientConnection) (m : Machine W),
      ack.sendOn conn m ≠ .error .outOfBounds ↔ ack.responsesCount.toNat ≤ 28) ∧
    (ack.RoundTrips ↔ ack.responsesCount = 1) := by
  refine ⟨fun W _ conn m => ⟨fun h => ?_, fun hcount h => ?_⟩, ?_⟩
  · by_contra hover
    exact h (SubscribeAck.sendOn_overflows (Nat.not_le.mp hover) conn m)
  · obtain ⟨m', hsend, -⟩ := SubscribeAck.sendOn_fits hcount conn m
    cases hsend.symm.trans h
  · exact ⟨SubscribeAck.RoundTrips.count_eq_one, SubscribeAck.roundTrips_one⟩

/-- Two responses are read back as one, and 29 do not fit into the buffer. -/
theorem two_responses_become_one :
    ¬ SubscribeAck.RoundTrips { subscribePacketId := 1, responsesCount := 2 } ∧
      SubscribeAck.sendOn { subscribePacketId := 1, responsesCount := 29 }
        { socket := 0, id := 7 } ({ net := {} } : Machine Wire) = .error .outOfBounds := by
  refine ⟨fun h => absurd h.count_eq_one (by decide), ?_⟩
  exact SubscribeAck.sendOn_overflows (show 28 < (29 : UInt8).toNat by decide) _ _

end Gnat
