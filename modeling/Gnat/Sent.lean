/-
Gnat/Sent.lean

The bytes the encoders send, and that they arrive.

`framed control body` is the shortest frame around a body.  The SUBACK and the
PUBLISH of the broker are the frames of a `Message`; a PUBLISH goes out in two
writes, everything but the payload and then the payload.  `Wrote ws m m'` says
that the writes `ws` were made, each with success, and nothing else happened.
-/
import Gnat.Message
import Gnat.Server

namespace Gnat

open Lib Prog StreamNetwork

/-! ### Frames -/

/-- The shortest frame around a body. -/
def framed (control : UInt8) (body : List UInt8) : List UInt8 :=
  control :: (VarInt.encode body.length ++ body)

/-- A SUBACK with the given return codes. -/
def subackFrame (packetId : UInt16) (codes : List UInt8) : List UInt8 :=
  framed 0x90 ((Message.suback packetId codes).body 0)

/-- A PUBLISH without flags, and so without a packet id. -/
def publishFrame (topic payload : List UInt8) : List UInt8 :=
  framed 0x30 ((Message.publish topic 0 payload).body 0)

/-- What comes before the payload in a PUBLISH. -/
def publishHeader (topic : List UInt8) (payloadBytes : Nat) : List UInt8 :=
  0x30 :: (VarInt.encode (2 + topic.length + payloadBytes) ++ wireString topic)

theorem publishHeader_append (topic payload : List UInt8) :
    publishHeader topic payload.length ++ payload = publishFrame topic payload := by
  have hbody : (Message.publish topic 0 payload).body 0 = wireString topic ++ payload := rfl
  rw [publishFrame, framed, hbody, List.length_append, length_wireString, publishHeader,
    List.cons_append, List.append_assoc]

/-! ### The encoders -/

theorem ofNat_add_sub (n k : Nat) : UInt8.ofNat (n + k) - UInt8.ofNat k = UInt8.ofNat n := by
  rw [UInt8.ofNat_add, UInt8.add_sub_cancel]

/-- Storing the length last completes a frame. -/
theorem holds_framed {cap : Nat} {c : Cursor cap} {control b : UInt8} {body : List UInt8}
    (h : c.Holds (control :: b :: body)) (hlength : body.length < 128) :
    (c.patch 1 (UInt8.ofNat c.current - 2)).Holds (framed control body) := by
  have hlast : UInt8.ofNat c.current - 2 = UInt8.ofNat body.length := by
    rw [h.current_eq]
    exact ofNat_add_sub body.length 2
  have hheld : c.Holds ([control] ++ b :: body) := h
  rw [hlast, framed, VarInt.encode_of_lt hlength]
  exact hheld.patch (UInt8.ofNat body.length)

theorem ConnectAck.frame_holds (ack : ConnectAck) (buffer : List.Vector UInt8 128) :
    ∃ c, ack.frame buffer = some c ∧
      c.Holds (framed 0x20 [0, if ack.error then 0x80 else 0]) := by
  obtain ⟨c₁, hc₁, h₁⟩ := (Cursor.holds_start buffer).put 0x20 (by decide) (by decide)
  obtain ⟨b, h₂⟩ := h₁.skip (by decide) (by decide)
  obtain ⟨c₃, hc₃, h₃⟩ := h₂.put 0 (by simp) (by simp)
  obtain ⟨c₄, hc₄, h₄⟩ := h₃.put (if ack.error then 0x80 else 0) (by simp) (by simp)
  have h : c₄.Holds (0x20 :: b :: [0, if ack.error then 0x80 else 0]) := h₄
  refine ⟨c₄.patch 1 (UInt8.ofNat c₄.current - 2), ?_, holds_framed h (by simp)⟩
  simp only [frame, hc₁, hc₃, hc₄, h₁.current_eq, Option.bind_eq_bind, Option.bind_some]
  rfl

theorem wireBytes_toNat (x : UInt16) :
    wireBytes x.toNat = [(x >>> 8).toUInt8, (x &&& 0xFF).toUInt8] := by
  have hhigh : (x >>> 8).toUInt8 = UInt8.ofNat (x.toNat / 256) := by
    rw [← UInt8.toNat_inj]
    simp [Nat.shiftRight_eq_div_pow]
  have hlow : (x &&& 0xFF).toUInt8 = UInt8.ofNat x.toNat := by
    rw [← UInt8.toNat_inj, UInt16.toNat_toUInt8, UInt16.toNat_and, UInt8.toNat_ofNat']
    have hmask : x.toNat &&& 255 = x.toNat % 2 ^ 8 := Nat.and_two_pow_sub_one_eq_mod _ 8
    show (x.toNat &&& 255) % 256 = x.toNat % 2 ^ 8
    rw [hmask]
    omega
  rw [wireBytes, hhigh, hlow]

theorem StringBuffer.length_bytes {size : Nat} {b : StringBuffer size} (h : b.length ≤ size) :
    b.bytes.length = b.length := by
  rw [bytes, List.length_take, List.Vector.toList_length, Nat.min_eq_left h]

/-- A string from a small buffer has a high length byte of 0. -/
theorem wireString_bytes {size : Nat} {b : StringBuffer size} (h : b.length ≤ size)
    (hsize : size < 256) : wireString b.bytes = 0 :: UInt8.ofNat b.length :: b.bytes := by
  have hhigh : UInt8.ofNat (b.length / 256) = 0 := by
    rw [Nat.div_eq_of_lt (by omega)]
    rfl
  rw [wireString, wireBytes, StringBuffer.length_bytes h, hhigh]
  rfl

section

variable {cap : Nat} {c : Cursor cap} {l : List UInt8}

/-- The two stores of a `uint16_t`. -/
theorem holds_putUInt16 (h : c.Holds l) (x : UInt16) (hcap : l.length + 2 ≤ cap)
    (hbyte : l.length + 2 ≤ 255) :
    ∃ c₁ c₂, c.put (x >>> 8).toUInt8 = some c₁ ∧ c₁.put (x &&& 0xFF).toUInt8 = some c₂ ∧
      c₂.Holds (l ++ wireBytes x.toNat) := by
  obtain ⟨c₁, hc₁, h₁⟩ := h.put (x >>> 8).toUInt8 (by omega) (by omega)
  obtain ⟨c₂, hc₂, h₂⟩ := h₁.put (x &&& 0xFF).toUInt8
    (by rw [List.length_append, List.length_singleton]; omega)
    (by rw [List.length_append, List.length_singleton]; omega)
  refine ⟨c₁, c₂, hc₁, hc₂, ?_⟩
  rw [wireBytes_toNat]
  rwa [List.append_assoc] at h₂

/-- The stores of a string: a high length byte of 0, the low one and the characters. -/
theorem holds_putString {size : Nat} (h : c.Holds l) (s : StringBuffer size)
    (hs : s.length ≤ size) (hsize : size < 256) (hcap : l.length + (2 + s.length) ≤ cap)
    (hbyte : l.length + (2 + s.length) ≤ 255) :
    ∃ c₁ c₂ c₃, c.put 0 = some c₁ ∧ c₁.put (UInt8.ofNat s.length) = some c₂ ∧
      appendString c₂ s = some c₃ ∧ c₃.Holds (l ++ wireString s.bytes) := by
  have hlength := StringBuffer.length_bytes hs
  obtain ⟨c₁, hc₁, h₁⟩ := h.put 0 (by omega) (by omega)
  obtain ⟨c₂, hc₂, h₂⟩ := h₁.put (UInt8.ofNat s.length)
    (by rw [List.length_append, List.length_singleton]; omega)
    (by rw [List.length_append, List.length_singleton]; omega)
  obtain ⟨c₃, hc₃, h₃⟩ := h₂.append s.bytes
    (by simp only [List.length_append, List.length_singleton]; omega)
    (by simp only [List.length_append, List.length_singleton]; omega)
  refine ⟨c₁, c₂, c₃, hc₁, hc₂, (if_pos hs).trans hc₃, ?_⟩
  rw [wireString_bytes hs hsize]
  rw [List.append_assoc, List.append_assoc] at h₃
  exact h₃

end

/-- The responses a SUBACK is to carry. -/
def SubscribeAck.codes (ack : SubscribeAck) : List UInt8 :=
  ack.responses.toList.take ack.responsesCount.toNat

theorem SubscribeAck.length_codes (ack : SubscribeAck) :
    ack.codes.length = min ack.responsesCount.toNat 32 := by
  rw [codes, List.length_take, List.Vector.toList_length]

/-- In front of the responses there are four bytes. -/
theorem SubscribeAck.frame_eq (ack : SubscribeAck) (buffer : List.Vector UInt8 32) :
    ∃ (c : Cursor 32) (b : UInt8),
      c.Holds ([0x90, b] ++ wireBytes ack.subscribePacketId.toNat) ∧
      ack.frame buffer = (c.append ack.codes).bind fun c => some
        (c.skip.patch 1 (UInt8.ofNat c.skip.current - 1 - 2), UInt8.ofNat c.skip.current - 1) := by
  obtain ⟨c₁, hc₁, h₁⟩ := (Cursor.holds_start buffer).put 0x90 (by decide) (by decide)
  obtain ⟨b, h₂⟩ := h₁.skip (by decide) (by decide)
  obtain ⟨c₃, c₄, hc₃, hc₄, h₄⟩ := holds_putUInt16 h₂ ack.subscribePacketId
    (by simp) (by simp)
  refine ⟨c₄, b, h₄, ?_⟩
  simp only [frame, hc₁, hc₃, hc₄, h₁.current_eq, Option.bind_eq_bind, Option.bind_some]
  rfl

/-- The acknowledgement of a SUBSCRIBE: the last byte the cursor passed over is not
sent. -/
theorem SubscribeAck.frame_sent (ack : SubscribeAck) (buffer : List.Vector UInt8 32)
    (hcount : ack.responsesCount.toNat ≤ 28) :
    ∃ c size, ack.frame buffer = some (c, size) ∧
      c.buffer.take size.toNat = subackFrame ack.subscribePacketId ack.codes := by
  obtain ⟨c, b, h, hframe⟩ := ack.frame_eq buffer
  have hcodes : ack.codes.length ≤ 28 := by
    rw [length_codes]
    omega
  obtain ⟨c', hc', h'⟩ := h.append ack.codes (by simp [wireBytes]; omega)
    (by simp [wireBytes]; omega)
  generalize ack.codes = codes at *
  have hcurrent : c'.skip.current = codes.length + 4 + 1 := by
    show (c'.current + 1) % 256 = _
    rw [h'.current_eq]
    simp [wireBytes]
    omega
  have hsize : UInt8.ofNat c'.skip.current - 1 = UInt8.ofNat (codes.length + 4) := by
    rw [hcurrent]
    exact ofNat_add_sub _ 1
  have hlast : UInt8.ofNat (codes.length + 4) - 2 = UInt8.ofNat (codes.length + 2) :=
    ofNat_add_sub (codes.length + 2) 2
  have hbody : ((Message.suback ack.subscribePacketId codes).body 0).length =
      codes.length + 2 := by
    simp [Message.body, wireBytes]
  refine ⟨_, _, by rw [hframe, hc', Option.bind_some, hsize, hlast], ?_⟩
  rw [subackFrame, framed, hbody, VarInt.encode_of_lt (by omega),
    UInt8.toNat_ofNat_of_lt' (show codes.length + 4 < 256 by omega)]
  -- the cursor is not looked at any more, only what was in front of it
  have hheld : c'.Holds ([(0x90 : UInt8)] ++ b ::
      (wireBytes ack.subscribePacketId.toNat ++ codes)) := h'
  have hsent := (hheld.patch (UInt8.ofNat (codes.length + 2))).prefix_eq
  have htotal : ([(0x90 : UInt8)] ++ UInt8.ofNat (codes.length + 2) ::
      (wireBytes ack.subscribePacketId.toNat ++ codes)).length = codes.length + 4 := by
    simp [wireBytes]
  rw [htotal] at hsent
  exact hsent

/-- With the four bytes in front of them, more than 28 responses do not fit. -/
theorem SubscribeAck.frame_none (ack : SubscribeAck) (buffer : List.Vector UInt8 32)
    (hcount : 28 < ack.responsesCount.toNat) : ack.frame buffer = none := by
  obtain ⟨c, b, h, hframe⟩ := ack.frame_eq buffer
  have hcurrent : c.current = 4 := h.current_eq
  have hover : ¬ c.current + ack.codes.length ≤ 32 := by
    rw [hcurrent, length_codes]
    omega
  rw [hframe, Cursor.append, dif_neg hover]
  rfl

theorem or_128 (n : Nat) : n % 128 ||| 128 = n % 128 + 128 := by
  have h := Nat.two_pow_add_eq_or_of_lt (i := 7) (show n % 128 < 2 ^ 7 by omega) 1
  rw [Nat.lor_comm, Nat.add_comm]
  exact h.symm

/-- The loop of `Publish::SendOn` appends the shortest numeral. -/
theorem encodeLength_holds {k length : Nat} (fuel : Nat) {c : Cursor 256} {l : List UInt8}
    (hpos : 0 < length) (hlength : length < 128 ^ (k + 1)) (hfuel : length < fuel)
    (hroom : l.length + (k + 1) < 255) (h : c.Holds l) :
    ∃ c', Publish.encodeLength fuel length c = some c' ∧
      c'.Holds (l ++ VarInt.encode length) := by
  induction k generalizing fuel length c l with
  | zero =>
      obtain ⟨fuel, rfl⟩ : ∃ j, fuel = j + 2 := ⟨fuel - 2, by omega⟩
      obtain ⟨c', hput, h'⟩ := h.put (UInt8.ofNat length) (by omega) (by omega)
      have hlast : length / 128 = 0 := by omega
      refine ⟨c', ?_, ?_⟩
      · rw [Publish.encodeLength, if_pos hpos, if_neg (by omega), hput, hlast]
        rfl
      · rw [VarInt.encode_of_lt (by omega)]
        exact h'
  | succ k ih =>
      rcases Nat.lt_or_ge length 128 with hlt | hge
      · -- a last digit comes early
        exact ih fuel hpos (Nat.lt_of_lt_of_le hlt (Nat.le_self_pow (by omega) 128)) hfuel
          (by omega) h
      · obtain ⟨fuel, rfl⟩ : ∃ j, fuel = j + 1 := ⟨fuel - 1, by omega⟩
        obtain ⟨c₁, hput, h₁⟩ :=
          h.put (UInt8.ofNat (length % 128 + 128)) (by omega) (by omega)
        -- one digit is out, and the rest of the length has one digit less
        have hdiv : length / 128 < 128 ^ (k + 1) := by
          rw [Nat.div_lt_iff_lt_mul (by decide)]
          rwa [Nat.pow_succ 128 (k + 1)] at hlength
        obtain ⟨c', hrest, h'⟩ := ih fuel (by omega) hdiv (by omega)
          (by rw [List.length_append, List.length_singleton]; omega) h₁
        refine ⟨c', ?_, ?_⟩
        · rw [Publish.encodeLength, if_pos hpos, if_pos (by omega), or_128, hput]
          exact hrest
        · rw [VarInt.encode_of_le hge, List.append_cons]
          exact h'

/-- The digits the loop of `Publish::SendOn` leaves: none for a length of 0. -/
def lengthDigits (length : Nat) : List UInt8 :=
  if length = 0 then [] else VarInt.encode length

theorem Publish.remainingLength_lt (publish : Publish) : publish.remainingLength < 2 ^ 31 := by
  unfold remainingLength
  show (if _ < 2 ^ 31 then _ else 0) < 2 ^ 31
  split
  · assumption
  · decide

theorem length_lengthDigits_le {length : Nat} (h : length < 2 ^ 31) :
    (lengthDigits length).length ≤ 5 := by
  unfold lengthDigits
  split
  · exact Nat.zero_le 5
  · exact VarInt.length_encode_le (k := 4) (by omega)

theorem encodeLength_digits {length : Nat} {c : Cursor 256} {l : List UInt8}
    (hlength : length < 2 ^ 31) (hroom : l.length < 250) (h : c.Holds l) :
    ∃ c', Publish.encodeLength (length + 1) length c = some c' ∧
      c'.Holds (l ++ lengthDigits length) := by
  rcases Nat.eq_zero_or_pos length with rfl | hpos
  · refine ⟨c, rfl, ?_⟩
    rwa [lengthDigits, if_pos rfl, List.append_nil]
  · rw [lengthDigits, if_neg (Nat.ne_of_gt hpos)]
    exact encodeLength_holds (k := 4) (length + 1) hpos (by omega) (by omega) (by omega) h

/-- The header of a PUBLISH, for a payload of any size. -/
def Publish.sentHeader (publish : Publish) : List UInt8 :=
  0x30 :: (lengthDigits publish.remainingLength ++
    0 :: UInt8.ofNat publish.topic.length :: publish.topic.bytes)

/-- A header whose topic fits is encoded within the buffer. -/
theorem Publish.header_sent (publish : Publish) (buffer : List.Vector UInt8 256)
    (htopic : publish.topic.length ≤ 128) :
    ∃ c, publish.header buffer = some c ∧ c.Holds publish.sentHeader := by
  have hdigits := length_lengthDigits_le publish.remainingLength_lt
  obtain ⟨c₁, hc₁, h₁⟩ := (Cursor.holds_start buffer).put 0x30 (by decide) (by decide)
  obtain ⟨c₂, hc₂, h₂⟩ := encodeLength_digits publish.remainingLength_lt (by decide) h₁
  obtain ⟨c₃, c₄, c₅, hc₃, hc₄, hc₅, h₅⟩ := holds_putString h₂ publish.topic htopic (by decide)
    (by simp only [List.length_append, List.length_nil, List.length_singleton]; omega)
    (by simp only [List.length_append, List.length_nil, List.length_singleton]; omega)
  refine ⟨c₅, ?_, ?_⟩
  · simp only [header, hc₁, hc₂, hc₃, hc₄, hc₅, Option.bind_eq_bind, Option.bind_some]
  · rw [wireString_bytes htopic (by decide)] at h₅
    simpa [sentHeader] using h₅

theorem Publish.length_sentHeader_le {publish : Publish} (htopic : publish.topic.length ≤ 128) :
    publish.sentHeader.length ≤ 136 := by
  have hdigits := length_lengthDigits_le publish.remainingLength_lt
  have hlen := StringBuffer.length_bytes htopic
  rw [sentHeader, List.length_cons, List.length_append, List.length_cons, List.length_cons]
  omega

/-- The header where the 31 bits of the length have room for the size. -/
theorem Publish.sentHeader_eq {publish : Publish} (htopic : publish.topic.length ≤ 128)
    (hsize : 2 + publish.topic.length + publish.payloadBytes < 2 ^ 31) :
    publish.sentHeader = publishHeader publish.topic.bytes publish.payloadBytes := by
  have hlen := StringBuffer.length_bytes htopic
  have hremaining : publish.remainingLength =
      2 + publish.topic.length + publish.payloadBytes := by
    unfold remainingLength
    rw [Nat.mod_eq_of_lt (by omega)]
    exact if_pos hsize
  rw [sentHeader, publishHeader, lengthDigits, hremaining, if_neg (by omega), hlen,
    wireString_bytes htopic (by decide)]

/-- `Publish::SendOn` writes the header, and the payload if that succeeds. -/
theorem Publish.sendOn_eq {W : Type} [Network W] {publish : Publish} {payload : List UInt8}
    (htopic : publish.topic.length ≤ 128) (hpayload : payload.length = publish.payloadBytes)
    (conn : ClientConnection) :
    (publish.sendOn conn payload : ServerM W Bool) = (do
      if ← conn.writePartial publish.sentHeader then conn.write payload else return false) := by
  obtain ⟨c, hc, hholds⟩ := publish.header_sent (List.Vector.replicate 256 0) htopic
  have hroom : c.current < 256 := by
    have := length_sentHeader_le htopic
    rw [hholds.current_eq]
    omega
  have htake : payload.take publish.payloadBytes = payload := by
    rw [← hpayload, List.take_length]
  rw [sendOn, hc]
  simp only [Prog.check, if_pos hroom, hholds.sent_eq, htake]
  rfl

/-- A frame that was made is written. -/
theorem writeFrame_eq {W : Type} [Network W] {cap : Nat} {frame : Option (Cursor cap)}
    {bytes : List UInt8} (h : ∃ c, frame = some c ∧ c.Holds bytes) (conn : ClientConnection) :
    (writeFrame conn frame : ServerM W Bool) = conn.write bytes := by
  obtain ⟨c, rfl, hholds⟩ := h
  rw [← hholds.sent_eq]
  rfl

/-! ### Writing on a reliable network -/

variable {W : Type} [ReliableNetwork W] {m m₁ m' : Machine W} {E : Fault → Prop}
variable {conn : ClientConnection}

/-- The writes `ws` were made, and nothing else happened. -/
structure Wrote (ws : List Write) (m m' : Machine W) : Prop where
  written : m'.written = m.written ++ ws
  heapCopies : m'.heapCopies = m.heapCopies
  input : ∀ s, input s m'.net = StreamNetwork.input s m.net

theorem Wrote.refl (m : Machine W) : Wrote [] m m :=
  ⟨(List.append_nil _).symm, rfl, fun _ => rfl⟩

theorem Wrote.trans {ws ws' : List Write} (h : Wrote ws m m₁) (h' : Wrote ws' m₁ m') :
    Wrote (ws ++ ws') m m' where
  written := by rw [h'.written, h.written, List.append_assoc]
  heapCopies := h'.heapCopies.trans h.heapCopies
  input s := (h'.input s).trans (h.input s)

theorem wp_write_wrote (bytes : List UInt8) :
    wp (conn.write bytes) (fun r m' => r = true ∧ Wrote [⟨conn, bytes, true⟩] m m') E m := by
  have haccepted := ReliableNetwork.write_succeeds conn.socket bytes m.net
  rw [wp_write, haccepted]
  exact ⟨rfl, rfl, rfl, fun _ => write_input⟩

theorem wp_writePartial_wrote (bytes : List UInt8) :
    wp (conn.writePartial bytes) (fun r m' => r = true ∧ Wrote [⟨conn, bytes, true⟩] m m')
      E m := by
  have haccepted := ReliableNetwork.writePartial_succeeds conn.socket bytes m.net
  rw [wp_writePartial, haccepted]
  exact ⟨rfl, rfl, rfl, fun _ => writePartial_input⟩

/-- A send that succeeds, as a run. -/
theorem exists_sent {x : ServerM W Bool} {ws : List Write}
    (h : wp x (fun r m' => r = true ∧ Wrote ws m m') (fun _ => False) m) :
    ∃ m', x m = .ok (true, m') ∧ Wrote ws m m' := by
  obtain ⟨_, m', hrun, rfl, hwrote⟩ := h.exists_ok
  exact ⟨m', hrun, hwrote⟩

theorem ConnectAck.sendOn_wrote (ack : ConnectAck) :
    wp (ack.sendOn conn)
      (fun r m' => r = true ∧
        Wrote [⟨conn, framed 0x20 [0, if ack.error then 0x80 else 0], true⟩] m m') E m := by
  rw [sendOn, writeFrame_eq (ack.frame_holds _)]
  exact wp_write_wrote _

theorem SubscribeAck.sendOn_frame (ack : SubscribeAck)
    (hcount : ack.responsesCount.toNat ≤ 28) :
    wp (ack.sendOn conn)
      (fun r m' => r = true ∧
        Wrote [⟨conn, subackFrame ack.subscribePacketId ack.codes, true⟩] m m') E m := by
  obtain ⟨c, size, hc, hsent⟩ := ack.frame_sent (List.Vector.replicate 32 0) hcount
  rw [sendOn, hc, ← hsent]
  exact wp_write_wrote _

/-- The acknowledgement `HandleMessage` sends. -/
theorem SubscribeAck.sendOn_wrote (packetId : UInt16) :
    wp (SubscribeAck.sendOn { subscribePacketId := packetId, responsesCount := 1 } conn)
      (fun r m' => r = true ∧ Wrote [⟨conn, subackFrame packetId [0], true⟩] m m') E m :=
  SubscribeAck.sendOn_frame { subscribePacketId := packetId, responsesCount := 1 }
    (show (1 : UInt8).toNat ≤ 28 by decide)

theorem Publish.sendOn_wrote {publish : Publish} {payload : List UInt8}
    (htopic : publish.topic.length ≤ 128) (hpayload : payload.length = publish.payloadBytes)
    (hsize : 2 + publish.topic.length + publish.payloadBytes < 2 ^ 31) :
    wp (publish.sendOn conn payload)
      (fun r m' => r = true ∧
        Wrote [⟨conn, publishHeader publish.topic.bytes publish.payloadBytes, true⟩,
          ⟨conn, payload, true⟩] m m') E m := by
  rw [sendOn_eq htopic hpayload, sentHeader_eq htopic hsize, wp_bind]
  refine wp_imp (wp_writePartial_wrote _) ?_
  rintro _ m₁ ⟨rfl, h₁⟩
  rw [if_pos rfl]
  refine wp_imp (wp_write_wrote _) ?_
  rintro _ m₂ ⟨rfl, h₂⟩
  exact ⟨rfl, h₁.trans h₂⟩

end Gnat
