/-
Gnat/Inbox.lean

What a client reads of what the broker sends it.

A client of the library has the same readers as the broker: `receive` is one turn of
its loop, with the parser for the type of the packet.  `Told` is what the broker has to
say to a client, and each of its frames is read back as it (`receive_frame`).

From a stream of frames a client reads what is in them and then nothing, however often it
turns to it (`Finds`).  A stream can also end anywhere.  A topic or a payload that does not
arrive is noticed (`receive_cut`), the bytes of an answer are not, so one that is cut off
is read with zeros for them.  So from the start of a stream of frames a client reads the
frames that are whole, in order, and no publication in the turn after them
(`FindsWhole`); in turns after that it may take what is left of a cut frame for a header.
-/
import Gnat.Attempts
import Gnat.ClientPackets
import Gnat.Wifi

namespace Gnat

open Lib Prog StreamNetwork

/-! ### What there is to say -/

/-- What the broker tells a client in one packet. -/
inductive Told
  | connack (flags returnCode : UInt8)
  | suback (packetId : UInt16) (code : UInt8)
  | pingresp
  | publish (topic payload : List UInt8)
  deriving DecidableEq, Repr

namespace Told

def control : Told → UInt8
  | connack .. => 0x20
  | suback .. => 0x90
  | pingresp => 0xD0
  | publish .. => 0x30

def type : Told → PacketType
  | connack .. => .connack
  | suback .. => .suback
  | pingresp => .pingresp
  | publish .. => .publish

def body : Told → List UInt8
  | connack flags returnCode => [flags, returnCode]
  | suback packetId code => wireBytes packetId.toNat ++ [code]
  | pingresp => []
  | publish topic payload => wireString topic ++ payload

def frame (t : Told) : List UInt8 :=
  framed t.control t.body

/-- The topic fits into its buffer, and the size into the length field. -/
def Fits : Told → Prop
  | publish topic payload => topic.length ≤ 128 ∧ 2 + topic.length + payload.length < 2 ^ 28
  | _ => True

instance : (t : Told) → Decidable t.Fits
  | connack .. | suback .. | pingresp => isTrue trivial
  | publish topic payload =>
      inferInstanceAs (Decidable (topic.length ≤ 128 ∧
        2 + topic.length + payload.length < 2 ^ 28))

def IsPublish : Told → Prop
  | publish .. => True
  | _ => False

theorem controlType_control (t : Told) : controlType t.control = t.type := by
  cases t with
  | connack =>
      show controlType 0x20 = .connack
      decide
  | suback =>
      show controlType 0x90 = .suback
      decide
  | pingresp => decide
  | publish =>
      show controlType 0x30 = .publish
      decide

theorem frame_pingresp : pingresp.frame = [0xD0, 0] := by
  show framed 0xD0 [] = _
  rw [framed, List.length_nil, VarInt.encode_of_lt (by decide)]
  rfl

theorem Fits.body_length {t : Told} (h : t.Fits) : t.body.length < 2 ^ 28 := by
  cases t with
  | connack | suback | pingresp => simp [body, wireBytes]
  | publish topic payload =>
      rw [body, List.length_append, length_wireString]
      exact h.2

/-- The frame as one of the stream. -/
def toFrame (t : Told) (h : t.Fits) : Frame :=
  .ofBody t.control t.body h.body_length

end Told

/-! ### A client -/

section

variable {W : Type} [Network W]

/-- What a packet tells a client, with the parser for its type. -/
def readTold (p : Packet) : ServerM W (Option Told × Packet) := do
  match p.type with
  | .connack =>
    let (ack, p) ← ConnectAck.readFrom p
    return (ack.map fun ack => .connack ack.flags ack.returnCode, p)
  | .suback =>
    let (ack, p) ← SubscribeAck.readFrom p
    return (ack.map fun ack => .suback ack.subscribePacketId (ack.responses.head), p)
  | .pingresp => return (some .pingresp, p)
  | .publish =>
    match ← Publish.readFrom p p.typeFlags with
    | (none, p) => return (none, p)
    | (some publish, p) =>
      let (payload, p) ← p.read publish.payloadBytes
      return (payload.map fun payload => .publish publish.topic.bytes payload.toList, p)
  | _ => return (none, p)

/-- A turn of a client's loop. -/
def receive (target : Target) (conn : ClientConnection) : ServerM W (Option Told) := do
  match ← Packet.readNext target conn with
  | none => return none
  | some p =>
    let (told, p) ← readTold p
    p.destroy
    return told

/-- As many turns as given, and what each of them tells. -/
def receiveTimes (target : Target) (conn : ClientConnection) :
    Nat → ServerM W (List (Option Told))
  | 0 => return []
  | n + 1 => do
    let told ← receive target conn
    let more ← receiveTimes target conn n
    return told :: more

end

variable {W : Type} [ReliableNetwork W] {target : Target} {conn : ClientConnection} {n : Nat}
variable {more rest : List UInt8} {p : Packet} {m : Machine W} {E : Fault → Prop} {t : Told}

/-! ### Whole frames -/

theorem At.connack {flags returnCode : UInt8}
    (h : At conn n (flags :: returnCode :: more) rest p m) :
    wp (ConnectAck.readFrom p)
      (fun r m' => r.1 = some { flags, returnCode } ∧ At conn n more rest r.2 m') E m := by
  simp only [ConnectAck.readFrom, wp_bind]
  refine wp_imp (h.readUInt8 _) ?_
  rintro ⟨_, _, p₁⟩ m₁ ⟨rfl, rfl, h₁⟩
  rw [if_pos rfl, wp_bind]
  refine wp_imp (h₁.readUInt8 _) ?_
  rintro ⟨_, _, p₂⟩ m₂ ⟨rfl, rfl, h₂⟩
  exact ⟨rfl, h₂⟩

/-- At the start of its body a packet tells what it is for. -/
theorem readTold_whole (ht : t.Fits) (hcontrol : p.control = t.control)
    (h : At conn n t.body rest p m) :
    wp (readTold p) (fun r m' => r.1 = some t ∧ At conn n [] rest r.2 m') E m := by
  unfold readTold
  rw [Packet.type, hcontrol, t.controlType_control]
  cases t with
  | connack flags returnCode =>
      show wp (ConnectAck.readFrom p >>= _) _ E m
      rw [wp_bind]
      apply wp_imp h.connack
      rintro ⟨_, p₁⟩ m₁ ⟨rfl, h₁⟩
      exact ⟨rfl, h₁⟩
  | suback packetId code =>
      show wp (SubscribeAck.readFrom p >>= _) _ E m
      rw [wp_bind]
      apply wp_imp (SubscribeAck.at_readFrom h)
      rintro ⟨_, p₁⟩ m₁ ⟨rfl, h₁⟩
      exact ⟨rfl, h₁⟩
  | pingresp => exact ⟨rfl, h⟩
  | publish topic payload =>
      have hflags : p.typeFlags = 0 := by
        rw [Packet.typeFlags, hcontrol]
        show controlFlags 0x30 = 0
        decide
      show wp (Publish.readFrom p p.typeFlags >>= _) _ E m
      have hbody : At conn n ((Message.publish topic 0 payload).body 0) rest p m := h
      rw [hflags, wp_bind]
      apply wp_imp (hbody.publish ht.1)
      rintro ⟨_, p₁⟩ m₁ ⟨rfl, h₁⟩
      have h₁ : At conn n (payload ++ []) rest p₁ m₁ := by rwa [List.append_nil]
      simp only [wp_bind]
      apply wp_imp (h₁.read rfl)
      rintro ⟨_, p₂⟩ m₂ ⟨rfl, h₂⟩
      refine ⟨?_, h₂⟩
      show some (Told.publish (publishOf topic payload).topic.bytes payload) = _
      rw [publishOf_bytes ht.1]

/-- **A whole frame** is read as what it is for, and the client stands behind it. -/
theorem receive_frame (ht : t.Fits) (hin : input conn.socket m.net = t.frame ++ rest) :
    wp (receive target conn) (fun r m' => r = some t ∧ input conn.socket m'.net = rest) E m := by
  have hin : input conn.socket m.net = (t.toFrame ht).header ++ (t.body ++ rest) := by
    rw [← List.append_assoc]
    exact hin
  rw [receive, wp_bind]
  apply wp_imp (readNext_frame (t.toFrame ht) hin)
  rintro _ m₁ ⟨rfl, h₁⟩
  have hat : At conn m.heapCopies t.body rest ((t.toFrame ht).packet conn) m₁ :=
    ⟨rfl, rfl, h₁.rest hin, h₁.heapCopies⟩
  rw [wp_bind]
  apply wp_imp (readTold_whole ht rfl hat)
  rintro ⟨_, p₂⟩ m₂ ⟨rfl, h₂⟩
  have hnone : ¬ 0 < p₂.bytesRemaining := by
    rw [h₂.size]
    exact Nat.lt_irrefl 0
  rw [wp_bind, Packet.destroy, if_neg hnone]
  exact ⟨rfl, h₂.front⟩

/-! ### Frames that are cut off -/

/-- A read of more than there is fails. -/
theorem read_short {socket size : Nat} {w : W} (h : (input socket w).length < size) :
    (Network.read socket size w).1 = none := by
  rcases hr : Network.read socket size w with ⟨- | bytes, w'⟩
  · rfl
  · have hlength := congrArg List.length (read_some hr)
    rw [List.length_append, List.Vector.toList_length] at hlength
    omega

/-- A length that is cut off is not read. -/
theorem readVariableByteLoop_cut {digits : List UInt8} (hdigits : VarInt.IsNumeral digits)
    {k fuel out : Nat} (hk : k + digits.length ≤ 4)
    (hfuel : (input conn.socket m.net).length < fuel)
    (hin : input conn.socket m.net <+: digits)
    (hshort : (input conn.socket m.net).length < digits.length) :
    wp (readVariableByteLoop target conn fuel ((128 ^ k : Nat) : Int) out)
      (fun r _ => r.1 = false) E m := by
  induction digits generalizing k fuel out m with
  | nil => exact absurd hshort (Nat.not_lt_zero _)
  | cons b l ih =>
      obtain ⟨fuel, rfl⟩ := Nat.exists_eq_add_of_le' (by omega : 1 ≤ fuel)
      rw [List.length_cons] at hk hshort
      rcases List.prefix_cons_iff.mp hin with hnone | ⟨part, hpart, hrest⟩
      -- nothing is left of the stream
      · have hlost : (Network.read conn.socket 1 m.net).1 = none := by
          apply read_short
          rw [hnone]
          exact Nat.one_pos
        simp only [readVariableByteLoop, wp_bind, wp_read, hlost]
        exact rfl
      · rw [hpart, List.length_cons] at hfuel hshort
        have hne : l ≠ [] := by
          intro hl
          rw [hl] at hshort
          exact absurd hshort (by simp)
        obtain ⟨hge, hl⟩ := (VarInt.isNumeral_cons hne).mp hdigits
        have hpow : 128 ^ k ≤ 128 ^ 3 := Nat.pow_le_pow_right (by decide) (by omega)
        have hdigit : b.toNat % 128 < 128 := Nat.mod_lt _ (by decide)
        have hproduct : b.toNat % 128 * 128 ^ k ≤ 127 * 128 ^ k :=
          Nat.mul_le_mul_right _ (by omega)
        have hmul : target.intMul ((b.toNat % 128 : Nat) : Int) ((128 ^ k : Nat) : Int) =
            .ok ((b.toNat % 128 * 128 ^ k : Nat) : Int) :=
          Target.intMul_natCast (by omega)
        have hnext : target.intMul ((128 ^ k : Nat) : Int) 128 =
            .ok ((128 ^ (k + 1) : Nat) : Int) :=
          Target.intMul_natCast (a := 128 ^ k) (b := 128) (by omega)
        simp only [readVariableByteLoop, wp_bind]
        apply wp_imp (wp_read_byte hpart)
        rintro _ m₁ ⟨rfl, h₁⟩
        have hinput : input conn.socket m₁.net = part := h₁.rest hpart
        have hhead : List.Vector.head (⟨[b], rfl⟩ : List.Vector UInt8 1) = b := rfl
        simp only [hhead, wp_bind, wp_ofExcept, hmul, hnext, wp_ite]
        rw [if_neg (Nat.not_lt.mpr hge)]
        apply ih hl (by omega) <;> rw [hinput]
        · omega
        · exact hrest
        · omega

/-- Nor is a header. -/
theorem readNext_cut (f : Frame) (hin : input conn.socket m.net <+: f.header)
    (hshort : (input conn.socket m.net).length < f.header.length) :
    wp (Packet.readNext target conn) (fun r _ => r = none) E m := by
  have hno : ∀ {m₁ : Machine W}, input conn.socket m₁.net <+: f.lengthBytes →
      (input conn.socket m₁.net).length < f.lengthBytes.length →
      wp (readVariableByteInteger target conn) (fun r _ => r.1 = false) E m₁ := by
    intro m₁ hin hshort
    have hfuel : (input conn.socket m₁.net).length <
        Network.pending conn.socket m₁.net + 1 := by
      rw [pending_eq]
      exact Nat.lt_succ_self _
    have h : wp (readVariableByteLoop target conn _ ((128 ^ 0 : Nat) : Int) 0) _ E m₁ :=
      readVariableByteLoop_cut f.numeral (by have := f.length_le; omega) hfuel hin hshort
    simpa only [readVariableByteInteger, wp, Nat.pow_zero, Nat.cast_one] using h
  simp only [Packet.readNext, FixedHeader.readFrom, readUInt8, readBytes, readBytesLoop,
    wp_bind, Client.read]
  rcases List.prefix_cons_iff.mp hin with hnone | ⟨part, hpart, hrest⟩
  -- a control byte that is not there is taken for 0
  · have hlost : (Network.read conn.socket 1 m.net).1 = none := by
      apply read_short
      rw [hnone]
      exact Nat.one_pos
    have hbehind : input conn.socket (Network.read conn.socket 1 m.net).2 = [] := by
      rw [read_none (Prod.ext hlost rfl), hnone]
    simp only [wp_read, hlost, wp_pure, if_true, wp_bind]
    apply wp_imp (hno ?_ ?_)
    · rintro ⟨_, _⟩ m₁ rfl
      exact rfl
    · rw [hbehind]
      exact List.nil_prefix
    · rw [hbehind]
      apply List.length_pos_of_ne_nil
      intro hnil
      exact (hnil ▸ f.numeral : VarInt.IsNumeral [])
  · apply wp_imp (wp_read_byte hpart)
    rintro _ m₁ ⟨rfl, h₁⟩
    have hinput : input conn.socket m₁.net = part := h₁.rest hpart
    simp only [wp_pure, if_true, wp_bind]
    apply wp_imp (hno ?_ ?_)
    · rintro ⟨_, _⟩ m₂ rfl
      exact rfl
    · rwa [hinput]
    · rw [hpart] at hshort
      rw [hinput]
      exact Nat.lt_of_succ_lt_succ hshort

/-- The stream ends inside of what the packet still has to read. -/
structure Cut (conn : ClientConnection) (body : List UInt8) (p : Packet) (m : Machine W) :
    Prop where
  connection : p.connection = conn
  size : p.bytesRemaining = body.length
  front : input conn.socket m.net <+: body
  short : (input conn.socket m.net).length < body.length

theorem not_cut_nil (h : Cut conn [] p m) : False :=
  absurd h.short (Nat.not_lt_zero _)

/-- A field arrives whole, and then the cut is behind it, or not at all. -/
theorem Cut.read {taken : List UInt8} {size : Nat} (h : Cut conn (taken ++ more) p m)
    (hsize : taken.length = size) :
    wp (p.read size)
      (fun r m' => r.1 = some ⟨taken, hsize⟩ ∧ Cut conn more r.2 m' ∨ r.1 = none) E m := by
  obtain ⟨rfl, hremaining, hfront, hshort⟩ := h
  rw [List.length_append] at hremaining hshort
  simp only [Packet.read, wp_bind, wp_check, wp_read]
  rw [if_pos (by omega)]
  rcases Nat.lt_or_ge (input p.connection.socket m.net).length size with hlt | hge
  · rw [read_short hlt]
    exact .inr rfl
  · have htaken : taken <+: input p.connection.socket m.net := by
      apply List.prefix_of_prefix_length_le (List.prefix_append taken more) hfront
      rwa [hsize]
    obtain ⟨part, hpart⟩ := htaken
    obtain ⟨hread, hbehind⟩ := read_front hpart.symm hsize
      (ReliableNetwork.read_succeeds hge)
    rw [← hpart] at hfront hshort
    rw [List.length_append] at hshort
    rw [hread]
    refine .inl ⟨rfl, rfl, ?_, ?_, ?_⟩
    · show p.bytesRemaining - size = more.length
      omega
    · rw [hbehind]
      exact (List.prefix_append_right_inj taken).mp hfront
    · rw [hbehind]
      omega

theorem Cut.client_read {taken : List UInt8} (size : Nat) (h : Cut conn (taken ++ more) p m)
    (hsize : taken.length = size) :
    wp (Client.read p size)
      (fun r m' => r.1 = some ⟨taken, hsize⟩ ∧ Cut conn more r.2 m' ∨ r.1 = none) E m :=
  h.read hsize

theorem Cut.readString {size : Nat} {s : List UInt8} (out : StringBuffer size)
    (h : Cut conn (wireString s ++ more) p m) (hs : s.length ≤ size) (hsize : size < 2 ^ 16) :
    wp (Gnat.readString out p)
      (fun r m' => r.1 = true ∧ r.2.1 = ⟨StringBuffer.fill out.data s, s.length⟩ ∧
        Cut conn more r.2.2 m' ∨ r.1 = false) E m := by
  rw [wireString, List.append_assoc] at h
  simp only [Gnat.readString, wp_bind]
  apply wp_imp (h.client_read 2 rfl)
  rintro ⟨_, p₁⟩ m₁ (⟨rfl, h₁⟩ | rfl)
  · have hlength : wireUInt16 (UInt8.ofNat (s.length / 256)) (UInt8.ofNat s.length) =
        s.length := wireUInt16_wireBytes (by omega)
    show wp (readStringBytes out (wireUInt16 (UInt8.ofNat (s.length / 256))
      (UInt8.ofNat s.length)) p₁) _ E m₁
    rw [hlength]
    simp only [readStringBytes, wp_ite, wp_bind]
    rw [if_neg (Nat.not_lt.mpr hs)]
    apply wp_imp (h₁.client_read s.length rfl)
    rintro ⟨_, p₂⟩ m₂ (⟨rfl, h₂⟩ | rfl)
    · exact .inl ⟨rfl, rfl, h₂⟩
    · exact .inr rfl
  · exact .inr rfl

omit [ReliableNetwork W] in
/-- Bytes that fail to arrive are not taken off the packet. -/
theorem readBytesLoop_room [Network W] (count : Nat) (out : List UInt8)
    (h : count ≤ p.bytesRemaining) :
    wp (readBytesLoop count out p) (fun r _ => p.bytesRemaining ≤ r.2.bytesRemaining + count)
      E m := by
  induction count generalizing out p m with
  | zero => exact Nat.le_refl _
  | succ count ih =>
      have hread : wp (Client.read p 1)
          (fun r _ => p.bytesRemaining ≤ r.2.bytesRemaining + 1) E m := by
        show wp (p.read 1) _ E m
        simp only [Packet.read, wp_bind, wp_check, wp_read]
        rw [if_pos (by omega)]
        rcases (Network.read p.connection.socket 1 m.net).1 with - | bytes
        · exact Nat.le_succ _
        · show p.bytesRemaining ≤ p.bytesRemaining - 1 + 1
          omega
      simp only [readBytesLoop, wp_bind]
      apply wp_imp hread
      rintro ⟨byte, p₁⟩ m₁ hp₁
      have hp₁ : p.bytesRemaining ≤ p₁.bytesRemaining + 1 := hp₁
      apply wp_imp (ih _ (by omega))
      intro r _ hr
      omega

/-- In front of the end of its stream a packet tells of no publication. -/
theorem readTold_cut (ht : t.Fits) (hcontrol : p.control = t.control)
    (h : Cut conn t.body p m) :
    wp (readTold p) (fun r _ => ∀ told, r.1 = some told → ¬ told.IsPublish) E m := by
  unfold readTold
  rw [Packet.type, hcontrol, t.controlType_control]
  cases t with
  | connack flags returnCode =>
      have hroom : p.bytesRemaining = 2 := h.size
      show wp (ConnectAck.readFrom p >>= _) _ E m
      simp only [ConnectAck.readFrom, readUInt8, readBytes, wp_bind, wp_pure, if_true]
      apply wp_imp (readBytesLoop_room 1 _ (by omega))
      intro r₁ m₁ h₁
      apply wp_imp (readBytesLoop_room 1 _ (by omega))
      rintro r₂ m₂ - _ ⟨⟩
      exact not_false
  | suback packetId code =>
      have hroom : p.bytesRemaining = 3 := h.size
      show wp (SubscribeAck.readFrom p >>= _) _ E m
      simp only [SubscribeAck.readFrom, readUInt16, readUInt8, readBytes, wp_bind, wp_pure,
        if_true]
      apply wp_imp (readBytesLoop_room 2 _ (by omega))
      intro r₁ m₁ h₁
      apply wp_imp (readBytesLoop_room 1 _ (by omega))
      rintro r₂ m₂ - _ ⟨⟩
      exact not_false
  | pingresp => exact (not_cut_nil h).elim
  | publish topic payload =>
      have hflags : p.typeFlags = 0 := by
        rw [Packet.typeFlags, hcontrol]
        show controlFlags 0x30 = 0
        decide
      have hid : hasPacketId 0 = false := by decide
      show wp (Publish.readFrom p p.typeFlags >>= _) _ E m
      rw [hflags]
      simp only [Publish.readFrom, wp_bind, hid]
      apply wp_imp (h.readString _ ht.1 (by decide))
      rintro ⟨_, _, p₁⟩ m₁ (⟨rfl, rfl, h₁⟩ | rfl)
      · have h₁' : Cut conn (payload ++ []) p₁ m₁ := by rwa [List.append_nil]
        have hsize : payload.length = p₁.bytesRemaining := h₁.size.symm
        rw [if_pos rfl, if_neg Bool.false_ne_true]
        simp only [wp_pure, wp_bind]
        apply wp_imp (h₁'.read hsize)
        rintro ⟨_, p₂⟩ m₂ (⟨-, h₂⟩ | rfl)
        · exact (not_cut_nil h₂).elim
        · rintro _ ⟨⟩
      · rintro _ ⟨⟩

/-- **A frame that is cut off** tells of no publication. -/
theorem receive_cut (ht : t.Fits) (hin : input conn.socket m.net <+: t.frame)
    (hshort : (input conn.socket m.net).length < t.frame.length) :
    wp (receive target conn) (fun r _ => ∀ told, r = some told → ¬ told.IsPublish) E m := by
  have hframe : t.frame = (t.toFrame ht).header ++ t.body := rfl
  rw [receive, wp_bind]
  rcases Nat.lt_or_ge (input conn.socket m.net).length (t.toFrame ht).header.length
    with hlt | hge
  -- not even the header is there
  · have hfront : input conn.socket m.net <+: (t.toFrame ht).header := by
      apply List.prefix_of_prefix_length_le hin _ hlt.le
      rw [hframe]
      exact List.prefix_append _ _
    apply wp_imp (readNext_cut (t.toFrame ht) hfront hlt)
    rintro _ m₁ rfl _ ⟨⟩
  · have hheader : (t.toFrame ht).header <+: input conn.socket m.net := by
      apply List.prefix_of_prefix_length_le _ hin hge
      rw [hframe]
      exact List.prefix_append _ _
    obtain ⟨part, hpart⟩ := hheader
    apply wp_imp (readNext_frame (t.toFrame ht) hpart.symm)
    rintro _ m₁ ⟨rfl, h₁⟩
    have hinput := h₁.rest hpart.symm
    rw [hframe, ← hpart] at hin hshort
    rw [List.length_append, List.length_append] at hshort
    have hcut : Cut conn t.body ((t.toFrame ht).packet conn) m₁ := by
      refine ⟨rfl, rfl, ?_, ?_⟩
      · rw [hinput]
        exact (List.prefix_append_right_inj _).mp hin
      · rw [hinput]
        omega
    rw [wp_bind]
    apply wp_imp (readTold_cut ht rfl hcut)
    rintro ⟨told, p₂⟩ m₂ hnone
    rw [wp_bind]
    have hdestroy : wp (p₂.destroy : ServerM W Unit) (fun _ _ => True) E m₂ := by
      unfold Packet.destroy
      rw [wp_ite]
      split
      · simp only [wp_bind, wp_drain, wp_pure]
      · trivial
    apply wp_imp hdestroy
    intro _ m₃ _
    exact hnone

theorem read_end (hin : input conn.socket m.net = []) :
    (Network.read conn.socket 1 m.net).1 = none ∧
      Wrote [] m { m with net := (Network.read conn.socket 1 m.net).2 } := by
  have hnone : (Network.read conn.socket 1 m.net).1 = none := by
    apply read_short
    rw [hin]
    exact Nat.one_pos
  refine ⟨hnone, (List.append_nil _).symm, rfl, fun socket => ?_⟩
  by_cases hs : socket = conn.socket
  · subst hs
    exact read_none (Prod.ext hnone rfl)
  · exact read_other hs

theorem readVariableByteLoop_end {fuel out : Nat} {multiplier : Int}
    (hin : input conn.socket m.net = []) :
    wp (readVariableByteLoop target conn (fuel + 1) multiplier out)
      (fun r m' => r.1 = false ∧ Wrote [] m m') E m := by
  obtain ⟨hlost, hwrote⟩ := read_end hin
  simp only [readVariableByteLoop, wp_bind, wp_read, hlost]
  exact ⟨rfl, hwrote⟩

theorem readVariableByteInteger_end (hin : input conn.socket m.net = []) :
    wp (readVariableByteInteger target conn) (fun r m' => r.1 = false ∧ Wrote [] m m') E m := by
  have hloop : wp (readVariableByteLoop target conn (Network.pending conn.socket m.net + 1) 1 0)
      _ E m := readVariableByteLoop_end hin
  unfold wp at hloop ⊢
  rw [readVariableByteInteger]
  exact hloop

/-- At the end of a stream there is no packet. -/
theorem readNext_end (hin : input conn.socket m.net = []) :
    wp (Packet.readNext target conn) (fun r m' => r = none ∧ Wrote [] m m') E m := by
  obtain ⟨hlost, hwrote⟩ := read_end hin
  -- the control byte is taken for 0, and the length is not there
  simp only [Packet.readNext, FixedHeader.readFrom, readUInt8, readBytes, readBytesLoop,
    Client.read, wp_bind, wp_read, hlost, wp_pure, if_true]
  apply wp_imp (readVariableByteInteger_end ((hwrote.input _).trans hin))
  rintro ⟨_, _⟩ m₁ ⟨rfl, hwrote₁⟩
  exact ⟨rfl, hwrote.trans hwrote₁⟩

/-- At the end of its stream a client is told nothing. -/
theorem receive_end (hin : input conn.socket m.net = []) :
    wp (receive target conn) (fun r m' => r = none ∧ input conn.socket m'.net = []) E m := by
  unfold receive
  rw [wp_bind]
  apply wp_imp (readNext_end hin)
  rintro _ m₁ ⟨rfl, hwrote⟩
  exact ⟨rfl, (hwrote.input _).trans hin⟩

/-! ### Streams of frames -/

/-- `whole` is what the frames tell that are in the bytes from start to end. -/
structure WholeIn (bytes : List UInt8) (told whole : List Told) : Prop where
  front : whole <+: told
  inside : whole.flatMap Told.frame <+: bytes
  next : ∀ t, whole ++ [t] <+: told → ¬ (whole ++ [t]).flatMap Told.frame <+: bytes

/-- A client with these bytes in its stream is told `whole`, one packet a turn, and in the
turn after that no publication. -/
def FindsWhole (bytes : List UInt8) (whole : List Told) : Prop :=
  ∀ (V : Type) [ReliableNetwork V] (target : Target) (conn : ClientConnection) (m : Machine V),
    input conn.socket m.net = bytes →
    ∃ m₁ r m₂, receiveTimes target conn whole.length m = .ok (whole.map some, m₁) ∧
      receive target conn m₁ = .ok (r, m₂) ∧ ∀ told, r = some told → ¬ told.IsPublish

/-- The bytes are frames, and a client with them in its stream is told what is in these,
one packet a turn, and nothing in any later turn. -/
structure Finds (bytes : List UInt8) (told : List Told) : Prop where
  frames : bytes = told.flatMap Told.frame
  turns : ∀ (V : Type) [ReliableNetwork V] (target : Target) (conn : ClientConnection)
    (m : Machine V), input conn.socket m.net = bytes → ∀ later,
    ∃ m', receiveTimes target conn (told.length + later) m =
      .ok (told.map some ++ List.replicate later none, m')

theorem WholeIn.cons {bytes : List UInt8} {told whole : List Told}
    (h : WholeIn bytes told whole) (t : Told) :
    WholeIn (t.frame ++ bytes) (t :: told) (t :: whole) where
  front := (List.prefix_cons_inj t).mpr h.front
  inside := (List.prefix_append_right_inj _).mpr h.inside
  next t' ht' hin := by
    rw [List.cons_append] at ht'
    exact h.next t' ((List.prefix_cons_inj t).mp ht')
      ((List.prefix_append_right_inj _).mp hin)

theorem FindsWhole.cons {bytes : List UInt8} {whole : List Told} (ht : t.Fits)
    (h : FindsWhole bytes whole) : FindsWhole (t.frame ++ bytes) (t :: whole) := by
  intro V _ target conn m hin
  have hreceive : wp (receive target conn) _ (fun _ => False) m := receive_frame ht hin
  obtain ⟨_, m₁, hfirst, rfl, hrest⟩ := hreceive.exists_ok
  obtain ⟨m₂, r, m₃, htimes, hlast, hnone⟩ := h V target conn m₁ hrest
  refine ⟨m₂, r, m₃, ?_, hlast, hnone⟩
  show receiveTimes target conn (whole.length + 1) m = _
  rw [receiveTimes, bind_of_ok hfirst, bind_of_ok htimes]
  rfl

theorem findsWhole_nothing {bytes : List UInt8} (ht : t.Fits) (hfront : bytes <+: t.frame)
    (hshort : bytes.length < t.frame.length) : FindsWhole bytes [] := by
  intro V _ target conn m hin
  have hreceive : wp (receive target conn) _ (fun _ => False) m :=
    receive_cut ht (by rwa [hin]) (by rwa [hin])
  obtain ⟨r, m₁, hlast, hnone⟩ := hreceive.exists_ok
  exact ⟨m, r, m₁, rfl, hlast, hnone⟩

/-- At the end of its stream a client is told nothing, however often it turns to it. -/
theorem receiveTimes_end (hin : input conn.socket m.net = []) (later : Nat) :
    ∃ m', receiveTimes target conn later m = .ok (List.replicate later none, m') := by
  induction later generalizing m with
  | zero => exact ⟨m, rfl⟩
  | succ later ih =>
      have hreceive : wp (receive target conn) _ (fun _ => False) m := receive_end hin
      obtain ⟨_, m₁, hfirst, rfl, hrest⟩ := hreceive.exists_ok
      obtain ⟨m', htimes⟩ := ih hrest
      refine ⟨m', ?_⟩
      rw [receiveTimes, bind_of_ok hfirst, bind_of_ok htimes]
      rfl

/-- **A stream of frames**: a client is told what is in them, and then nothing. -/
theorem finds_frames {told : List Told} (hfits : ∀ t ∈ told, t.Fits) :
    Finds (told.flatMap Told.frame) told := by
  refine ⟨rfl, fun V _ target conn m hin later => ?_⟩
  induction told generalizing m with
  | nil =>
      rw [List.length_nil, Nat.zero_add]
      exact receiveTimes_end hin later
  | cons t told ih =>
      obtain ⟨ht, hfits⟩ := List.forall_mem_cons.mp hfits
      have hreceive : wp (receive target conn) _ (fun _ => False) m := receive_frame ht hin
      obtain ⟨_, m₁, hfirst, rfl, hrest⟩ := hreceive.exists_ok
      obtain ⟨m', htimes⟩ := ih hfits m₁ hrest
      refine ⟨m', ?_⟩
      rw [List.length_cons, Nat.add_right_comm, receiveTimes, bind_of_ok hfirst,
        bind_of_ok htimes]
      rfl

/-- **The start of a stream of frames**: a client is told what is in the whole ones. -/
theorem exists_whole {told : List Told} (hfits : ∀ t ∈ told, t.Fits) {bytes : List UInt8}
    (h : bytes <+: told.flatMap Told.frame) :
    ∃ whole, WholeIn bytes told whole ∧ FindsWhole bytes whole := by
  induction told generalizing bytes with
  | nil =>
      obtain rfl := List.prefix_nil.mp h
      refine ⟨[], ⟨List.nil_prefix, List.nil_prefix, fun t ht => absurd ht (by simp)⟩, ?_⟩
      -- any frame is longer than this
      exact findsWhole_nothing (t := .pingresp) trivial List.nil_prefix (by decide)
  | cons t told ih =>
      obtain ⟨ht, hfits⟩ := List.forall_mem_cons.mp hfits
      rw [List.flatMap_cons] at h
      by_cases hframe : t.frame <+: bytes
      · obtain ⟨bytes, rfl⟩ := hframe
        obtain ⟨whole, hwhole, hfinds⟩ := ih hfits ((List.prefix_append_right_inj _).mp h)
        exact ⟨t :: whole, hwhole.cons t, hfinds.cons ht⟩
      · -- the first frame is cut off
        have hfront : bytes <+: t.frame := by
          refine (List.prefix_or_prefix_of_prefix h (List.prefix_append t.frame _)).resolve_right ?_
          exact hframe
        have hshort : bytes.length < t.frame.length := by
          refine Nat.lt_of_le_of_ne hfront.length_le fun hlength => hframe ?_
          rw [hfront.eq_of_length hlength]
        refine ⟨[], ⟨List.nil_prefix, List.nil_prefix, fun t' ht' hin => hframe ?_⟩,
          findsWhole_nothing ht hfront hshort⟩
        obtain rfl : t' = t := (List.cons_prefix_cons.mp ht').1
        simpa using hin

/-! ### What the broker sends -/

/-- What is said by an answer or a publication. -/
inductive Outgoing.Tells : Outgoing → Told → Prop
  | connack {via : ClientConnection} {returnCode : UInt8} {accepted : Bool} :
      Tells (.reply ⟨via, connackFrame returnCode, accepted⟩) (.connack 0 returnCode)
  | suback {via : ClientConnection} {packetId : UInt16} {accepted : Bool} :
      Tells (.reply ⟨via, subackFrame packetId [0], accepted⟩) (.suback packetId 0)
  | pingresp {via : ClientConnection} {accepted : Bool} :
      Tells (.reply ⟨via, [0xD0, 0], accepted⟩) .pingresp
  | publication {a : Attempt} :
      Tells (.publication a) (.publish a.publish.topic.bytes a.payload)

theorem Outgoing.Tells.frame_eq {o : Outgoing} (h : o.Tells t) (ht : t.Fits) :
    o.frame = t.frame := by
  cases h with
  | connack | suback => rfl
  | pingresp => exact Told.frame_pingresp.symm
  | @publication a =>
      have hlength := StringBuffer.length_bytes a.topic_le
      have hsize : 2 + a.publish.topic.bytes.length + a.payload.length < 2 ^ 28 := ht.2
      apply a.frame_eq
      rw [← hlength, ← a.payload_length]
      omega

/-- What is to be said, one message for each piece that goes out. -/
theorem exists_told {os : List Outgoing} (h : ∀ o ∈ os, ∃ t, o.Tells t ∧ t.Fits) :
    ∃ told, List.Forall₂ Outgoing.Tells os told ∧ (∀ t ∈ told, t.Fits) ∧
      os.flatMap Outgoing.frame = told.flatMap Told.frame := by
  induction os with
  | nil => exact ⟨[], .nil, List.forall_mem_nil _, rfl⟩
  | cons o os ih =>
      obtain ⟨⟨t, htells, ht⟩, hos⟩ := List.forall_mem_cons.mp h
      obtain ⟨told, hall, hfits, hframes⟩ := ih hos
      refine ⟨t :: told, .cons htells hall, List.forall_mem_cons.mpr ⟨ht, hfits⟩, ?_⟩
      rw [List.flatMap_cons, List.flatMap_cons, htells.frame_eq ht, hframes]

section

variable {K : Type} [DecidableEq K] [KeyType K] {b b' : Broker K} {r : RelayLabel K}
variable {rs : List (RelayLabel K)}

omit [DecidableEq K] [KeyType K] in
theorem Answer.tells {status : Status} {replies : List Write} (h : Answer p status replies) :
    ∀ w ∈ replies, ∃ t, (Outgoing.reply w).Tells t ∧ t.Fits := by
  cases h with
  | connack => exact List.forall_mem_singleton.mpr ⟨_, .connack, trivial⟩
  | suback => exact List.forall_mem_singleton.mpr ⟨_, .suback, trivial⟩
  | pingresp => exact List.forall_mem_singleton.mpr ⟨_, .pingresp, trivial⟩
  | closed | failed => exact List.forall_mem_nil _

theorem RelayStep.replies_tell (h : RelayStep target b r b') :
    ∀ w ∈ r.replies, ∃ t, (Outgoing.reply w).Tells t ∧ t.Fits := by
  cases h with
  | answered _ hanswer => exact hanswer.tells
  | subscribed => exact List.forall_mem_singleton.mpr ⟨_, .suback, trivial⟩
  | published | removed | network => exact List.forall_mem_nil _

theorem relay_replies_tell (h : Run (RelayStep target) b rs b') :
    ∀ r ∈ rs, ∀ w ∈ r.replies, ∃ t, (Outgoing.reply w).Tells t ∧ t.Fits := by
  induction h with
  | nil => exact List.forall_mem_nil _
  | cons hstep _ ih => exact List.forall_mem_cons.mpr ⟨hstep.replies_tell, ih⟩

/-- What a run sets came in a packet that was as large. -/
theorem relay_set (h : Run (RelayStep target) b rs b') {key : K} {entry : DataStoreEntry}
    (hset : .set key entry ∈ (relayOperations rs).map Prod.fst) :
    ∃ p status, .handled p status ∈ rs.map RelayLabel.label ∧ entry.length ≤ p.bytesRemaining := by
  induction h with
  | nil => cases hset
  | cons hstep _ ih =>
      rw [relayOperations, List.flatMap_cons, List.map_append, List.mem_append] at hset
      rcases hset with hhead | hrest
      · cases hstep with
        | answered | network => cases hhead
        | published _ _ hlength =>
            cases List.mem_singleton.mp hhead
            exact ⟨_, _, List.mem_cons_self, hlength⟩
        | subscribed | removed => cases List.mem_singleton.mp hhead
      · obtain ⟨p, status, hp, hlength⟩ := ih hrest
        exact ⟨p, status, List.mem_cons_of_mem _ hp, hlength⟩

/-- No packet has so many bytes that its payload might not fit into one with a topic of
another length. -/
def ShortPackets (ls : List Label) : Prop :=
  ∀ p status, .handled p status ∈ ls → p.bytesRemaining + 130 < 2 ^ 28

/-- What goes out in a run tells something that fits. -/
theorem relay_tells (h : Run (RelayStep target) {} rs b')
    (hshort : ShortPackets (rs.map RelayLabel.label)) :
    ∀ o ∈ rs.flatMap RelayLabel.outgoing, ∃ t, o.Tells t ∧ t.Fits := by
  have hattempts : ∀ a ∈ rs.flatMap RelayLabel.attempts,
      (Told.publish a.publish.topic.bytes a.payload).Fits := by
    intro a ha
    obtain ⟨c, hc, hsends⟩ := (relay_tries h).exists_call a ha
    -- what is tried was told to a watcher, and so it was set
    have hset := (Board.told_set (relay_board h) c hc).resolve_right (by simp)
    obtain ⟨p, status, hp, hlength⟩ := relay_set h hset
    have hsize := hshort p status hp
    have htopic := StringBuffer.length_bytes a.topic_le
    have htopic_le := a.topic_le
    have hpayload : a.payload.length ≤ p.bytesRemaining := by
      rw [hsends.payload, c.value.data_length]
      exact hlength
    constructor <;> omega
  intro o ho
  obtain ⟨r, hr, ho⟩ := List.mem_flatMap.mp ho
  rcases List.mem_append.mp ho with ho | ho
  · obtain ⟨w, hw, rfl⟩ := List.mem_map.mp ho
    exact relay_replies_tell h r hr w hw
  · obtain ⟨a, ha, rfl⟩ := List.mem_map.mp ho
    exact ⟨_, .publication, hattempts a (List.mem_flatMap_of_mem hr ha)⟩

/-- **What a client reads.**  On `WifiClient`s that fail for good, whatever arrives and
however calls are cut into pieces and fail: what the broker has to say to each client are
its answers and publications, in order; a client with the bytes it got reads with the
library's own parsers what is in the whole frames among them, one packet a turn, and no
publication in the turn after that; and while it is connected it reads all of them, and
then nothing. -/
theorem wifi_read_back [LawfulKeyType K] {net : Wifi}
    {s : ServerState K Wifi} {ls : List Label}
    (hnet : ∀ socket, (net.clients socket).Fresh)
    (hrun : Run (WifiStep target) (.initial K net) ls s)
    (hsmall : SmallWrites net.sizeMax s.machine) (hshort : ShortPackets ls) :
    ∃ rs b, Run (RelayStep target) {} rs b ∧ rs.map RelayLabel.label = ls ∧ Relays b s ∧
      s.machine.written = rs.flatMap RelayLabel.writes ∧
      ∀ socket, ∃ told whole,
        List.Forall₂ Outgoing.Tells
          ((rs.flatMap RelayLabel.outgoing).filter fun o => o.socket = socket) told ∧
        WholeIn (s.machine.net.clients socket).sent told whole ∧
        FindsWhole (s.machine.net.clients socket).sent whole ∧
        ((s.machine.net.clients socket).lost = false →
          Finds (s.machine.net.clients socket).sent told) := by
  obtain ⟨rs, b, hrs, rfl, h', hwritten⟩ := run_wifi_relays hrun
  refine ⟨rs, b, hrs, rfl, h', hwritten, fun socket => ?_⟩
  obtain ⟨hfront, hall⟩ := run_wifi_prefix hnet hrun hsmall hwritten socket
  have htells : ∀ o ∈ (rs.flatMap RelayLabel.outgoing).filter fun o => o.socket = socket,
      ∃ t, o.Tells t ∧ t.Fits := fun o ho =>
    relay_tells hrs hshort o (List.mem_filter.mp ho).1
  obtain ⟨told, htold, hfits, hframes⟩ := exists_told htells
  have hideal : idealStream socket rs = told.flatMap Told.frame := hframes
  rw [hideal] at hfront hall
  obtain ⟨whole, hwhole, hfinds⟩ := exists_whole hfits hfront
  refine ⟨told, whole, htold, hwhole, hfinds, fun hconnected => ?_⟩
  rw [hall hconnected]
  exact finds_frames hfits

end

/-- The client 7 reads its SUBACK, and has one byte of a payload left. -/
theorem wifi_read_back_conversation :
    ∃ (s : ServerState StdString Wifi) (rs : List (RelayLabel StdString)) (told whole : List Told),
      (s.machine.net.clients 1).sent =
        [0x90, 3, 0, 1, 0, 0x30, 5, 0, 1, 0x61, 0x68] ∧
      List.Forall₂ Outgoing.Tells
        ((rs.flatMap RelayLabel.outgoing).filter fun o => o.socket = 1) told ∧
      WholeIn (s.machine.net.clients 1).sent told whole ∧
      FindsWhole [0x90, 3, 0, 1, 0, 0x30, 5, 0, 1, 0x61, 0x68] whole := by
  obtain ⟨s, hrun, hsmall, hsent⟩ := conversationWifi_run
  have hshort : ShortPackets [.handled subscribeA .ok, .handled publishHi .ok] := by
    intro p status hp
    simp only [List.mem_cons, Label.handled.injEq, List.not_mem_nil, or_false] at hp
    rcases hp with ⟨rfl, -⟩ | ⟨rfl, -⟩ <;> decide
  obtain ⟨rs, b, -, -, -, -, hread⟩ :=
    wifi_read_back conversationWifi_fresh hrun hsmall hshort
  obtain ⟨told, whole, htold, hwhole, hfinds, -⟩ := hread 1
  exact ⟨s, rs, told, whole, hsent, htold, hwhole, hsent ▸ hfinds⟩

end Gnat
