/-
Gnat/Connecting.lean

How a CONNECT is answered.

The answer is a CONNACK whose return code depends on the packet that was read.
`ValidatesConnect` is what the test of the protocol name and the level is for;
`validatesConnect_iff` says for which packets it does that.  The name never
decides anything, because no name is equal to both of the names it is compared
with.  `HandlesUnreadable` is the same for a packet that could not be read, and
`not_handlesUnreadable` shows that no such packet is handled so: the level of
the packet that is not there is inspected all the same.
-/
import Gnat.Overrun
import Gnat.Sent

namespace Gnat

open Lib Prog

/-- A CONNACK with the given return code. -/
def connackFrame (returnCode : UInt8) : List UInt8 :=
  framed 0x20 [0, returnCode]

/-! ### The protocol name -/

/-- Strings that compare equal start with the same characters. -/
theorem prefix_of_strcmp (front : List UInt8) {rest memory : List UInt8} (hfront : 0 ∉ front)
    (hlength : front.length ≤ memory.length) (h : strcmp (front ++ rest) memory = 0) :
    front <+: memory := by
  induction front generalizing memory with
  | nil => exact List.nil_prefix
  | cons a front ih =>
      rw [List.mem_cons, not_or] at hfront
      obtain ⟨ha, hfront⟩ := hfront
      rcases memory with - | ⟨b, memory⟩
      · exact absurd hlength (Nat.not_succ_le_zero _)
      rw [List.cons_append, strcmp] at h
      split at h
      · next hab =>
        rw [hab.1]
        exact List.prefix_cons_inj b |>.mpr (ih hfront (Nat.le_of_succ_le_succ hlength) h)
      · next hab =>
        refine absurd ⟨?_, Ne.symm ha⟩ hab
        rw [← UInt8.toNat_inj]
        omega

theorem StringBuffer.length_memory {size : Nat} (buffer : StringBuffer size) :
    buffer.memory.length = size + 2 := by
  rw [memory, List.length_append, List.Vector.toList_length]
  rfl

/-- No name is equal to both names: they differ in their third character. -/
theorem wrongProtocol_some (connect : Connect) : wrongProtocol (some connect) = false := by
  rw [wrongProtocol, Bool.and_eq_false_iff, decide_eq_false_iff_not, decide_eq_false_iff_not,
    ← not_and_or]
  rintro ⟨hmqtt, hmqIsdp⟩
  have hlength : 3 ≤ connect.protocolName.memory.length := by
    rw [StringBuffer.length_memory]
    decide
  have hT := prefix_of_strcmp [0x4D, 0x51, 0x54] (by decide) hlength hmqtt
  have hI := prefix_of_strcmp [0x4D, 0x51, 0x49] (by decide) hlength hmqIsdp
  have heq := (List.prefix_of_prefix_length_le hT hI (Nat.le_refl 3)).eq_of_length rfl
  exact absurd heq (by decide)

/-! ### The answer -/

variable {W : Type} [Network W] {K : Type} [DecidableEq K] [KeyType K]

/-- `HandleMessage` answers with this return code: the CONNACK is written on the
connection of the packet, which `p'` is after the call, and the status tells how
that went. -/
def RepliesConnack (env : Env K) (store : Store K W) (p : Packet) (m : Machine W)
    (p' : Packet) (returnCode : UInt8) : Prop :=
  p'.connection.socket = p.connection.socket ∧
    ∃ accepted m', handleMessage env store p m = .ok ((replyStatus accepted, p', store), m') ∧
      m'.written = m.written ++ [⟨p'.connection, connackFrame returnCode, accepted⟩]

variable {env : Env K} {store : Store K W} {p p₁ : Packet} {m m₁ : Machine W}
variable {connect : Option Connect}

omit [DecidableEq K] [KeyType K] in
theorem ConnectAck.sendOn_eq (ack : ConnectAck) (conn : ClientConnection) :
    ack.sendOn conn = (conn.write (connackFrame (if ack.error then 0x80 else 0)) :
      ServerM W Bool) :=
  writeFrame_eq (ack.frame_holds _) conn

/-- What follows once a CONNECT was read, or was not. -/
theorem handleMessage_connect (store : Store K W) {level : UInt8} (hp : p.type = .connect)
    (hread : Connect.readFrom env.target p m = .ok ((connect, p₁), m₁))
    (hlevel : protocolLevelOf env.target connect = .ok level) :
    RepliesConnack env store p m (setConnectionType p₁ (connectionTypeOf level))
      (if wrongProtocol connect || (connectionTypeOf level).isNone then 0x80 else 0) := by
  have hsame := ((Connect.readFrom_reads env.target p m).ok hread).sameOutput
  have hsocket : (setConnectionType p₁ (connectionTypeOf level)).connection.socket =
      p.connection.socket := by
    rw [setConnectionType_socket, hsame.connection]
  suffices h : wp (handleMessage env store p)
      (fun r m' => ∃ accepted,
        r = (replyStatus accepted, setConnectionType p₁ (connectionTypeOf level), store) ∧
        m'.written = m.written ++ [⟨(setConnectionType p₁ (connectionTypeOf level)).connection,
          connackFrame (if wrongProtocol connect || (connectionTypeOf level).isNone then 0x80
            else 0), accepted⟩])
      (fun _ => False) m by
    obtain ⟨_, m', hrun, accepted, rfl, h⟩ := h.exists_ok
    exact ⟨hsocket, accepted, m', hrun, h⟩
  -- the write of the CONNACK can succeed or fail; its bytes are the same
  simp only [handleMessage, hp, handleConnect, wp_bind]
  rw [wp_of_ok hread, hlevel]
  simp only [wp_ofExcept, ConnectAck.sendOn_eq, wp_write, wp_ite, wp_pure]
  rw [hsame.written]
  generalize (if wrongProtocol connect || (connectionTypeOf level).isNone then 0x80
    else 0 : UInt8) = code
  split
  · next haccepted => exact ⟨true, rfl, by rw [haccepted]⟩
  · next haccepted => exact ⟨false, rfl, by rw [Bool.eq_false_iff.mpr haccepted]⟩

/-! ### A CONNECT that was read -/

/-- The name is `MQTT` or `MQIsdp`. -/
def Connect.KnownName (connect : Connect) : Prop :=
  connect.protocolName.bytes = [0x4D, 0x51, 0x54, 0x54] ∨
    connect.protocolName.bytes = [0x4D, 0x51, 0x49, 0x73, 0x64, 0x70]

/-- The level is one of those `set_connection_type` is called for. -/
def Connect.SupportedLevel (connect : Connect) : Prop :=
  connect.protocolLevel = 3 ∨ connect.protocolLevel = 4 ∨ connect.protocolLevel = 5

/-- What the validation of a CONNECT is to do: 0 for a name and a level that are
known, and the generic error for all others. -/
structure ValidatesConnect (env : Env K) (store : Store K W) (p : Packet) (m : Machine W)
    (connect : Connect) : Prop where
  accepts : connect.KnownName ∧ connect.SupportedLevel →
    ∃ p', RepliesConnack env store p m p' 0
  rejects : ¬ (connect.KnownName ∧ connect.SupportedLevel) →
    ∃ p', RepliesConnack env store p m p' 0x80

theorem isNone_connectionTypeOf (connect : Connect) :
    (connectionTypeOf connect.protocolLevel).isNone = true ↔ ¬ connect.SupportedLevel := by
  unfold connectionTypeOf Connect.SupportedLevel
  split
  · simp [*]
  split
  · simp [*]
  split <;> simp [*]

/-- There is one answer to a packet. -/
theorem RepliesConnack.unique {p' p'' : Packet} {c c' : UInt8}
    (h : RepliesConnack env store p m p' c) (h' : RepliesConnack env store p m p'' c') :
    c = c' := by
  obtain ⟨-, accepted, m', hrun, hwritten⟩ := h
  obtain ⟨-, accepted', m'', hrun', hwritten'⟩ := h'
  obtain ⟨-, rfl⟩ := Prod.mk.inj (Except.ok.inj (hrun.symm.trans hrun'))
  have hlast := List.append_cancel_left (hwritten.symm.trans hwritten')
  simp only [List.cons.injEq, Write.mk.injEq] at hlast
  simpa [connackFrame, framed, VarInt.encode_of_lt] using hlast.1.2.1

/-- What a CONNECT that was read is answered does not depend on its name. -/
theorem handleMessage_connect_some (store : Store K W) {connect : Connect} (hp : p.type = .connect)
    (hread : Connect.readFrom env.target p m = .ok ((some connect, p₁), m₁)) :
    (connect.SupportedLevel → ∃ p', RepliesConnack env store p m p' 0) ∧
      (¬ connect.SupportedLevel → ∃ p', RepliesConnack env store p m p' 0x80) := by
  have hreply := handleMessage_connect store hp hread rfl
  rw [wrongProtocol_some, Bool.false_or] at hreply
  constructor
  · intro hlevel
    rw [if_neg (fun h => (isNone_connectionTypeOf connect).mp h hlevel)] at hreply
    exact ⟨_, hreply⟩
  · intro hlevel
    rw [if_pos ((isNone_connectionTypeOf connect).mpr hlevel)] at hreply
    exact ⟨_, hreply⟩

theorem not_validatesConnect {connect : Connect} (hp : p.type = .connect)
    (hread : Connect.readFrom env.target p m = .ok ((some connect, p₁), m₁))
    (hlevel : connect.SupportedLevel) (hname : ¬ connect.KnownName) :
    ¬ ValidatesConnect env store p m connect := by
  intro h
  obtain ⟨p', hreply⟩ := (handleMessage_connect_some store hp hread).1 hlevel
  obtain ⟨p'', hrejects⟩ := h.rejects fun hboth => hname hboth.1
  exact absurd (hreply.unique hrejects) (by decide)

/-- A CONNECT that was read is answered as it is to be, whatever the network
does, if and only if its level is not supported or its name is known. -/
theorem validatesConnect_iff {connect : Connect} (hp : p.type = .connect)
    (hread : Connect.readFrom env.target p m = .ok ((some connect, p₁), m₁)) :
    ValidatesConnect env store p m connect ↔
      (connect.SupportedLevel → connect.KnownName) := by
  constructor
  · intro h hlevel
    by_contra hname
    exact not_validatesConnect hp hread hlevel hname h
  · intro h
    have hreply := handleMessage_connect_some store hp hread
    refine ⟨fun hboth => hreply.1 hboth.2, fun hnot => hreply.2 fun hlevel => ?_⟩
    exact hnot ⟨h hlevel, hlevel⟩

/-- The packet of a CONNECT whose body is still to be read. -/
def connectPacket (size : Nat) : Packet where
  control := 0x10
  bytesRemaining := size
  connection := { socket := 1, id := 7 }

/-- `MQTT` with the level 4. -/
theorem validatesConnect_mqtt : ∃ connect,
    ValidatesConnect plainTurn.env ({} : Store StdString Net) (connectPacket 10)
      (delivering [0, 4, 0x4D, 0x51, 0x54, 0x54, 4, 2, 0, 0]) connect := by
  obtain ⟨⟨read, p₁⟩, m₁, hread, hview⟩ := exists_ok_of_map
    (t := Connect.readFrom plainTurn.env.target (connectPacket 10)
      (delivering [0, 4, 0x4D, 0x51, 0x54, 0x54, 4, 2, 0, 0]))
    (g := fun r => r.1.1.map (·.protocolName.bytes)) (c := some [0x4D, 0x51, 0x54, 0x54])
    (by decide +kernel)
  obtain ⟨connect, rfl, hname⟩ := Option.map_eq_some_iff.mp hview
  exact ⟨connect, (validatesConnect_iff (by decide) hread).mpr fun _ => .inl hname⟩

/-- The name `X` with the level 4 is accepted. -/
theorem connect_of_another_name : ∃ connect p₁ m₁,
    Connect.readFrom plainTurn.env.target (connectPacket 7)
      (delivering [0, 1, 0x58, 4, 2, 0, 0]) = .ok ((some connect, p₁), m₁) ∧
    connect.protocolName.bytes = [0x58] ∧ connect.protocolLevel = 4 ∧
    ¬ ValidatesConnect plainTurn.env ({} : Store StdString Net) (connectPacket 7)
      (delivering [0, 1, 0x58, 4, 2, 0, 0]) connect := by
  obtain ⟨⟨read, p₁⟩, m₁, hread, hview⟩ := exists_ok_of_map
    (t := Connect.readFrom plainTurn.env.target (connectPacket 7)
      (delivering [0, 1, 0x58, 4, 2, 0, 0]))
    (g := fun r => r.1.1.map fun c => (c.protocolName.bytes, c.protocolLevel))
    (c := some ([0x58], 4)) (by decide +kernel)
  obtain ⟨connect, rfl, hconnect⟩ := Option.map_eq_some_iff.mp hview
  obtain ⟨hname, hlevel⟩ := Prod.mk.inj hconnect
  refine ⟨connect, p₁, m₁, hread, hname, hlevel, ?_⟩
  apply not_validatesConnect (by decide) hread (.inr (.inl hlevel))
  rw [Connect.KnownName, hname]
  decide

/-! ### A CONNECT that was not read -/

/-- What is to happen to a CONNECT that could not be read: a build that traps the
use of an empty optional does not stop, the type of the connection stays, and
the answer is the generic error. -/
structure HandlesUnreadable (env : Env K) (store : Store K W) (p : Packet) (m : Machine W) :
    Prop where
  guarded : handleMessage { env with target := { env.target with trapsUndefined := true } }
    store p m ≠ .error .emptyOptional
  answers : ∃ p', RepliesConnack env store p m p' 0x80 ∧
    p'.connection.connectionType = p.connection.connectionType

/-- The level of a packet that is not there is read. -/
theorem handleMessage_connect_none (hp : p.type = .connect)
    (hread : Connect.readFrom env.target p m = .ok ((none, p₁), m₁)) :
    handleMessage { env with target := { env.target with trapsUndefined := true } } store p m =
      .error .emptyOptional := by
  simp only [handleMessage, hp, handleConnect]
  exact bind_of_error ((bind_of_ok hread).trans (bind_of_error rfl))

/-- No CONNECT that could not be read is handled so, for whatever reason it could
not and whatever the network does. -/
theorem not_handlesUnreadable (hp : p.type = .connect)
    (hread : Connect.readFrom env.target p m = .ok ((none, p₁), m₁)) :
    ¬ HandlesUnreadable env store p m :=
  fun h => h.guarded (handleMessage_connect_none hp hread)

/-- A name of seven bytes. -/
def longName : Machine Net :=
  delivering [0, 7, 0x4D, 0x51, 0x49, 0x73, 0x64, 0x70, 0x70, 3, 2, 0, 0]

theorem longName_unreadable (target : Target) : ∃ p₁ m₁,
    Connect.readFrom target (connectPacket 13) longName = .ok ((none, p₁), m₁) := by
  obtain ⟨⟨read, p₁⟩, m₁, hread, rfl⟩ := exists_ok_of_map
    (t := Connect.readFrom target (connectPacket 13) longName)
    (g := fun r => r.1.1) (c := none) rfl
  exact ⟨p₁, m₁, hread⟩

theorem not_handlesUnreadable_longName :
    ¬ HandlesUnreadable plainTurn.env ({} : Store StdString Net) (connectPacket 13)
      longName := by
  obtain ⟨p₁, m₁, hread⟩ := longName_unreadable plainTurn.env.target
  exact not_handlesUnreadable (by decide) hread

/-- Where a 4 stands in the memory of the missing packet, the connection of the
client becomes one of MQTT 3.1.1. -/
theorem unreadable_connect_is_inspected :
    let stray : Env StdString := { plainTurn.env with target := { strayLevel := 4 } }
    ¬ HandlesUnreadable stray ({} : Store StdString Net) (connectPacket 13) longName ∧
      (handleMessage stray ({} : Store StdString Net) (connectPacket 13) longName).map
        (fun r => r.1.2.1.connection.connectionType) = .ok .mqtt311 := by
  intro stray
  obtain ⟨p₁, m₁, hread⟩ := longName_unreadable stray.target
  refine ⟨fun h => h.guarded (handleMessage_connect_none (by decide) hread), ?_⟩
  decide +kernel

end Gnat
