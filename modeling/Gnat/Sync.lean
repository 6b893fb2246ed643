/-
Gnat/Sync.lean

A connection stays in step with its stream.

`serve` is one turn of a server loop: read the next packet, move it around,
handle it, destroy it.  The budget of a packet is conserved: what was consumed
of its stream and what it still has to read add up to its size, through every
parser and every early exit (`Reads.budget`, `Handled.budget`).  The destructor
drains the rest, so each turn consumes exactly one frame.
-/
import Gnat.Served
import Gnat.Stream
import Gnat.System

namespace Gnat

open Lib Prog StreamNetwork

/-! ### One turn -/

section

variable {W : Type} [Network W]

/-- Move a packet into a new object; the old one is destroyed. -/
def Packet.relocate (packet : Packet) : ServerM W Packet := do
  let (packet, old) := packet.move
  old.destroy
  return packet

/-- Move a packet a number of times. -/
def Packet.relocateTimes : Nat → Packet → ServerM W Packet
  | 0, packet => return packet
  | n + 1, packet => do
      let packet ← packet.relocate
      relocateTimes n packet

/-- What a turn of the server loop finds, and how often it moves the packet
before and after it handles it. -/
structure Turn (K : Type) where
  env : Env K
  conn : ClientConnection
  before : Nat
  after : Nat

/-- One turn: the packet `ReadNext` returned and the status of handling it. -/
def serve {K : Type} [DecidableEq K] [KeyType K] (turn : Turn K) (store : Store K W) :
    ServerM W (Option (Packet × Status) × Store K W) := do
  match ← Packet.readNext turn.env.target turn.conn with
  | none => return (none, store)
  | some packet =>
    let handled ← packet.relocateTimes turn.before
    let (status, handled, store) ← handleMessage turn.env store handled
    let handled ← handled.relocateTimes turn.after
    handled.destroy
    return (some (packet, status), store)

/-- A turn on a connection with the given socket. -/
inductive ServeStep {K : Type} [DecidableEq K] [KeyType K] (socket : Nat) :
    ServerState K W → Option (Packet × Status) → ServerState K W → Prop
  | turn {s : ServerState K W} {turn : Turn K} {l : Option (Packet × Status)}
      {store' : Store K W} {m' : Machine W} :
      turn.conn.socket = socket → serve turn s.store s.machine = .ok ((l, store'), m') →
      ServeStep socket s l ⟨store', m'⟩

/-- Moving a packet does nothing to it. -/
theorem wp_relocateTimes {n : Nat} {p : Packet} {m : Machine W}
    {Q : Packet → Machine W → Prop} {E : Fault → Prop} :
    wp (p.relocateTimes n) Q E m ↔ Q p m := by
  induction n with
  | zero => exact Iff.rfl
  | succ n ih => exact ih

end

variable {W : Type} [StreamNetwork W] {m m' : Machine W} {socket : Nat}

/-! ### The budget of a packet -/

/-- What was consumed of the packet's stream and what the packet still has to
read add up. -/
def Budget (x y : Packet × Machine W) : Prop :=
  y.1.connection.socket = x.1.connection.socket ∧
  ∃ taken, input x.1.connection.socket x.2.net =
      taken ++ input x.1.connection.socket y.2.net ∧
    taken.length + y.1.bytesRemaining = x.1.bytesRemaining

theorem ReadStep.budget {x y : Packet × Machine W} (h : ReadStep x y) : Budget x y := by
  cases h with
  | @read p m size bytes w hle hr =>
      refine ⟨rfl, bytes.toList, read_some hr, ?_⟩
      rw [List.Vector.toList_length]
      exact Nat.add_sub_cancel' hle
  | fail hr => exact ⟨rfl, [], (read_none hr).symm, Nat.zero_add _⟩
  | copies n => exact ⟨rfl, [], rfl, Nat.zero_add _⟩

theorem Budget.trans {x y z : Packet × Machine W} (h : Budget x y) (h' : Budget y z) :
    Budget x z := by
  obtain ⟨hs, taken, hin, hlen⟩ := h
  obtain ⟨hs', taken', hin', hlen'⟩ := h'
  rw [hs] at hin'
  refine ⟨hs'.trans hs, taken ++ taken', ?_, ?_⟩
  · rw [hin, hin', List.append_assoc]
  · rw [List.length_append]
    omega

theorem Reads.budget {x y : Packet × Machine W} (h : Reads x y) : Budget x y := by
  induction h with
  | refl => exact ⟨rfl, [], rfl, Nat.zero_add _⟩
  | tail _ hstep ih => exact ih.trans hstep.budget

/-- A packet keeps its budget while nothing is read. -/
theorem Budget.of_same_input {x y z : Packet × Machine W} (h : Budget x y)
    (hsocket : z.1.connection.socket = y.1.connection.socket)
    (hsize : z.1.bytesRemaining = y.1.bytesRemaining)
    (hin : ∀ s, input s z.2.net = input s y.2.net) : Budget x z := by
  obtain ⟨hs, taken, htaken, hlen⟩ := h
  exact ⟨hsocket.trans hs, taken, by rw [htaken, hin], by rw [hsize, hlen]⟩

theorem Sends.input {P : ClientConnection → Prop} (h : Sends P m m') (s : Nat) :
    input s m'.net = StreamNetwork.input s m.net := by
  induction h with
  | refl => rfl
  | tail _ hstep ih =>
      rw [← ih]
      cases hstep with
      | writePartial _ hw =>
          cases hw
          exact writePartial_input
      | write _ hw =>
          cases hw
          exact write_input

theorem write_ok_input {conn : ClientConnection} {bytes : List UInt8} {accepted : Bool}
    (h : conn.write bytes m = .ok (accepted, m')) (s : Nat) :
    input s m'.net = input s m.net := by
  cases h
  exact write_input

theorem setConnectionType_socket (p : Packet) (type : Option ConnectionType) :
    (setConnectionType p type).connection.socket = p.connection.socket := by
  cases type <;> rfl

theorem setConnectionType_connection (p : Packet) (type : Option ConnectionType) :
    (setConnectionType p type).connection =
      { p.connection with connectionType := type.getD p.connection.connectionType } := by
  cases type <;> rfl

theorem setConnectionType_bytesRemaining (p : Packet) (type : Option ConnectionType) :
    (setConnectionType p type).bytesRemaining = p.bytesRemaining := by
  cases type <;> rfl

section

variable {K : Type} [DecidableEq K] [KeyType K] {store store' : Store K W}
variable {p p' : Packet} {status : Status}

/-- `HandleMessage` conserves the budget, whichever way it returns. -/
theorem Handled.budget {env : Env K} (h : Handled env store p m status p' store' m')
    (hserved : Served store) (hp : p.type ≠ .disconnect) : Budget (p, m) (p', m') := by
  obtain ⟨subs, hsubs⟩ := hserved
  cases h with
  | failed hr => exact hr.budget
  | replied type _ hr hw =>
      exact hr.budget.of_same_input (setConnectionType_socket _ type)
        (setConnectionType_bytesRemaining _ type) (write_ok_input hw)
  | closed hp' => exact absurd hp' hp
  | published _ _ _ _ hr hset =>
      exact hr.budget.of_same_input rfl rfl ((set_sends hsubs _ _ _).ok hset).input
  | subscribed _ hr hw _ _ hadd =>
      refine hr.budget.of_same_input rfl rfl fun s => ?_
      rw [((addObserver_sends _ _ _).ok hadd).input s, write_ok_input hw s]

/-- Destroying a packet consumes what is left of its frame. -/
theorem destroy_budget {rest taken : List UInt8} {q : Packet}
    (h : Budget (q, m) (p, m')) (hsize : taken.length = q.bytesRemaining)
    (hin : input q.connection.socket m.net = taken ++ rest) :
    wp (p.destroy : ServerM W Unit)
      (fun _ m'' => input q.connection.socket m''.net = rest) (fun _ => False) m' := by
  obtain ⟨hs, front, hfront, hlen⟩ := h
  dsimp only at hs hfront hlen
  -- the bytes the packet still has to read are in front of its stream
  obtain ⟨left, rfl⟩ : front <+: taken :=
    List.prefix_of_prefix_length_le ⟨_, hfront.symm⟩ ⟨_, hin.symm⟩ (by omega)
  have hrest : input q.connection.socket m'.net = left ++ rest :=
    List.append_cancel_left (hfront.symm.trans (hin.trans (List.append_assoc ..)))
  have hleft : left.length = p.bytesRemaining := by
    rw [List.length_append] at hsize
    omega
  unfold Packet.destroy
  rw [wp_ite]
  split
  · simp only [wp_bind, wp_drain, wp_pure, hs]
    rw [drain_input (by rw [hrest, List.length_append]; omega), hrest, ← hleft]
    exact List.drop_left
  · next hzero =>
    rw [List.length_eq_zero_iff.mp (by omega : left.length = 0)] at hrest
    exact hrest

/-! ### Frames back to back -/

/-- What `ReadNext` is to see of a frame: its type, flags and remaining size. -/
def Frame.summary (f : Frame) : Option (PacketType × UInt8 × Nat) :=
  some (f.type, f.typeFlags, f.body.length)

/-- What `ReadNext` saw in a turn. -/
def seen (l : Option (Packet × Status)) : Option (PacketType × UInt8 × Nat) :=
  l.map fun r => (r.1.type, r.1.typeFlags, r.1.bytesRemaining)

/-- One turn sees and consumes exactly the frame in front of the stream. -/
theorem ServeStep.frame {s s' : ServerState K W} {l : Option (Packet × Status)}
    (h : ServeStep socket s l s') (hserved : Served s.store) (f : Frame)
    {rest : List UInt8} (hf : f.type ≠ .disconnect)
    (hin : input socket s.machine.net = f.bytes ++ rest) :
    seen l = f.summary ∧ input socket s'.machine.net = rest ∧ Served s'.store := by
  cases h with
  | @turn turn _ store' m' hsocket hserve =>
      subst hsocket
      have hin' : input turn.conn.socket s.machine.net = f.header ++ (f.body ++ rest) := by
        rw [hin, Frame.bytes, List.append_assoc]
      refine wp.ok (Q := fun r m'' => seen r.1 = f.summary ∧
        input turn.conn.socket m''.net = rest ∧ Served r.2) (E := fun _ => True) ?_ hserve
      unfold serve
      rw [wp_bind]
      refine wp_imp (readNext_frame f hin') ?_
      rintro - m₁ ⟨rfl, h₁⟩
      rw [wp_bind, wp_relocateTimes, wp_bind]
      refine wp_imp handleMessage_handled ?_
      rintro ⟨status, p', store'⟩ m₂ hhandled
      rw [wp_bind, wp_relocateTimes, wp_bind]
      -- whatever is left of the frame is drained when the packet goes
      have hbudget := hhandled.budget hserved hf
      refine wp_mono (destroy_budget hbudget rfl (h₁.rest hin')) ?_ fun _ _ => trivial
      intro _ m₃ hrest
      refine ⟨rfl, hrest, ?_⟩
      obtain ⟨subs, hsubs⟩ := hserved
      rcases hsubs.handled hhandled with hs | ⟨-, filter, key, n, hs⟩
      · exact ⟨_, hs⟩
      · exact ⟨_, hs⟩

/-- **Stream synchronisation.**  On a stream of frames back to back, none of them
a DISCONNECT, the `i`-th turn of the server loop sees exactly the type, flags
and remaining size of the `i`-th frame, and after `i` turns exactly the first
`i` frames are consumed; whatever the frames contain, however often the packets
are moved and whether they are handled with success or not. -/
theorem stream_synchronised {s s' : ServerState K W} {ls : List (Option (Packet × Status))}
    {frames : List Frame} {rest : List UInt8} (hrun : Run (ServeStep socket) s ls s')
    (hserved : Served s.store) (hframes : ∀ f ∈ frames, f.type ≠ .disconnect)
    (hlen : ls.length ≤ frames.length)
    (hin : input socket s.machine.net = frames.flatMap Frame.bytes ++ rest) :
    ls.map seen = (frames.take ls.length).map Frame.summary ∧
    input socket s'.machine.net = (frames.drop ls.length).flatMap Frame.bytes ++ rest := by
  induction hrun generalizing frames with
  | nil => exact ⟨rfl, hin⟩
  | @cons s s₁ s' l ls hstep _ ih =>
      obtain - | ⟨f, frames⟩ := frames
      · cases hlen
      rw [List.flatMap_cons, List.append_assoc] at hin
      obtain ⟨hseen, hin₁, hserved₁⟩ :=
        hstep.frame hserved f (hframes f List.mem_cons_self) hin
      obtain ⟨hls, hrest⟩ := ih hserved₁ (fun g hg => hframes g (List.mem_cons_of_mem f hg))
        (Nat.le_of_succ_le_succ hlen) hin₁
      exact ⟨by simp [hseen, hls], by simpa using hrest⟩

end

/-- The topic `a` published with the payload `hi`. -/
def publishHiFrame : Frame where
  control := 0x30
  lengthBytes := [5]
  body := [0, 1, 0x61, 0x68, 0x69]
  numeral := by decide
  length_le := by decide
  value_eq := rfl

/-- The frame and a PINGREQ behind it. -/
def publishHiWire : Wire :=
  ⟨fun _ => [0x30, 5, 0, 1, 0x61, 0x68, 0x69, 0xC0, 0]⟩

/-- A SUBSCRIBE for `+` and for `a`. -/
def subscribePlusFrame : Frame where
  control := 0x82
  lengthBytes := [10]
  body := [0, 1, 0, 1, 0x2B, 0, 0, 1, 0x61, 0]
  numeral := by decide
  length_le := by decide
  value_eq := rfl

/-- The two frames and a PINGREQ behind them. -/
def twoFramesWire : Wire :=
  ⟨fun _ => [publishHiFrame, subscribePlusFrame].flatMap Frame.bytes ++ [0xC0, 0]⟩

/-- A turn of the client 7 that moves the packet once before it handles it and twice
after. -/
def movingTurn : Turn StdString where
  env := ⟨{}, 0, .asKept StdString⟩
  conn := { socket := 1, id := 7 }
  before := 1
  after := 2

/-- The second turn sees the SUBSCRIBE and fails at its `+`. -/
theorem stream_synchronised_publish :
    ∃ (s' : ServerState StdString Wire) (l l' : Option (Packet × Status)),
      Run (ServeStep 1) (.initial StdString twoFramesWire) [l, l'] s' ∧
      l'.map Prod.snd = some (.failure "") ∧
      [l, l'].map seen = [some (.publish, 0, 5), some (.subscribe, 2, 10)] ∧
      s'.machine.net.input 1 = [0xC0, 0] := by
  obtain ⟨_, _, h, hstatus⟩ := exists_ok_of_map
    (t := serve movingTurn {} { net := twoFramesWire } >>= fun r =>
      serve movingTurn r.1.2 r.2 >>= fun r' => pure (((r.1.1, r'.1.1), r'.1.2), r'.2))
    (g := fun r => r.1.1.2.map Prod.snd) (c := some (.failure "")) (by decide +kernel)
  obtain ⟨⟨l, store₁⟩, m₁, h₁, h⟩ := exists_ok_of_bind h
  obtain ⟨⟨l', store'⟩, m', h₂, h⟩ := exists_ok_of_bind h
  cases h
  have hrun : Run (ServeStep 1) (.initial StdString twoFramesWire) [l, l'] ⟨store', m'⟩ :=
    .cons (.turn rfl h₁) (.cons (.turn rfl h₂) .nil)
  have hin : input 1 twoFramesWire =
      [publishHiFrame, subscribePlusFrame].flatMap Frame.bytes ++ [0xC0, 0] := rfl
  have hframes : ∀ f ∈ [publishHiFrame, subscribePlusFrame], f.type ≠ .disconnect := by decide
  have hsync := stream_synchronised hrun (served_initial _) hframes (Nat.le_refl 2) hin
  exact ⟨_, l, l', hrun, hstatus, hsync⟩

end Gnat
