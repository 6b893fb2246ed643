/-
Gnat/Interleaving.lean

Clients that send at their own pace.

`process` puts a packet on its socket and handles it at once.  Here all clients have
sent: `coming` are their bytes on the way, which reach the broker in pieces of any size,
while the server loop turns to the connections in any order (`TrafficStep`).  A turn
takes whatever is there, so one that starts on a part of a packet can lose it; the schedules
of interest turn to a connection when a whole packet is there, or nothing (`PatientStep`).

Each client's stream is cut in two places only, between what was handled, what has arrived
and what is coming (`Carries`).  So every such interleaving is a run of the service on the
packets in the order in which they are handled (`interleavings_refine`): no packet of a
client is lost, handled twice or overtaken by a later one of the same client.
-/
import Gnat.Service

namespace Gnat

open Lib Prog StreamNetwork

/-! ### Packets on the way -/

/-- A well-formed message that a client has sent, with its frame. -/
structure Sent where
  frame : Frame
  msg : Message
  carries : frame.Carries msg
  wellFormed : msg.WellFormed

/-- What arrives when a turn reads it. -/
def Sent.arrival {K : Type} (a : Sent) (turn : Turn K) (owned : turn.conn.copy = none) :
    Arrival where
  conn := turn.conn
  frame := a.frame
  msg := a.msg
  timestamp := turn.env.timestamp
  owned := owned
  carries := a.carries
  wellFormed := a.wellFormed

/-- What was sent is the same whenever it arrives. -/
def Arrival.sent (a : Arrival) : Sent :=
  ⟨a.frame, a.msg, a.carries, a.wellFormed⟩

/-- A whole packet is there, or nothing. -/
def Ready (bytes : List UInt8) : Prop :=
  bytes = [] ∨ ∃ f : Frame, f.bytes <+: bytes

theorem Frame.bytes_ne_nil (f : Frame) : f.bytes ≠ [] :=
  List.cons_ne_nil _ _

/-- Where a frame ends is told by its header. -/
theorem Frame.length_eq {f g : Frame} {bytes : List UInt8} (hf : f.bytes <+: bytes)
    (hg : g.bytes <+: bytes) : f.bytes.length = g.bytes.length := by
  obtain ⟨rest, rfl⟩ := hf
  obtain ⟨rest', heq⟩ := hg
  let conn : ClientConnection := { socket := 0, id := 0 }
  let m : Machine Wire := { net := ⟨fun _ => f.bytes ++ rest⟩ }
  have hinf : input conn.socket m.net = f.header ++ (f.body ++ rest) := List.append_assoc ..
  have hing : input conn.socket m.net = g.header ++ (g.body ++ rest') :=
    heq.symm.trans (List.append_assoc ..)
  have hreadf : wp (Packet.readNext {} conn) _ (fun _ => False) m := readNext_frame f hinf
  obtain ⟨_, m₁, hok, rfl, hconsumedf⟩ := hreadf.exists_ok
  have hreadg : wp (Packet.readNext {} conn) _ (fun _ => False) m := readNext_frame g hing
  obtain ⟨hpacket, hconsumedg⟩ := hreadg.ok hok
  -- both are read as the same packet, with the same bytes behind its header
  have hbody : f.body.length = g.body.length :=
    congrArg Packet.bytesRemaining (Option.some.inj hpacket)
  have hrest : f.body ++ rest = g.body ++ rest' :=
    (hconsumedf.rest hinf).symm.trans (hconsumedg.rest hing)
  have hrest := congrArg List.length hrest
  have heq := congrArg List.length heq
  rw [List.length_append, List.length_append] at hrest heq
  omega

section

variable {W : Type} [ReliableNetwork W] {K : Type} [DecidableEq K] [KeyType K]

/-! ### The system -/

/-- A server, and what is on the way to it on each socket. -/
structure Traffic (K W : Type) where
  server : ServerState K W
  coming : Nat → List UInt8

/-- The clients have sent what they have to say. -/
def Traffic.start (net : W) (programs : Nat → List Sent) : Traffic K W where
  server := .initial K net
  coming socket := (programs socket).flatMap fun a => a.frame.bytes

/-- The next bytes on the way to a socket arrive. -/
def Traffic.carry (x : Traffic K W) (socket bytes : Nat) : Traffic K W :=
  let arriving := (x.coming socket).take bytes
  let net := ReliableNetwork.arrive socket arriving x.server.machine.net
  { server := ⟨x.server.store, { x.server.machine with net }⟩
    coming := Function.update x.coming socket ((x.coming socket).drop bytes) }

/-- The server loop turns to a connection. -/
def Traffic.turn (x : Traffic K W) (turn : Turn K) :
    Except Fault (Option (Packet × Status) × Traffic K W) := do
  let ((handled, store), machine) ← serve turn x.server.store x.server.machine
  return (handled, ⟨⟨store, machine⟩, x.coming⟩)

/-- What happened. -/
inductive TrafficLabel (K : Type)
  | carried
  | turned (turn : Turn K) (handled : Option (Packet × Status))
  | removed (clientId : UInt32)

/-- Something was handled. -/
def TrafficLabel.handles : TrafficLabel K → Bool
  | carried => false
  | turned _ handled => handled.isSome
  | removed _ => true

/-- Bytes arrive, the loop turns to a connection the application owns, or a client is
removed. -/
inductive TrafficStep (target : Target) : Traffic K W → TrafficLabel K → Traffic K W → Prop
  | carry {x : Traffic K W} (socket bytes : Nat) :
      TrafficStep target x .carried (x.carry socket bytes)
  | turn {x x' : Traffic K W} {turn : Turn K} {handled : Option (Packet × Status)} :
      turn.env.target = target → turn.conn.copy = none → x.turn turn = .ok (handled, x') →
      TrafficStep target x (.turned turn handled) x'
  | remove {x : Traffic K W} (clientId : UInt32) :
      TrafficStep target x (.removed clientId)
        ⟨⟨x.server.store.removeObserversForClient clientId, x.server.machine⟩, x.coming⟩

/-- The loop turns to a connection when a whole packet is there, or nothing. -/
def TrafficLabel.Patient (x : Traffic K W) : TrafficLabel K → Prop
  | turned turn _ => Ready (input turn.conn.socket x.server.machine.net)
  | carried => True
  | removed _ => True

/-- The steps of a patient schedule. -/
def PatientStep (target : Target) (x : Traffic K W) (l : TrafficLabel K) (x' : Traffic K W) :
    Prop :=
  l.Patient x ∧ TrafficStep target x l x'

/-! ### What was handled -/

variable {net : W}
variable {target : Target} {Topic : List UInt8 → Prop} {covers : Covers} {v v' v₁ : Service}
variable {x x' x₁ : Traffic K W} {waiting waiting' waiting₁ : Nat → List Sent}
variable {l : TrafficLabel K} {ls ls' : List (TrafficLabel K)} {rs rs' : List (ServiceLabel K)}

/-- The server is the service, and what each client has sent and was not handled yet is what
its socket has received and what is coming. -/
structure Traffic.Carries (target : Target) (Topic : List UInt8 → Prop) (covers : Covers)
    (net : W) (v : Service) (x : Traffic K W) (waiting : Nat → List Sent) : Prop where
  serves : Serves target Topic covers v (x.server.onNet net)
  speakable : ∀ socket, ∀ a ∈ waiting socket, a.msg.Speakable Topic
  stream : ∀ socket, ((waiting socket).flatMap fun a => a.frame.bytes) =
    input socket x.server.machine.net ++ x.coming socket

/-- What was handled, as a step of the service. -/
inductive TrafficLabel.ShownAs : TrafficLabel K → ServiceLabel K → Prop
  | packet {turn : Turn K} (owned : turn.conn.copy = none) (a : Sent) (status : Status)
      (told : Told.Post) :
      ShownAs (.turned turn (some (a.frame.packet turn.conn, status)))
        ⟨.packet (a.arrival turn owned) turn.env.order, some status, told⟩
  | removed (clientId : UInt32) (told : Told.Post) :
      ShownAs (.removed clientId) ⟨.remove clientId, none, told⟩

/-- What the step handled of what was sent on a socket. -/
def ServiceLabel.sentOn (socket : Nat) (l : ServiceLabel K) : Option Sent :=
  match l.event with
  | .packet a _ => if a.conn.socket = socket then some a.sent else none
  | .remove _ => none

/-- What was handled is a run of the service, and of what each client has sent it is the
front. -/
structure Traffic.Went (target : Target) (Topic : List UInt8 → Prop) (covers : Covers) (net : W)
    (v : Service) (x : Traffic K W) (waiting : Nat → List Sent) (ls : List (TrafficLabel K))
    (rs : List (ServiceLabel K)) (v' : Service) (x' : Traffic K W)
    (waiting' : Nat → List Sent) : Prop where
  run : Run (ServiceStep covers) v rs v'
  shown : List.Forall₂ TrafficLabel.ShownAs (ls.filter TrafficLabel.handles) rs
  written : ∃ ws, x'.server.machine.written = x.server.machine.written ++ ws ∧
    Voices ws (rs.flatMap ServiceLabel.told)
  fits : ∀ y ∈ rs.flatMap ServiceLabel.told, y.2.Fits
  order : ∀ socket, rs.filterMap (ServiceLabel.sentOn socket) ++ waiting' socket = waiting socket
  carries : x'.Carries target Topic covers net v' waiting'

namespace Traffic

/-- Nothing is handled. -/
theorem Carries.idle (h : x'.Carries target Topic covers net v waiting)
    (hwritten : x'.server.machine.written = x.server.machine.written)
    (hl : l.handles = false) : Went target Topic covers net v x waiting [l] [] v x' waiting where
  run := .nil
  shown := by
    rw [List.filter_cons, hl]
    exact .nil
  written := ⟨[], hwritten.trans (List.append_nil _).symm, .nil⟩
  fits := List.forall_mem_nil _
  order _ := rfl
  carries := h

theorem Went.trans (h : Went target Topic covers net v x waiting ls rs v₁ x₁ waiting₁)
    (h' : Went target Topic covers net v₁ x₁ waiting₁ ls' rs' v' x' waiting') :
    Went target Topic covers net v x waiting (ls ++ ls') (rs ++ rs') v' x' waiting' where
  run := Run.append_iff.mpr ⟨v₁, h.run, h'.run⟩
  shown := by
    rw [List.filter_append]
    exact List.rel_append h.shown h'.shown
  written := by
    obtain ⟨ws, hwritten, hvoices⟩ := h.written
    obtain ⟨ws', hwritten', hvoices'⟩ := h'.written
    refine ⟨ws ++ ws', by rw [hwritten', hwritten, List.append_assoc], ?_⟩
    rw [List.flatMap_append]
    exact hvoices.append hvoices'
  fits := by
    rw [List.flatMap_append]
    exact List.forall_mem_append.mpr ⟨h.fits, h'.fits⟩
  order socket := by rw [List.filterMap_append, List.append_assoc, h'.order, h.order]
  carries := h'.carries

/-- One event is handled. -/
theorem Went.of_isServiceStep {e : Event K} {status : Option Status}
    (h : IsServiceStep target Topic covers v (x.server.onNet net) e status
      (x'.server.onNet net))
    (hshown : ∀ told, l.ShownAs ⟨e, status, told⟩) (hl : l.handles = true)
    (horder : ∀ socket, (ServiceLabel.sentOn socket ⟨e, status, []⟩).toList ++ waiting' socket =
      waiting socket)
    (hspeakable : ∀ socket, ∀ a ∈ waiting socket, a.msg.Speakable Topic)
    (hstream : ∀ socket, ((waiting' socket).flatMap fun a => a.frame.bytes) =
      input socket x'.server.machine.net ++ x'.coming socket) :
    ∃ rs v', Went target Topic covers net v x waiting [l] rs v' x' waiting' := by
  obtain ⟨⟨e, status, told⟩, v', ws, hstep, rfl, rfl, hwritten, hvoices, hserves⟩ := h
  refine ⟨[⟨e, status, told⟩], v', .cons hstep .nil, ?_, ⟨ws, hwritten, ?_⟩, ?_, ?_, hserves,
    ?_, hstream⟩
  · rw [List.filter_cons, if_pos hl]
    exact .cons (hshown told) .nil
  · rw [List.flatMap_singleton]
    exact hvoices
  · rw [List.flatMap_singleton]
    exact hstep.fits hserves.tellable
  · intro socket
    rw [← horder socket]
    rfl
  · intro socket a ha
    exact hspeakable socket a (horder socket ▸ List.mem_append_right _ ha)

/-- Bytes arrive. -/
theorem carry_went (h : x.Carries target Topic covers net v waiting) (socket bytes : Nat) :
    Went target Topic covers net v x waiting [.carried] [] v (x.carry socket bytes) waiting := by
  refine Carries.idle ⟨h.serves, h.speakable, fun socket' => ?_⟩ rfl rfl
  show ((waiting socket').flatMap fun a => a.frame.bytes) =
    input socket' (ReliableNetwork.arrive socket ((x.coming socket).take bytes) _) ++
      Function.update x.coming socket ((x.coming socket).drop bytes) socket'
  by_cases hs : socket' = socket
  · subst hs
    rw [ReliableNetwork.arrive_input, Function.update_self, List.append_assoc,
      List.take_append_drop]
    exact h.stream socket'
  · rw [ReliableNetwork.arrive_other hs, Function.update_of_ne hs]
    exact h.stream socket'

/-- A whole packet that is there is the client's next one. -/
theorem Carries.front (h : x.Carries target Topic covers net v waiting) {socket : Nat}
    {f : Frame} (hf : f.bytes <+: input socket x.server.machine.net) :
    ∃ a later rest, waiting socket = a :: later ∧
      input socket x.server.machine.net = a.frame.bytes ++ rest ∧
      (later.flatMap fun a => a.frame.bytes) = rest ++ x.coming socket := by
  have hstream := h.stream socket
  rcases hwaiting : waiting socket with - | ⟨a, later⟩
  · rw [hwaiting, List.flatMap_nil] at hstream
    rw [(List.append_eq_nil_iff.mp hstream.symm).1] at hf
    exact absurd (List.prefix_nil.mp hf) f.bytes_ne_nil
  rw [hwaiting, List.flatMap_cons] at hstream
  -- both frames are in front of what the client has sent
  have ha : a.frame.bytes <+: input socket x.server.machine.net ++ x.coming socket :=
    ⟨_, hstream⟩
  have hlength : a.frame.bytes.length = f.bytes.length :=
    Frame.length_eq ha (hf.trans (List.prefix_append _ _))
  obtain ⟨rest, hin⟩ : a.frame.bytes <+: input socket x.server.machine.net :=
    List.prefix_of_prefix_length_le ha (List.prefix_append _ _) (hlength ▸ hf.length_le)
  refine ⟨a, later, rest, rfl, hin.symm, ?_⟩
  rw [← hin, List.append_assoc] at hstream
  exact List.append_cancel_left hstream

end Traffic

/-! ### Patient turns -/

variable {s : ServerState K W} {turn : Turn K} {rest : List UInt8}

/-- A turn to a connection on which nothing is there does nothing. -/
theorem serve_nothing (store : Store K W) {m : Machine W} {E : Fault → Prop}
    (hin : input turn.conn.socket m.net = []) :
    wp (serve turn store) (fun r m' => r = (none, store) ∧ Wrote [] m m') E m := by
  unfold serve
  rw [wp_bind]
  apply wp_imp (readNext_end hin)
  rintro _ m₁ ⟨rfl, hwrote⟩
  exact ⟨rfl, hwrote⟩

variable [LawfulKeyType K]

/-- A turn with a message in front of its socket is a step of the service. -/
theorem Serves.serve_front {a : Arrival} (h : Serves target Topic covers v (s.onNet net))
    (hS : Speaks K target Topic covers) (hTopic : a.msg.Speakable Topic)
    (order : IterationOrder K) (before after : Nat)
    (hin : input a.conn.socket s.machine.net = a.frame.bytes ++ rest) :
    wp (Gnat.serve ⟨⟨target, a.timestamp, order⟩, a.conn, before, after⟩ s.store)
      (fun r m' => (∃ status, r.1 = some (a.frame.packet a.conn, status) ∧
          IsServiceStep target Topic covers v (s.onNet net) (.packet a order) (some status)
            (ServerState.onNet ⟨r.2, m'⟩ net)) ∧
        input a.conn.socket m'.net = rest ∧
        ∀ socket, socket ≠ a.conn.socket → input socket m'.net = input socket s.machine.net)
      (fun _ => False) s.machine := by
  obtain ⟨b, hb, hre⟩ := h.broker
  apply wp_mono (hb.serve_front before after hin) _ fun _ he =>
    he (hS.encodable a.wellFormed hTopic)
  rintro ⟨handled, store'⟩ m' hfront
  obtain ⟨status, l, b', hhandled, hl, hevent, hstatus, hwritten, hb'⟩ := hfront.handled
  refine ⟨⟨status, hhandled, ?_⟩, hfront.rest, hfront.others⟩
  rw [← hstatus]
  exact packet_isServiceStep hS hre h.tellable hl hb' hwritten hevent hTopic

namespace Traffic

/-- The loop turns to a connection with a whole packet in front, and handles it. -/
theorem Carries.serve_packet (h : x.Carries turn.env.target Topic covers net v waiting)
    (hS : Speaks K turn.env.target Topic covers) (owned : turn.conn.copy = none) {f : Frame}
    (hf : f.bytes <+: input turn.conn.socket x.server.machine.net) :
    wp (Gnat.serve turn x.server.store)
      (fun r m' => ∃ a later status rs v', waiting turn.conn.socket = a :: later ∧
        r.1 = some (a.frame.packet turn.conn, status) ∧
        Went turn.env.target Topic covers net v x waiting [.turned turn r.1] rs v'
          ⟨⟨r.2, m'⟩, x.coming⟩ (Function.update waiting turn.conn.socket later))
      (fun _ => False) x.server.machine := by
  obtain ⟨a, later, rest, hwaiting, hin, hlater⟩ := h.front hf
  have hTopic : a.msg.Speakable Topic :=
    h.speakable turn.conn.socket a (hwaiting ▸ List.mem_cons_self)
  have hserve := h.serves.serve_front (a := a.arrival turn owned) hS hTopic turn.env.order
    turn.before turn.after hin
  apply wp_imp hserve
  rintro ⟨handled, store'⟩ m' ⟨⟨status, hhandled, hstep⟩, hrest, hothers⟩
  obtain rfl : handled = some (a.frame.packet turn.conn, status) := hhandled
  have hupdate : ∀ socket, socket ≠ turn.conn.socket →
      Function.update waiting turn.conn.socket later socket = waiting socket :=
    fun _ hs => Function.update_of_ne hs ..
  have horder : ∀ socket, (ServiceLabel.sentOn socket
      ⟨.packet (a.arrival turn owned) turn.env.order, some status, []⟩).toList ++
        Function.update waiting turn.conn.socket later socket = waiting socket := by
    intro socket
    by_cases hs : socket = turn.conn.socket
    · subst hs
      rw [Function.update_self, hwaiting, ServiceLabel.sentOn]
      exact congrArg (fun sent => Option.toList sent ++ later) (if_pos rfl)
    · rw [hupdate socket hs, ServiceLabel.sentOn]
      exact congrArg (fun sent => Option.toList sent ++ waiting socket) (if_neg (Ne.symm hs))
  have hstream : ∀ socket,
      ((Function.update waiting turn.conn.socket later socket).flatMap fun a => a.frame.bytes) =
        input socket m'.net ++ x.coming socket := by
    intro socket
    by_cases hs : socket = turn.conn.socket
    · subst hs
      rw [Function.update_self, hlater]
      exact congrArg (· ++ _) hrest.symm
    · rw [hupdate socket hs, h.stream socket]
      exact congrArg (· ++ _) (hothers socket hs).symm
  obtain ⟨rs, v', hwent⟩ : ∃ rs v', Went turn.env.target Topic covers net v x waiting
      [.turned turn (some (a.frame.packet turn.conn, status))] rs v' ⟨⟨store', m'⟩, x.coming⟩
      (Function.update waiting turn.conn.socket later) :=
    Went.of_isServiceStep hstep (.packet owned a status) rfl horder h.speakable hstream
  exact ⟨a, later, status, rs, v', hwaiting, rfl, hwent⟩

/-- The loop turns to a connection with a whole packet, or nothing. -/
theorem Carries.serve_ready (h : x.Carries turn.env.target Topic covers net v waiting)
    (hS : Speaks K turn.env.target Topic covers) (owned : turn.conn.copy = none)
    (hready : Ready (input turn.conn.socket x.server.machine.net)) :
    wp (Gnat.serve turn x.server.store)
      (fun r m' => ∃ rs v' waiting', Went turn.env.target Topic covers net v x waiting
        [.turned turn r.1] rs v' ⟨⟨r.2, m'⟩, x.coming⟩ waiting')
      (fun _ => False) x.server.machine := by
  rcases hready with hnothing | ⟨f, hf⟩
  · apply wp_imp (serve_nothing x.server.store hnothing)
    rintro _ m' ⟨rfl, hwrote⟩
    have hwritten : m'.written = x.server.machine.written :=
      hwrote.written.trans (List.append_nil _)
    have hsame : ServerState.onNet ⟨x.server.store, m'⟩ net = x.server.onNet net := by
      show (⟨x.server.store, ⟨net, m'.written, m'.heapCopies⟩⟩ : ServerState K W) = _
      rw [hwritten, hwrote.heapCopies]
      rfl
    have hcarries : Carries turn.env.target Topic covers net v ⟨⟨x.server.store, m'⟩, x.coming⟩
        waiting := by
      refine ⟨hsame ▸ h.serves, h.speakable, fun socket => ?_⟩
      rw [h.stream socket]
      exact congrArg (· ++ _) (hwrote.input socket).symm
    exact ⟨[], v, waiting, hcarries.idle hwritten rfl⟩
  · apply wp_imp (h.serve_packet hS owned hf)
    rintro r m' ⟨a, later, status, rs, v', -, -, hwent⟩
    exact ⟨rs, v', _, hwent⟩

/-- **One step.** -/
theorem step_went (h : x.Carries target Topic covers net v waiting)
    (hS : Speaks K target Topic covers) (hstep : PatientStep target x l x') :
    ∃ rs v' waiting', Went target Topic covers net v x waiting [l] rs v' x' waiting' := by
  obtain ⟨hpatient, hstep⟩ := hstep
  cases hstep with
  | carry socket bytes => exact ⟨[], v, waiting, carry_went h socket bytes⟩
  | turn htarget owned hturn =>
      subst htarget
      obtain ⟨⟨handled, store'⟩, m', hserve, heq⟩ := exists_ok_of_bind hturn
      cases heq
      exact (h.serve_ready hS owned hpatient).ok hserve
  | remove clientId =>
      have hspeakable : (Event.remove clientId : Event K).Speakable Topic := by
        rintro _ _ ⟨⟩
      obtain ⟨status, s', hok, hremove⟩ := h.serves.process hS hspeakable
      cases hok
      obtain ⟨rs, v', hwent⟩ : ∃ rs v', Went target Topic covers net v x waiting
          [.removed clientId] rs v'
          ⟨⟨x.server.store.removeObserversForClient clientId, x.server.machine⟩, x.coming⟩
          waiting :=
        Went.of_isServiceStep hremove (.removed clientId) rfl (fun _ => rfl) h.speakable h.stream
      exact ⟨rs, v', waiting, hwent⟩

/-- **Every interleaving.** -/
theorem run_went (h : x.Carries target Topic covers net v waiting)
    (hS : Speaks K target Topic covers) (hrun : Run (PatientStep target) x ls x') :
    ∃ rs v' waiting', Went target Topic covers net v x waiting ls rs v' x' waiting' := by
  induction hrun generalizing v waiting with
  | nil =>
      exact ⟨[], v, waiting, .nil, .nil, ⟨[], (List.append_nil _).symm, .nil⟩,
        List.forall_mem_nil _, fun _ => rfl, h⟩
  | cons hstep _ ih =>
      obtain ⟨rs, v₁, waiting₁, hwent⟩ := step_went h hS hstep
      obtain ⟨rs', v', waiting', hwent'⟩ := ih hwent.carries
      exact ⟨rs ++ rs', v', waiting', hwent.trans hwent'⟩

end Traffic

/-- **The server is a service to clients that send at their own pace**: however their bytes
arrive, in whichever order a patient loop turns to them, and whenever clients are removed,
the server has handled what is in front of each client's messages, in the client's order,
and the bytes of the others are there or on their way.  What was handled, with the status,
is a run of the service; the store holds the payloads of the service; and each client reads
what it is told.  The next patient turn returns, and when all the bytes of a client have
arrived, a turn to it handles its next message. -/
theorem interleavings_refine {net : W} (hnet : ∀ socket, input socket net = [])
    (hS : Speaks K target Topic covers) {programs : Nat → List Sent}
    (hprograms : ∀ socket, ∀ a ∈ programs socket, a.msg.Speakable Topic)
    {ls : List (TrafficLabel K)} {x : Traffic K W}
    (hrun : Run (PatientStep target) (.start net programs) ls x) :
    ∃ (rs : List (ServiceLabel K)) (v : Service) (waiting : Nat → List Sent),
      Run (ServiceStep covers) {} rs v ∧
      List.Forall₂ TrafficLabel.ShownAs (ls.filter TrafficLabel.handles) rs ∧
      (∀ socket, rs.filterMap (ServiceLabel.sentOn socket) ++ waiting socket =
        programs socket) ∧
      (∀ socket, ((waiting socket).flatMap fun a => a.frame.bytes) =
        input socket x.server.machine.net ++ x.coming socket) ∧
      (∀ topic key, KeyFor target Topic topic key →
        (x.server.store.get key).map DataStoreEntry.data = v.value topic) ∧
      (∀ socket, Finds (x.server.bytesTo socket)
        (Told.Post.onSocket socket (rs.flatMap ServiceLabel.told))) ∧
      ∀ turn : Turn K, turn.env.target = target → turn.conn.copy = none →
        (Ready (input turn.conn.socket x.server.machine.net) →
          ∃ r, x.turn turn = .ok r) ∧
        (∀ a later, waiting turn.conn.socket = a :: later → x.coming turn.conn.socket = [] →
          ∃ status x', x.turn turn = .ok (some (a.frame.packet turn.conn, status), x')) := by
  have hstart : (Traffic.start (K := K) net programs).Carries target Topic covers net {}
      programs := by
    refine ⟨serves_initial hnet, hprograms, fun socket => ?_⟩
    rw [show input socket (Traffic.start (K := K) net programs).server.machine.net = [] from
      hnet socket]
    rfl
  obtain ⟨rs, v, waiting, hwent⟩ := Traffic.run_went hstart hS hrun
  obtain ⟨ws, hwritten, hvoices⟩ := hwent.written
  obtain rfl : x.server.machine.written = ws := hwritten
  have hcarries := hwent.carries
  refine ⟨rs, v, waiting, hwent.run, hwent.shown, hwent.order, hcarries.stream,
    fun topic key hkey => hcarries.serves.store_get hkey, hvoices.finds hwent.fits, ?_⟩
  rintro turn rfl owned
  constructor
  · intro hready
    obtain ⟨r, m', hok, -⟩ := (hcarries.serve_ready hS owned hready).exists_ok
    refine ⟨(r.1, ⟨⟨r.2, m'⟩, x.coming⟩), ?_⟩
    rw [Traffic.turn, hok]
    rfl
  · intro a later hwaiting hcoming
    have hstream := hcarries.stream turn.conn.socket
    rw [hwaiting, hcoming, List.append_nil, List.flatMap_cons] at hstream
    obtain ⟨⟨_, store'⟩, m', hok, a', later', status, -, -, hwaiting', rfl, -⟩ :=
      (hcarries.serve_packet hS owned ⟨_, hstream⟩).exists_ok
    obtain ⟨rfl, rfl⟩ := List.cons.inj (hwaiting.symm.trans hwaiting')
    refine ⟨status, ⟨⟨store', m'⟩, x.coming⟩, ?_⟩
    rw [Traffic.turn, hok]
    rfl

end

/-- The client 7 subscribes to `a`, and then to `cc`; the client 11 publishes to `a`. -/
def twoPrograms (socket : Nat) : List Sent :=
  if socket = 1 then [subscribeToA.sent, subscribeToCc.sent]
  else if socket = 2 then [publishToA.sent]
  else []
where
  subscribeToCc : Arrival := subscribeAs7 3 [⟨[0x63, 0x63], 1⟩] (by decide) (by decide)
  publishToA : Arrival := .ofMessage { socket := 2, id := 11 } 0x38 (.publish [0x61] 9 [0x21]) rfl
    rfl (by decide) (by decide)

/-- A turn to the client with this socket and id. -/
def turnTo (socket : Nat) (id : UInt32) : Turn StdString where
  env := ⟨{}, 0, .asKept StdString⟩
  conn := { socket, id }
  before := 0
  after := 0

/-- A part of the SUBSCRIBE arrives, the loop turns to the client 11, the rest arrives, and
then the loop turns to the clients 7, 11 and 7. -/
theorem interleavings_refine_two :
    ∃ (ls : List (TrafficLabel StdString)) (x : Traffic StdString Wire)
      (rs : List (ServiceLabel StdString)) (v : Service) (waiting : Nat → List Sent),
      Run (PatientStep {}) (.start {} twoPrograms) ls x ∧ Run (ServiceStep stringCovers) {} rs v ∧
      List.Forall₂ TrafficLabel.ShownAs (ls.filter TrafficLabel.handles) rs ∧
      (∀ socket, rs.filterMap (ServiceLabel.sentOn socket) ++ waiting socket =
        twoPrograms socket) ∧
      x.server.bytesTo 1 = [0x90, 3, 0, 1, 0, 0x30, 4, 0, 1, 0x61, 0x21, 0x90, 3, 0, 3, 0] ∧
      Finds [0x90, 3, 0, 1, 0, 0x30, 4, 0, 1, 0x61, 0x21, 0x90, 3, 0, 3, 0]
        (Told.Post.onSocket 1 (rs.flatMap ServiceLabel.told)) := by
  have hnet : ∀ socket, input socket ({} : Wire) = [] := fun _ => rfl
  have hprograms : ∀ socket, ∀ a ∈ twoPrograms socket, a.msg.Speakable fun _ => True := by
    intro socket a _
    cases hmsg : a.msg <;> simp [Message.Speakable]
  -- what is there when the loop turns to a client is seen on the way
  obtain ⟨_, _, h, hview⟩ := exists_ok_of_map
    (t := ((Traffic.start ({} : Wire) twoPrograms).carry 1 5).turn (turnTo 2 11) >>= fun r₁ =>
      let x₂ := (r₁.2.carry 1 99).carry 2 99
      x₂.turn (turnTo 1 7) >>= fun r₂ => r₂.2.turn (turnTo 2 11) >>= fun r₃ =>
        r₃.2.turn (turnTo 1 7) >>= fun r₄ =>
          pure ((r₄.1, [input 1 x₂.server.machine.net, input 2 r₂.2.server.machine.net,
            input 1 r₃.2.server.machine.net]), r₄.2))
    (g := fun r => (r.1.2, r.2.server.bytesTo 1))
    (c := ([subscribeToA.frame.bytes ++ twoPrograms.subscribeToCc.frame.bytes,
        twoPrograms.publishToA.frame.bytes, twoPrograms.subscribeToCc.frame.bytes],
      [0x90, 3, 0, 1, 0, 0x30, 4, 0, 1, 0x61, 0x21, 0x90, 3, 0, 3, 0])) (by decide +kernel)
  obtain ⟨handled₁, x₂, hturn₁, h⟩ := exists_ok_of_bind h
  obtain ⟨handled₂, x₃, hturn₂, h⟩ := exists_ok_of_bind h
  obtain ⟨handled₃, x₄, hturn₃, h⟩ := exists_ok_of_bind h
  obtain ⟨handled₄, x₅, hturn₄, h⟩ := exists_ok_of_bind h
  cases h
  obtain ⟨hins, hbytes⟩ := Prod.mk.inj hview
  obtain ⟨hin₁, hins⟩ := List.cons.inj hins
  obtain ⟨hin₂, hins⟩ := List.cons.inj hins
  obtain ⟨hin₃, -⟩ := List.cons.inj hins
  have hready₁ : Ready (input 2 ((Traffic.start (K := StdString) ({} : Wire)
      twoPrograms).carry 1 5).server.machine.net) := .inl rfl
  have hready₂ : Ready (input 1 ((x₂.carry 1 99).carry 2 99).server.machine.net) :=
    .inr ⟨subscribeToA.frame, hin₁ ▸ List.prefix_append _ _⟩
  have hready₃ : Ready (input 2 x₃.server.machine.net) :=
    .inr ⟨twoPrograms.publishToA.frame, hin₂ ▸ List.prefix_rfl⟩
  have hready₄ : Ready (input 1 x₄.server.machine.net) :=
    .inr ⟨twoPrograms.subscribeToCc.frame, hin₃ ▸ List.prefix_rfl⟩
  have hrun : Run (PatientStep {}) (.start {} twoPrograms) [.carried,
      .turned (turnTo 2 11) handled₁, .carried, .carried, .turned (turnTo 1 7) handled₂,
      .turned (turnTo 2 11) handled₃, .turned (turnTo 1 7) handled₄] x₅ := by
    refine .cons ⟨trivial, .carry 1 5⟩ (.cons ⟨hready₁, .turn rfl rfl hturn₁⟩ ?_)
    refine .cons ⟨trivial, .carry 1 99⟩ (.cons ⟨trivial, .carry 2 99⟩ ?_)
    refine .cons ⟨hready₂, .turn rfl rfl hturn₂⟩ ?_
    refine .cons ⟨hready₃, .turn rfl rfl hturn₃⟩ ?_
    exact .cons ⟨hready₄, .turn rfl rfl hturn₄⟩ .nil
  obtain ⟨rs, v, waiting, hservice, hshown, horder, -, -, hfinds, -⟩ :=
    interleavings_refine hnet (speaks_string {}) hprograms hrun
  exact ⟨_, x₅, rs, v, waiting, hrun, hservice, hshown, horder, hbytes, hbytes ▸ hfinds 1⟩

end Gnat
