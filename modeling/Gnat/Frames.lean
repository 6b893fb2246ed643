/-
Gnat/Frames.lean

The server on frames with anything in them.

`Gnat.Simulation` is about messages that are well formed.  Here any complete
frames arrive, in any order on any connections.  A frame that carries a
well-formed message is a step of the broker, as before.  For any other frame that
the server returns from, `Malformed` says what it did: it refused a string that
does not fit or a filter with a `+`, or it acknowledged a SUBSCRIBE without
filters; none of these touches the board.  So a run of the server is a run of the
broker with such steps in between (`frames_simulated`), and whatever is on the
board came in a well-formed PUBLISH.
-/
import Gnat.Grammar
import Gnat.Simulation

namespace Gnat

open Lib Prog StreamNetwork

/-! ### Frames as events -/

/-- A complete frame arrives on a connection the application owns. -/
structure FrameArrival where
  conn : ClientConnection
  frame : Frame
  timestamp : UInt32 := 0
  owned : conn.copy = none := by rfl

/-- The arrival of the well-formed message a frame carries. -/
def FrameArrival.carrying (a : FrameArrival) (msg : Message) (carries : a.frame.Carries msg)
    (wellFormed : msg.WellFormed) : Arrival where
  conn := a.conn
  frame := a.frame
  msg := msg
  timestamp := a.timestamp
  owned := a.owned
  carries := carries
  wellFormed := wellFormed

/-- What happens to a server: a frame arrives, or a client's observers are removed. -/
inductive FrameEvent (K : Type)
  | frame (a : FrameArrival) (order : IterationOrder K)
  | remove (clientId : UInt32)

section

variable {W : Type} [ReliableNetwork W] {K : Type} [DecidableEq K] [KeyType K]

/-- The machine once the frame is there. -/
def Machine.receive (m : Machine W) (a : FrameArrival) : Machine W :=
  { m with net := ReliableNetwork.arrive a.conn.socket a.frame.bytes m.net }

/-- The turn of the server loop for a frame. -/
def FrameArrival.turn (target : Target) (a : FrameArrival) (order : IterationOrder K) :
    Turn K where
  env := ⟨target, a.timestamp, order⟩
  conn := a.conn
  before := 0
  after := 0

/-- An event happens to a server; the status is that of the packet. -/
def FrameEvent.process (target : Target) (s : ServerState K W) :
    FrameEvent K → Except Fault (Option Status × ServerState K W)
  | frame a order => do
      let ((handled, store), machine) ← serve (a.turn target order) s.store (s.machine.receive a)
      return (handled.map Prod.snd, ⟨store, machine⟩)
  | remove clientId =>
      return (none, ⟨s.store.removeObserversForClient clientId, s.machine⟩)

/-- A list of events happens to a server. -/
def processFrames (target : Target) (s : ServerState K W) :
    List (FrameEvent K) → Except Fault (List (Option Status) × ServerState K W)
  | [] => return ([], s)
  | e :: events => do
      let (status, s₁) ← e.process target s
      let (statuses, s') ← processFrames target s₁ events
      return (status :: statuses, s')

/-- A frame that carries a well-formed message is processed as the message is. -/
theorem process_carrying (target : Target) (s : ServerState K W) (a : FrameArrival)
    (order : IterationOrder K) {msg : Message} (carries : a.frame.Carries msg)
    (wellFormed : msg.WellFormed) :
    (FrameEvent.frame a order).process target s =
      (Event.packet (a.carrying msg carries wellFormed) order).process target s := rfl

end

/-! ### Malformed packets -/

/-- The frame carries no well-formed message. -/
def Frame.Garbled (f : Frame) : Prop :=
  ∀ msg, f.Carries msg → ¬ msg.WellFormed

/-- What the server does with a frame that carries no well-formed message: the status, the
writes and the number of heap copies made. -/
inductive Malformed (conn : ClientConnection) (f : Frame) :
    Status → List Write → (copies : Nat) → Prop
  /-- The protocol name is too long: the CONNACK has the error code, and goes out on
  the connection with whatever type an empty optional gave it. -/
  | connect {w : Write} : f.type = .connect → LongString 6 f.body →
      w.via.socket = conn.socket → w.via.id = conn.id → w.via.copy = none →
      w.bytes = framed 0x20 [0, 0x80] → w.accepted = true → Malformed conn f .ok [w] 0
  | publish : f.type = .publish → LongString 128 f.body →
      Malformed conn f (.failure "No publish header!") [] 0
  /-- A SUBSCRIBE without filters is acknowledged like one with a filter. -/
  | noFilter {packetId : UInt16} : f.type = .subscribe → f.body = wireBytes packetId.toNat →
      Malformed conn f .ok [⟨conn, subackFrame packetId [0], true⟩] 0
  | filter {packetId : UInt16} {filters : List Filter} {more : List UInt8} {copies : Nat} :
      f.type = .subscribe → (∀ g ∈ filters, g.Accepted) →
      f.body = (Message.subscribe packetId filters).body 0 ++ more → StopsAt more copies →
      Malformed conn f (.failure "") [] (filters.length + copies)

section

variable {W : Type} [ReliableNetwork W] {K : Type} [DecidableEq K] [KeyType K]
variable {env : Env K} {store : Store K W} {conn : ClientConnection} {f : Frame} {n : Nat}
variable {rest : List UInt8} {m : Machine W}

/-- What handling a malformed packet comes to: nothing happens to the store, and the
rest of the body is not read yet. -/
structure Refuses (conn : ClientConnection) (f : Frame) (n : Nat) (store : Store K W)
    (m : Machine W) (status : Status) (p' : Packet) (store' : Store K W) (m' : Machine W) :
    Prop where
  malformed : ∃ replies copies, Malformed conn f status replies copies ∧
    m'.written = m.written ++ replies ∧ m'.heapCopies = n + copies
  store_eq : store' = store
  budget : Budget (f.packet conn, m) (p', m')
  others : ∀ s, s ≠ conn.socket → input s m'.net = input s m.net

omit [DecidableEq K] [KeyType K] in
/-- A parser gave up, and nothing was written. -/
theorem Refuses.of_reads {status : Status} {p' : Packet} {copies : Nat} {m' : Machine W}
    (h : Malformed conn f status [] copies) (hr : Reads (f.packet conn, m) (p', m'))
    (hcopies : m'.heapCopies = n + copies) :
    Refuses conn f n store m status p' store m' where
  malformed := ⟨[], copies, h, hr.sameOutput.written.trans (List.append_nil _).symm, hcopies⟩
  store_eq := rfl
  budget := hr.budget
  others _ hs := hr.others hs

omit [DecidableEq K] [KeyType K] in
/-- A parser gave up, or met nothing, and a reply was written. -/
theorem Refuses.of_reply {status : Status} {p₁ p' : Packet} {w : Write} {m₁ m' : Machine W}
    (h : Malformed conn f status [w] 0) (hr : Reads (f.packet conn, m) (p₁, m₁))
    (hw : Wrote [w] m₁ m') (hsocket : p'.connection.socket = p₁.connection.socket)
    (hsize : p'.bytesRemaining = p₁.bytesRemaining) (hcopies : m₁.heapCopies = n) :
    Refuses conn f n store m status p' store m' where
  malformed := ⟨[w], 0, h, by rw [hw.written, hr.sameOutput.written],
    by rw [hw.heapCopies, hcopies]; rfl⟩
  store_eq := rfl
  budget := hr.budget.of_same_input hsocket hsize hw.input
  others s hs := (hw.input s).trans (hr.others hs)

omit [DecidableEq K] [KeyType K] in
theorem handleConnect_refuses {target : Target} (howned : conn.copy = none)
    (hf : f.type = .connect) (hgarbled : f.Garbled)
    (h : At conn n f.body rest (f.packet conn) m) :
    wp (handleConnect target (f.packet conn))
      (fun r m' => Refuses conn f n store m r.1 r.2 store m') (fun _ => True) m := by
  simp only [handleConnect, wp_bind]
  refine wp_imp (wp_and (Connect.readFrom_reads target (f.packet conn) m) h.connect_any) ?_
  rintro ⟨connect, p₁⟩ m₁ ⟨hr, ⟨name, level, flags, keepAlive, payload, hname, hbody⟩ |
    ⟨rfl, hlong, hcopies⟩⟩
  · exact absurd hname (hgarbled (.connect name level flags keepAlive payload) ⟨hf, hbody⟩)
  rw [wp_ofExcept]
  split
  swap
  · trivial
  next level hlevel =>
  refine wp_imp (ConnectAck.sendOn_wrote _) ?_
  rintro _ m₂ ⟨rfl, hw⟩
  rw [if_pos rfl]
  have hconn : p₁.connection = conn := hr.sameOutput.connection
  have htype : ∀ type, (setConnectionType p₁ type).connection.socket = conn.socket ∧
      (setConnectionType p₁ type).connection.id = conn.id ∧
      (setConnectionType p₁ type).connection.copy = none := by
    intro type
    rw [← howned, ← hconn]
    cases type <;> exact ⟨rfl, rfl, rfl⟩
  obtain ⟨hsocket, hid, hcopy⟩ := htype (connectionTypeOf level)
  exact .of_reply (.connect hf hlong hsocket hid hcopy rfl rfl) hr hw
    (setConnectionType_socket _ _) (setConnectionType_bytesRemaining _ _) hcopies

theorem handlePublish_refuses (hf : f.type = .publish) (hgarbled : f.Garbled)
    (h : At conn n f.body rest (f.packet conn) m) :
    wp (handlePublish env store (f.packet conn))
      (fun r m' => Refuses conn f n store m r.1 r.2.1 r.2.2 m') (fun _ => True) m := by
  simp only [handlePublish, wp_bind]
  refine wp_imp (wp_and (Publish.readFrom_reads (f.packet conn) (f.packet conn).typeFlags m)
    (h.publish_any _)) ?_
  rintro ⟨publish, p₁⟩ m₁ ⟨⟨hr, -⟩, ⟨topic, packetId, payload, htopic, hbody⟩ |
    ⟨rfl, hlong, hcopies⟩⟩
  · exact absurd htopic (hgarbled (.publish topic packetId payload) ⟨hf, hbody⟩)
  · exact .of_reads (.publish hf hlong) hr hcopies

omit [DecidableEq K] in
theorem handleSubscribe_refuses (hf : f.type = .subscribe) (hgarbled : f.Garbled)
    (h : At conn n f.body rest (f.packet conn) m) :
    wp (handleSubscribe env store (f.packet conn))
      (fun r m' => Refuses conn f n store m r.1 r.2.1 r.2.2 m') (fun _ => True) m := by
  simp only [handleSubscribe, wp_bind]
  rw [show (f.packet conn).connection = conn from rfl]
  refine wp_imp (wp_and (Subscribe.readFrom_reads (topicCallback_quiet env.target conn) none
    (f.packet conn) m (by rintro _ ⟨⟩)) h.subscribe_any) ?_
  rintro ⟨_, captured, p₁⟩ m₁ ⟨⟨-, hr⟩, packetId, filters, hall,
    ⟨subscribe, rfl, rfl, hbody, hnil, hcopies⟩ | ⟨rfl, more, copies, hbody, hstops, hcopies⟩⟩
  · -- a list of filters would make the message well formed
    obtain rfl : filters = [] := by
      by_contra hne
      exact hgarbled (.subscribe subscribe.packetId filters) ⟨hf, hbody⟩
        ⟨hne, fun g hg => (hall g hg).1⟩
    obtain rfl : captured = none := hnil rfl
    have hconn : p₁.connection = conn := hr.sameOutput.connection
    rw [wp_bind]
    refine wp_imp (SubscribeAck.sendOn_wrote subscribe.packetId) ?_
    rintro _ m₂ ⟨rfl, hw⟩
    rw [hconn] at hw
    have hid : f.body = wireBytes subscribe.packetId.toNat := by
      rw [hbody, Message.body, List.flatMap_nil, List.append_nil]
    exact .of_reply (.noFilter hf hid) hr hw rfl rfl hcopies
  · exact .of_reads (.filter hf hall hbody hstops) hr (by rw [hcopies, Nat.add_assoc])

/-- **Handling a malformed packet.** -/
theorem handleMessage_refuses (howned : conn.copy = none) (hgarbled : f.Garbled)
    (h : At conn n f.body rest (f.packet conn) m) :
    wp (handleMessage env store (f.packet conn))
      (fun r m' => Refuses conn f n store m r.1 r.2.1 r.2.2 m') (fun _ => True) m := by
  unfold handleMessage
  rw [show (f.packet conn).type = f.type from rfl]
  -- a packet of any other type is well formed
  have hother : f.type ≠ .connect → f.type ≠ .publish → f.type ≠ .subscribe → False :=
    fun hconnect hpublish hsubscribe =>
      hgarbled (.other f.type f.body) ⟨rfl, rfl⟩ ⟨hconnect, hpublish, hsubscribe⟩
  split
  · next hf =>
    rw [wp_bind]
    exact wp_imp (handleConnect_refuses howned hf hgarbled h) fun _ _ hr => hr
  · next hf => exact handlePublish_refuses hf hgarbled h
  · next hf => exact handleSubscribe_refuses hf hgarbled h
  · next hf => exact (hother (by rw [hf]; decide) (by rw [hf]; decide) (by rw [hf]; decide)).elim
  · next hf => exact (hother (by rw [hf]; decide) (by rw [hf]; decide) (by rw [hf]; decide)).elim
  · next hconnect hpublish hsubscribe _ _ => exact (hother hconnect hpublish hsubscribe).elim

end

/-! ### Steps -/

namespace Broker

variable {K : Type} [DecidableEq K] [KeyType K]

/-- What a step did: its event, the status of the packet and what was written. -/
structure FrameLabel (K : Type) where
  event : FrameEvent K
  status : Option Status
  writes : List Write

/-- The steps of a broker that any frames arrive at. -/
inductive FrameStep (target : Target) : Broker K → FrameLabel K → Broker K → Prop
  | carried {b b' : Broker K} {a : FrameArrival} {order : IterationOrder K} {msg : Message}
      {l : Label K} (carries : a.frame.Carries msg) (wellFormed : msg.WellFormed) :
      Step target b l b' → l.event = .packet (a.carrying msg carries wellFormed) order →
      FrameStep target b ⟨.frame a order, l.status, l.writes⟩ b'
  | malformed {b : Broker K} {a : FrameArrival} {order : IterationOrder K} {status : Status}
      {replies : List Write} {copies : Nat} :
      a.frame.Garbled → Malformed a.conn a.frame status replies copies →
      FrameStep target b ⟨.frame a order, some status, replies⟩ ⟨b.board, b.copies + copies⟩
  | removed {b b' : Broker K} {clientId : UInt32} {l : Label K} :
      Step target b l b' → l.event = .remove clientId →
      FrameStep target b ⟨.remove clientId, l.status, l.writes⟩ b'

omit [DecidableEq K] in
/-- More heap copies do no harm. -/
theorem WellFormed.more_copies {b : Broker K} (h : b.WellFormed) (copies : Nat) :
    WellFormed ⟨b.board, b.copies + copies⟩ where
  deliverable := h.deliverable
  numbered w hw := by
    obtain ⟨n, hn, hcopy⟩ := h.numbered w hw
    exact ⟨n, Nat.lt_add_right copies hn, hcopy⟩

end Broker

variable {W : Type} [ReliableNetwork W] {K : Type} [DecidableEq K] [KeyType K]
variable {b : Broker K} {s s' : ServerState K W}

/-- A turn on a malformed packet. -/
theorem Simulates.serve_malformed (h : Simulates b s) (target : Target) (a : FrameArrival)
    (order : IterationOrder K) (hgarbled : a.frame.Garbled) :
    wp (Gnat.serve (a.turn target order) s.store)
      (fun r m' => ∃ status replies copies, r.1.map Prod.snd = some status ∧
        Malformed a.conn a.frame status replies copies ∧
        m'.written = s.machine.written ++ replies ∧
        Simulates ⟨b.board, b.copies + copies⟩ ⟨r.2, m'⟩)
      (fun _ => True) (s.machine.receive a) := by
  have hin : input a.conn.socket (s.machine.receive a).net =
      a.frame.header ++ (a.frame.body ++ []) := by
    rw [List.append_nil]
    show input a.conn.socket (ReliableNetwork.arrive _ _ _) = a.frame.bytes
    rw [ReliableNetwork.arrive_input, h.idle, List.nil_append]
  unfold Gnat.serve
  rw [wp_bind]
  refine wp_imp (readNext_frame a.frame hin) ?_
  rintro _ m₁ ⟨rfl, h₁⟩
  rw [wp_bind, show (a.turn target order).before = 0 from rfl, wp_relocateTimes, wp_bind]
  have hat : At a.conn b.copies a.frame.body [] (a.frame.packet a.conn) m₁ :=
    ⟨rfl, rfl, h₁.rest hin, h₁.heapCopies.trans h.copies⟩
  refine wp_imp (handleMessage_refuses a.owned hgarbled hat) ?_
  rintro ⟨status, p', store'⟩ m₂ hrefuses
  obtain rfl : store' = s.store := hrefuses.store_eq
  rw [wp_bind, show (a.turn target order).after = 0 from rfl, wp_relocateTimes, wp_bind]
  -- the destructor drains what the handler left of the packet
  have hsocket : p'.connection.socket = a.conn.socket := hrefuses.budget.1
  have hempty := destroy_budget hrefuses.budget rfl hat.front
  refine wp_mono (wp_and destroy_quiet hempty) ?_ fun _ _ => trivial
  rintro _ m₃ ⟨⟨hwritten, hcopies, hothers⟩, hrest⟩
  obtain ⟨replies, copies, hmalformed, hreplies, hmade⟩ := hrefuses.malformed
  refine ⟨status, replies, copies, rfl, hmalformed, ?_, h.represents, hcopies.trans hmade,
    h.wellFormed.more_copies copies, fun socket => ?_⟩
  · rw [hwritten, hreplies, h₁.written]
    rfl
  · by_cases hs : socket = a.conn.socket
    · rw [hs]
      exact hrest
    · have hother : input socket m₃.net = input socket m₂.net := by
        apply hothers
        rw [hsocket]
        exact hs
      rw [hother, hrefuses.others socket hs, h₁.others socket hs, ← h.idle socket]
      exact ReliableNetwork.arrive_other hs

variable [LawfulKeyType K]

/-- **One event**, whatever the frame has in it. -/
theorem Simulates.processFrame (h : Simulates b s) {target : Target} {e : FrameEvent K}
    {status : Option Status} (hok : e.process target s = .ok (status, s')) :
    ∃ l b', Broker.FrameStep target b l b' ∧ l.event = e ∧ l.status = status ∧
      s'.machine.written = s.machine.written ++ l.writes ∧ Simulates b' s' := by
  cases e with
  | frame a order =>
      by_cases hcarries : ∃ msg, a.frame.Carries msg ∧ msg.WellFormed
      · obtain ⟨msg, carries, wellFormed⟩ := hcarries
        rw [process_carrying target s a order carries wellFormed] at hok
        obtain ⟨l, b', hstep, hevent, rfl, hwrites, h'⟩ := (h.process target _).1 _ _ hok
        exact ⟨_, b', .carried carries wellFormed hstep hevent, rfl, rfl, hwrites, h'⟩
      · have hgarbled : a.frame.Garbled := fun msg carries wellFormed =>
          hcarries ⟨msg, carries, wellFormed⟩
        obtain ⟨⟨handled, store'⟩, m', hserve, heq⟩ := exists_ok_of_bind hok
        cases heq
        obtain ⟨status, replies, copies, hstatus, hmalformed, hwrites, h'⟩ :=
          (h.serve_malformed target a order hgarbled).ok hserve
        exact ⟨_, _, .malformed hgarbled hmalformed, rfl, hstatus.symm, hwrites, h'⟩
  | remove clientId =>
      obtain ⟨l, b', hstep, hevent, rfl, hwrites, h'⟩ :=
        (h.process target (.remove clientId)).1 _ _ hok
      exact ⟨_, b', .removed hstep hevent, rfl, rfl, hwrites, h'⟩

/-- **Any frames at all**: what the server does with a list of them, if it returns, is a
run of the broker with the malformed packets in between: the same statuses, the same
writes, and afterwards the same board. -/
theorem Simulates.processFrames (h : Simulates b s) {target : Target}
    {events : List (FrameEvent K)} {statuses : List (Option Status)}
    (hok : Gnat.processFrames target s events = .ok (statuses, s')) :
    ∃ ls b', Run (Broker.FrameStep target) b ls b' ∧
      ls.map Broker.FrameLabel.event = events ∧ ls.map Broker.FrameLabel.status = statuses ∧
      s'.machine.written = s.machine.written ++ ls.flatMap Broker.FrameLabel.writes ∧
      Simulates b' s' := by
  induction events generalizing b s statuses with
  | nil =>
      cases hok
      exact ⟨[], b, .nil, rfl, rfl, (List.append_nil _).symm, h⟩
  | cons e events ih =>
      obtain ⟨status, s₁, hprocess, hok⟩ := exists_ok_of_bind hok
      obtain ⟨rest, s₂, hall, hok⟩ := exists_ok_of_bind hok
      cases hok
      obtain ⟨l, b₁, hstep, rfl, rfl, hwrites, h₁⟩ := h.processFrame hprocess
      obtain ⟨ls, b', hrun, rfl, rfl, hwrites', h'⟩ := ih h₁ hall
      refine ⟨l :: ls, b', .cons hstep hrun, rfl, rfl, ?_, h'⟩
      rw [hwrites', hwrites, List.flatMap_cons, List.append_assoc]

/-! ### What is retained -/

/-- The entry came in a well-formed PUBLISH, in one of the events. -/
def CameIn (target : Target) (events : List (FrameEvent K)) (key : K)
    (entry : DataStoreEntry) : Prop :=
  ∃ a order topic packetId payload, .frame a order ∈ events ∧
    a.frame.Carries (.publish topic packetId payload) ∧ topic.length ≤ 128 ∧
    KeyType.encodeKey target topic topic.length = .ok key ∧
    entry.data = payload ∧ entry.timestamp = a.timestamp

omit [LawfulKeyType K] in
/-- What a step puts on the board came in its event. -/
theorem Broker.FrameStep.value {target : Target} {b b' : Broker K} {l : Broker.FrameLabel K}
    (h : Broker.FrameStep target b l b') {key : K} {entry : DataStoreEntry}
    (hvalue : b'.board.value key = some entry) :
    b.board.value key = some entry ∨ CameIn target [l.event] key entry := by
  cases h with
  | malformed => exact .inl hvalue
  | @carried _ a order msg l carries wellFormed hstep hevent =>
      cases hstep with
      | @publish a' order' topic payload packetId key' _ _ hmsg hkey hboard =>
          obtain ⟨rfl, -⟩ := Event.packet.inj hevent
          obtain rfl : msg = .publish topic packetId payload := hmsg
          obtain ⟨-, rfl⟩ := hboard.inv
          rcases eq_or_ne key key' with rfl | hne
          · obtain rfl : (a.carrying _ carries wellFormed).entry payload = entry := by
              simpa [Board.after] using hvalue
            exact .inr ⟨a, order, topic, packetId, payload, List.mem_cons_self, carries,
              wellFormed, hkey, rfl, rfl⟩
          · exact .inl (by simpa [Board.after, Function.update_of_ne hne] using hvalue)
      | subscribe _ _ _ _ hboard =>
          obtain ⟨-, rfl⟩ := hboard.inv
          exact .inl hvalue
      | reject | other => exact .inl hvalue
      | remove => cases hevent
  | removed hstep hevent =>
      cases hstep with
      | publish | subscribe | reject | other => cases hevent
      | remove hboard =>
          obtain ⟨-, rfl⟩ := hboard.inv
          exact .inl hvalue

omit [DecidableEq K] [LawfulKeyType K] in
theorem CameIn.mono {target : Target} {events events' : List (FrameEvent K)} {key : K}
    {entry : DataStoreEntry} (h : CameIn target events key entry)
    (hsub : ∀ e ∈ events, e ∈ events') : CameIn target events' key entry := by
  obtain ⟨a, order, topic, packetId, payload, hmem, hrest⟩ := h
  exact ⟨a, order, topic, packetId, payload, hsub _ hmem, hrest⟩

omit [LawfulKeyType K] in
theorem value_cameIn {target : Target} {b b' : Broker K} {ls : List (Broker.FrameLabel K)}
    (h : Run (Broker.FrameStep target) b ls b') {key : K} {entry : DataStoreEntry}
    (hvalue : b'.board.value key = some entry) :
    b.board.value key = some entry ∨
      CameIn target (ls.map Broker.FrameLabel.event) key entry := by
  induction h with
  | nil => exact .inl hvalue
  | cons hstep _ ih =>
      rcases ih hvalue with hvalue | hcame
      · rcases hstep.value hvalue with hvalue | hcame
        · exact .inl hvalue
        · exact .inr (hcame.mono fun e he => List.mem_cons.mpr (.inl (List.mem_singleton.mp he)))
      · exact .inr (hcame.mono fun e he => List.mem_cons_of_mem _ he)

/-- **The server on any frames.**  On a reliable network, from its start, whatever
complete frames arrive in whatever order: as long as the server returns, it is a broker
that steps on the frames with well-formed messages and refuses the others, with the same
statuses and writes; and every entry in its store came in a well-formed PUBLISH. -/
theorem frames_simulated {target : Target} {net : W} (hnet : ∀ socket, input socket net = [])
    {events : List (FrameEvent K)} {statuses : List (Option Status)} {s' : ServerState K W}
    (hok : processFrames target (.initial K net) events = .ok (statuses, s')) :
    (∃ ls b', Run (Broker.FrameStep target) {} ls b' ∧
      ls.map Broker.FrameLabel.event = events ∧ ls.map Broker.FrameLabel.status = statuses ∧
      s'.machine.written = ls.flatMap Broker.FrameLabel.writes ∧ Simulates b' s') ∧
    ∀ key entry, s'.store.get key = some entry → CameIn target events key entry := by
  obtain ⟨ls, b', hrun, rfl, rfl, hwrites, h'⟩ := (simulates_initial hnet).processFrames hok
  refine ⟨⟨ls, b', hrun, rfl, rfl, hwrites, h'⟩, fun key entry hget => ?_⟩
  have hvalue : b'.board.value key = some entry := (h'.represents.entries key).symm.trans hget
  rcases value_cameIn hrun hvalue with hnone | hcame
  · cases hnone
  · exact hcame

/-- A body of at most a hundred bytes arrives on a connection the application owns. -/
def FrameArrival.short (socket : Nat) (id : UInt32) (control : UInt8) (body : List UInt8)
    (h : body.length ≤ 100) : FrameArrival where
  conn := { socket := socket, id := id }
  frame := .ofBody control body (by omega)

theorem publishHiBody_short : publishHiFrame.body.length ≤ 100 := by decide

theorem plusBody_short : [(0 : UInt8), 1, 0, 1, 0x2B].length ≤ 100 := by decide

theorem longNameBody_short : [(0 : UInt8), 7, 0x4D].length ≤ 100 := by decide

/-- A PUBLISH of `hi` to `a`, a SUBSCRIBE for `+` whose options are missing, and a CONNECT
with a protocol name of seven bytes. -/
def mixedFrames : List (FrameEvent StdString) :=
  [.frame (.short 1 7 0x30 publishHiFrame.body publishHiBody_short) (.asKept StdString),
    .frame (.short 2 8 0x82 [0, 1, 0, 1, 0x2B] plusBody_short) (.asKept StdString),
    .frame (.short 3 9 0x10 [0, 7, 0x4D] longNameBody_short) (.asKept StdString)]

theorem frames_simulated_mixed :
    ∃ s' : ServerState StdString Wire,
      processFrames {} (.initial StdString {}) mixedFrames =
        .ok ([some .ok, some (.failure ""), some .ok], s') ∧
      s'.store.entries.keys = [⟨[0x61]⟩] ∧
      ∀ key entry, s'.store.get key = some entry → CameIn {} mixedFrames key entry := by
  obtain ⟨statuses, s', hok, hview⟩ := exists_ok_of_map
    (t := processFrames {} (.initial StdString ({} : Wire)) mixedFrames)
    (g := fun r => (r.1, r.2.store.entries.keys))
    (c := ([some .ok, some (.failure ""), some .ok], [⟨[0x61]⟩])) (by decide +kernel)
  obtain ⟨rfl, hkeys⟩ := Prod.mk.inj hview
  exact ⟨s', hok, hkeys, (frames_simulated (fun _ => rfl) hok).2⟩

end Gnat
