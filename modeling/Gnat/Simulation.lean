/-
Gnat/Simulation.lean

On a reliable network the server is a broker.

`process` lets an event happen to a server: the frame of an arrival is put on
its socket and one turn of the server loop handles it.  `Simulates b s` relates
a broker to a server state; `Simulates.process` says that an event which
returns is a step of the broker, with the same status and the same writes, and
that it does return if the topics of the packet have keys.  `processAll` does
the same for a list of events.
-/
import Gnat.Broker
import Gnat.Sync

namespace Gnat

open Lib Prog StreamNetwork

variable {W : Type} [ReliableNetwork W] {K : Type} [DecidableEq K] [KeyType K]

/-! ### Events on a server -/

/-- The machine once the frame of an arrival is there. -/
def Machine.arrive (m : Machine W) (a : Arrival) : Machine W :=
  { m with net := ReliableNetwork.arrive a.conn.socket a.frame.bytes m.net }

/-- The turn of the server loop for an arrival. -/
def Arrival.turn (target : Target) (a : Arrival) (order : IterationOrder K) : Turn K where
  env := ⟨target, a.timestamp, order⟩
  conn := a.conn
  before := 0
  after := 0

/-- An event happens to a server; the status is that of the packet. -/
def Event.process (target : Target) (s : ServerState K W) :
    Event K → Except Fault (Option Status × ServerState K W)
  | packet a order => do
      let ((handled, store), machine) ← serve (a.turn target order) s.store (s.machine.arrive a)
      return (handled.map Prod.snd, ⟨store, machine⟩)
  | remove clientId =>
      return (none, ⟨s.store.removeObserversForClient clientId, s.machine⟩)

/-- A list of events happens to a server. -/
def processAll (target : Target) (s : ServerState K W) :
    List (Event K) → Except Fault (List (Option Status) × ServerState K W)
  | [] => return ([], s)
  | e :: events => do
      let (status, s₁) ← e.process target s
      let (statuses, s') ← processAll target s₁ events
      return (status :: statuses, s')

/-! ### The broker a server stands for -/

/-- The server has the board of the broker, and nothing is left to read. -/
structure Simulates (b : Broker K) (s : ServerState K W) : Prop where
  represents : Represents Subscription.entry b.board s.store
  copies : s.machine.heapCopies = b.copies
  wellFormed : b.WellFormed
  idle : ∀ socket, input socket s.machine.net = []

theorem simulates_initial {net : W} (h : ∀ socket, input socket net = []) :
    Simulates {} (ServerState.initial K net) :=
  ⟨represents_empty, rfl, Broker.wellFormed_empty, h⟩

/-! ### Delivering -/

variable {m m' : Machine W} {E : Fault → Prop}

omit [DecidableEq K] in
theorem observer_wrote {c : Board.Call K DataStoreEntry (Subscription K)}
    (h : Broker.Deliverable c.key c.value) :
    wp (observer c.watcher.matcher c.watcher.conn c.key c.value)
      (fun _ m' => Wrote (deliver c) m m') E m := by
  obtain ⟨topic, hdecode, htopic, hlength⟩ := h
  unfold observer deliver
  rw [hdecode, wp_ite]
  split
  · simp only [wp_bind, wp_ofExcept]
    -- the frame of the entry fits into the 31 bits of its length
    have hsize : 2 + topic.length + c.value.length < 2 ^ 31 := by omega
    refine wp_imp (Publish.sendOn_wrote htopic c.value.data_length hsize) ?_
    rintro _ m₁ ⟨rfl, h₁⟩
    rw [publication, c.value.data_length]
    exact h₁
  · exact .refl m

omit [DecidableEq K] in
/-- The calls of the board are delivered, in order. -/
theorem perform_wrote {calls : List (Board.Call K DataStoreEntry (Subscription K))}
    (h : ∀ c ∈ calls, Broker.Deliverable c.key c.value) :
    wp (perform Subscription.entry calls) (fun _ m' => Wrote (calls.flatMap deliver) m m')
      E m := by
  induction calls generalizing m with
  | nil => exact .refl m
  | cons c calls ih =>
      rw [perform, List.forM_cons]
      simp only [wp_bind, wp_pure]
      refine wp_imp (observer_wrote (h c List.mem_cons_self)) fun _ m₁ h₁ => ?_
      refine wp_imp (ih fun c' hc' => h c' (List.mem_cons_of_mem c hc')) fun _ m₂ h₂ => ?_
      rw [List.flatMap_cons]
      exact h₁.trans h₂

/-- What a call tells is deliverable if what is on the board afterwards is. -/
theorem makes_deliverable {b b' : Board K DataStoreEntry (Subscription K)}
    {op : Board.Op K DataStoreEntry (Subscription K)}
    {calls : List (Board.Call K DataStoreEntry (Subscription K))}
    (h : b.Step (op, calls) b')
    (hb : ∀ key entry, b'.value key = some entry → Broker.Deliverable key entry) :
    ∀ c ∈ calls, Broker.Deliverable c.key c.value := by
  obtain ⟨hmakes, rfl⟩ := h.inv
  intro c hc
  cases hmakes with
  | set key entry =>
      obtain ⟨w, -, rfl⟩ := List.mem_map.mp hc
      exact hb key entry (Function.update_self ..)
  | watch w hl =>
      obtain ⟨⟨key, entry⟩, hmem, rfl⟩ := List.mem_map.mp hc
      exact hb key entry ((hl.2 key entry).mp hmem)
  | unwatch named => cases hc

/-! ### Handling a packet -/

theorem ReadStep.others {x y : Packet × Machine W} (h : ReadStep x y) {s : Nat}
    (hs : s ≠ x.1.connection.socket) : input s y.2.net = input s x.2.net := by
  cases h with
  | @read p m size bytes w _ hr =>
      have hother : input s (Network.read p.connection.socket size m.net).2 = input s m.net :=
        read_other hs
      rwa [hr] at hother
  | @fail p m size w hr =>
      have hother : input s (Network.read p.connection.socket size m.net).2 = input s m.net :=
        read_other hs
      rwa [hr] at hother
  | copies n => rfl

/-- A parser reads from the packet's own socket only. -/
theorem Reads.others {x y : Packet × Machine W} (h : Reads x y) {s : Nat}
    (hs : s ≠ x.1.connection.socket) : input s y.2.net = input s x.2.net := by
  induction h with
  | refl => rfl
  | tail hxy hstep ih =>
      rw [← ih]
      apply hstep.others
      rwa [(Reads.sameOutput hxy).connection]

/-- What handling a packet at the start of its body comes to: a step of the
broker, with the rest of the body not read yet. -/
structure Outcome (target : Target) (b : Broker K) (e : Event K) (p : Packet) (m : Machine W)
    (status : Status) (p' : Packet) (store' : Store K W) (m' : Machine W) : Prop where
  step : ∃ l b', Broker.Step target b l b' ∧ l.event = e ∧ l.status = some status ∧
    m'.written = m.written ++ l.writes ∧ m'.heapCopies = b'.copies ∧
    Represents Subscription.entry b'.board store'
  budget : Budget (p, m) (p', m')
  others : ∀ s, s ≠ p.connection.socket → input s m'.net = input s m.net

variable {target : Target} {b : Broker K} {a : Arrival} {order : IterationOrder K}
variable {store : Store K W} {p p₁ : Packet} {m₁ : Machine W} {rest : List UInt8}

/-- The outcome of a handler that read, and then wrote what the broker writes. -/
theorem Outcome.of_wrote {e : Event K} {status : Status} {store' : Store K W}
    {l : Broker.Label K} {b' : Broker K} {p' : Packet}
    (hstep : Broker.Step target b l b') (hr : Reads (p, m) (p₁, m₁))
    (hw : Wrote l.writes m₁ m') (hsocket : p'.connection.socket = p₁.connection.socket)
    (hsize : p'.bytesRemaining = p₁.bytesRemaining)
    (he : l.event = e) (hstatus : l.status = some status)
    (hcopies : m₁.heapCopies = b'.copies)
    (hrep : Represents Subscription.entry b'.board store') :
    Outcome target b e p m status p' store' m' where
  step := by
    refine ⟨l, b', hstep, he, hstatus, ?_, hw.heapCopies.trans hcopies, hrep⟩
    rw [hw.written, hr.sameOutput.written]
  budget := hr.budget.of_same_input hsocket hsize hw.input
  others s hs := (hw.input s).trans (hr.others hs)

/-- The outcome of a handler that read, and then answered. -/
theorem Outcome.of_answer {status : Status} {replies : List Write} {p' : Packet}
    (hanswer : a.answer = (status, replies)) (hpublish : a.msg.type ≠ .publish)
    (hsubscribe : a.msg.type ≠ .subscribe) (hr : Reads (p, m) (p₁, m₁))
    (hw : Wrote replies m₁ m') (hsocket : p'.connection.socket = p₁.connection.socket)
    (hsize : p'.bytesRemaining = p₁.bytesRemaining) (hcopies : m₁.heapCopies = b.copies)
    (hrep : Represents Subscription.entry b.board store) :
    Outcome target b (.packet a order) p m status p' store m' := by
  obtain rfl : a.answer.1 = status := by rw [hanswer]
  obtain rfl : a.answer.2 = replies := by rw [hanswer]
  refine .of_wrote (.other hpublish hsubscribe) hr ?_ hsocket hsize rfl rfl hcopies hrep
  rw [Broker.Label.writes, Broker.Label.calls, List.flatMap_nil, List.append_nil]
  exact hw

variable [LawfulKeyType K]

theorem handlePublish_outcome {topic payload : List UInt8} {packetId : UInt16}
    (hb : b.WellFormed) (hrep : Represents Subscription.entry b.board store)
    (hmsg : a.msg = .publish topic packetId payload)
    (h : At a.conn b.copies ((Message.publish topic packetId payload).body p.typeFlags) rest p m) :
    wp (handlePublish (a.turn target order).env store p)
      (fun r m' => Outcome target b (.packet a order) p m r.1 r.2.1 r.2.2 m')
      (fun _ => ¬ (Message.publish topic packetId payload).Encodable K target) m := by
  obtain ⟨htopic, -⟩ := Arrival.payload_length_lt hmsg
  simp only [handlePublish, wp_bind]
  refine wp_imp (wp_and_left (Publish.readFrom_reads p p.typeFlags m) (h.publish htopic)) ?_
  rintro ⟨_, p₁⟩ m₁ ⟨⟨hr₁, -⟩, rfl, h₁⟩
  have h₁ : At a.conn b.copies (payload ++ []) rest p₁ m₁ := by rwa [List.append_nil]
  simp only [wp_bind]
  refine wp_imp (wp_and_left (p₁.read_reads _ m₁) (h₁.read rfl)) ?_
  rintro ⟨_, p₂⟩ m₂ ⟨hr₂, rfl, h₂⟩
  simp only [wp_bind, wp_ofExcept, publishOf_bytes htopic]
  split
  · next key hkey =>
    -- `Set` is the board's `set`, and its calls are what is sent
    obtain ⟨calls, store', hmakes, hrep', hset⟩ := hrep.set key (a.entry payload)
    have hstep := Broker.Step.publish order hmsg hkey (.mk hmakes)
    have hwf := hstep.wellFormed hb
    have hset : store.set key (a.entry payload) = (do
      perform Subscription.entry calls
      return store') := hset
    show wp (store.set key (a.entry payload)) _ _ m₂
    rw [hset, wp_bind]
    refine wp_imp (perform_wrote (makes_deliverable (.mk hmakes) hwf.deliverable)) ?_
    intro _ m₃ hw
    exact .of_wrote hstep (hr₁.trans hr₂) hw rfl rfl rfl rfl h₂.heapCopies hrep'
  · next e he =>
    rintro ⟨key, hkey⟩
    cases he.symm.trans hkey

theorem handleSubscribe_outcome {filters : List Filter} {packetId : UInt16}
    (hb : b.WellFormed) (hrep : Represents Subscription.entry b.board store)
    (hmsg : a.msg = .subscribe packetId filters) (hp : p.connection = a.conn)
    (h : At a.conn b.copies ((Message.subscribe packetId filters).body 0) rest p m) :
    wp (handleSubscribe (a.turn target order).env store p)
      (fun r m' => Outcome target b (.packet a order) p m r.1 r.2.1 r.2.2 m')
      (fun _ => ¬ (Message.subscribe packetId filters).Encodable K target) m := by
  have hwf : (Message.subscribe packetId filters).WellFormed := hmsg ▸ a.wellFormed
  simp only [handleSubscribe, wp_bind]
  rw [hp]
  refine wp_imp (wp_and_left (Subscribe.readFrom_reads
    (topicCallback_quiet target a.conn) none p m (by rintro _ ⟨⟩)) (h.subscribe hwf.2)) ?_
  rintro ⟨_, captured, p₁⟩ m₁
    ⟨⟨-, hr⟩, ⟨⟨subscribe, rfl, rfl⟩, hcaptures, h₁⟩ | ⟨rfl, copies, hrejects, hcopies⟩⟩
  · -- the observer is that of the last filter
    obtain ⟨filters, f, rfl⟩ : ∃ init f, filters = init ++ [f] :=
      ⟨_, _, (List.dropLast_append_getLast hwf.1).symm⟩
    obtain ⟨hplus, key, hkey, rfl⟩ := captures_last hcaptures
    rw [wp_bind]
    refine wp_imp (SubscribeAck.sendOn_wrote subscribe.packetId) ?_
    rintro _ m₂ ⟨rfl, hack⟩
    rw [if_pos rfl, wp_bind]
    have hconn : p₁.connection = a.conn := h₁.connection
    rw [hconn] at hack ⊢
    obtain ⟨calls, store', hmakes, hrep', hadd⟩ := hrep.addObserver order
      (subscriptionTo a.conn f.topic key (b.copies + filters.length))
    have hstep := Broker.Step.subscribe order hmsg hplus hkey (.mk hmakes)
    have hdeliverable := (hstep.wellFormed hb).deliverable
    show wp (store.addObserver order (subscriptionTo a.conn f.topic key
      (b.copies + filters.length)).entry) _ _ m₂
    rw [hadd, wp_bind]
    refine wp_imp (perform_wrote (makes_deliverable (.mk hmakes) hdeliverable)) ?_
    intro _ m₃ hw
    refine .of_wrote hstep hr (hack.trans hw) rfl rfl rfl rfl ?_ hrep'
    rw [h₁.heapCopies, List.length_append]
    rfl
  -- a filter with a `+`: the heap copies made up to it stay
  · exact .of_wrote (.reject hmsg hrejects) hr (.refl m₁) rfl rfl rfl rfl hcopies hrep

omit [LawfulKeyType K] in
theorem handleConnect_outcome {name payload : List UInt8} {level flags : UInt8}
    {keepAlive : UInt16} (hrep : Represents Subscription.entry b.board store)
    (hmsg : a.msg = .connect name level flags keepAlive payload)
    (h : At a.conn b.copies ((Message.connect name level flags keepAlive payload).body 0)
      rest p m) :
    wp (handleConnect target p)
      (fun r m' => Outcome target b (.packet a order) p m r.1 r.2 store m') E m := by
  have hname : (Message.connect name level flags keepAlive payload).WellFormed :=
    hmsg ▸ a.wellFormed
  simp only [handleConnect, wp_bind]
  refine wp_imp (wp_and_left (Connect.readFrom_reads target p m) (h.connect hname)) ?_
  rintro ⟨_, p₁⟩ m₁ ⟨hr, rfl, h₁⟩
  simp only [protocolLevelOf, wp_ofExcept]
  refine wp_imp (ConnectAck.sendOn_wrote _) ?_
  rintro _ m₂ ⟨rfl, hw⟩
  rw [if_pos rfl]
  have hanswer : a.answer = (.ok, [⟨(setConnectionType p₁ (connectionTypeOf level)).connection,
      connackFrame (if (connectionTypeOf level).isNone then 0x80 else 0), true⟩]) := by
    rw [Arrival.answer, hmsg, setConnectionType_connection, h₁.connection]
  rw [wrongProtocol_some, Bool.false_or] at hw
  exact .of_answer hanswer (by simp [hmsg, Message.type]) (by simp [hmsg, Message.type]) hr hw
    (setConnectionType_socket _ _) (setConnectionType_bytesRemaining _ _) h₁.heapCopies hrep

/-- **Handling a packet** of a well-formed message. -/
theorem handleMessage_outcome (hb : b.WellFormed)
    (hrep : Represents Subscription.entry b.board store)
    (h : At a.conn b.copies a.frame.body rest (a.frame.packet a.conn) m) :
    wp (handleMessage (a.turn target order).env store (a.frame.packet a.conn))
      (fun r m' => Outcome target b (.packet a order) (a.frame.packet a.conn) m
        r.1 r.2.1 r.2.2 m')
      (fun _ => ¬ a.msg.Encodable K target) m := by
  have htype : (a.frame.packet a.conn).type = a.msg.type := a.carries.type
  rw [a.carries.body] at h
  unfold handleMessage
  rw [htype]
  rcases hmsg : a.msg with
    ⟨name, level, flags, keepAlive, payload⟩ | _ | ⟨topic, packetId, payload⟩ |
    ⟨packetId, filters⟩ | _ | ⟨type, body⟩
  · rw [hmsg] at h
    simp only [Message.type, wp_bind]
    exact wp_imp (handleConnect_outcome hrep hmsg h) fun _ _ ho => ho
  · exact .of_answer (by rw [Arrival.answer, hmsg]) (by simp [hmsg, Message.type])
      (by simp [hmsg, Message.type]) .refl (.refl m) rfl rfl h.heapCopies hrep
  · rw [hmsg] at h
    exact handlePublish_outcome hb hrep hmsg h
  · rw [hmsg] at h
    exact handleSubscribe_outcome hb hrep hmsg rfl h
  · exact .of_answer (by rw [Arrival.answer, hmsg]) (by simp [hmsg, Message.type])
      (by simp [hmsg, Message.type]) .refl (.refl m) rfl rfl h.heapCopies hrep
  · -- a packet that is answered without a look at its body
    have hwf : (Message.other type body).WellFormed := hmsg ▸ a.wellFormed
    have houtcome : ∀ {status : Status} {replies : List Write} {m' : Machine W},
        a.answer = (status, replies) → Wrote replies m m' →
        Outcome target b (.packet a order) (a.frame.packet a.conn) m status
          (a.frame.packet a.conn) store m' := by
      intro status replies m' hanswer hw
      exact .of_answer hanswer (by rw [hmsg]; exact hwf.2.1) (by rw [hmsg]; exact hwf.2.2) .refl
        hw rfl rfl h.heapCopies hrep
    simp only [Arrival.answer, hmsg] at houtcome
    simp only [Message.type]
    cases type with
    | connect => exact absurd rfl hwf.1
    | publish => exact absurd rfl hwf.2.1
    | subscribe => exact absurd rfl hwf.2.2
    | pingreq =>
        show wp (PingResp.sendOn a.conn >>= _) _ _ m
        rw [wp_bind]
        refine wp_imp (wp_write_wrote _) ?_
        rintro _ m₁ ⟨rfl, hw⟩
        exact houtcome rfl hw
    | disconnect =>
        show wp (a.conn.close >>= _) _ _ m
        rw [wp_bind, wp_close]
        exact houtcome rfl
          ⟨(List.append_nil _).symm, rfl, fun _ => ReliableNetwork.close_input⟩
    | _ => exact houtcome rfl (.refl m)

/-! ### Whole turns -/

omit [DecidableEq K] [KeyType K] [LawfulKeyType K] in
theorem destroy_quiet :
    wp (p.destroy : ServerM W Unit)
      (fun _ m' => m'.written = m.written ∧ m'.heapCopies = m.heapCopies ∧
        ∀ s, s ≠ p.connection.socket → input s m'.net = input s m.net) E m := by
  unfold Packet.destroy
  rw [wp_ite]
  split
  · simp only [wp_bind, wp_drain, wp_pure]
    exact ⟨trivial, trivial, fun s hs => drain_other hs⟩
  · exact ⟨rfl, rfl, fun _ _ => rfl⟩

variable {s s' : ServerState K W} {l : Broker.Label K} {ls : List (Broker.Label K)}
variable {net : W}

/-- The server on another network. -/
def ServerState.onNet (s : ServerState K W) (net : W) : ServerState K W :=
  ⟨s.store, { s.machine with net }⟩

/-- What a turn does with the arrival in front of its socket: with nothing else on the
network it would be the same step of the broker. -/
structure ServedFront (target : Target) (b : Broker K) (s : ServerState K W) (net : W)
    (a : Arrival) (order : IterationOrder K) (rest : List UInt8)
    (r : Option (Packet × Status) × Store K W) (m' : Machine W) : Prop where
  handled : ∃ status l b', r.1 = some (a.frame.packet a.conn, status) ∧
    Broker.Step target b l b' ∧ l.event = .packet a order ∧ l.status = some status ∧
    m'.written = s.machine.written ++ l.writes ∧ Simulates b' (ServerState.onNet ⟨r.2, m'⟩ net)
  rest : input a.conn.socket m'.net = rest
  others : ∀ socket, socket ≠ a.conn.socket → input socket m'.net = input socket s.machine.net

/-- A turn with an arrival in front of its socket. -/
theorem Simulates.serve_front (h : Simulates b (s.onNet net)) (before after : Nat)
    (hin : input a.conn.socket s.machine.net = a.frame.bytes ++ rest) :
    wp (Gnat.serve ⟨⟨target, a.timestamp, order⟩, a.conn, before, after⟩ s.store)
      (ServedFront target b s net a order rest) (fun _ => ¬ a.msg.Encodable K target)
      s.machine := by
  rw [Frame.bytes, List.append_assoc] at hin
  unfold Gnat.serve
  rw [wp_bind]
  refine wp_imp (readNext_frame a.frame hin) ?_
  rintro _ m₁ ⟨rfl, h₁⟩
  rw [wp_bind, wp_relocateTimes, wp_bind]
  have hat : At a.conn b.copies a.frame.body rest (a.frame.packet a.conn) m₁ :=
    ⟨rfl, rfl, h₁.rest hin, h₁.heapCopies.trans h.copies⟩
  refine wp_imp (handleMessage_outcome h.wellFormed h.represents hat) ?_
  rintro ⟨status, p', store'⟩ m₂ ho
  rw [wp_bind, wp_relocateTimes, wp_bind]
  -- the destructor drains what the handler left of the packet
  have hsocket : p'.connection.socket = a.conn.socket := ho.budget.1
  have hdrained := destroy_budget ho.budget rfl hat.front
  refine wp_mono (wp_and destroy_quiet hdrained) ?_ (fun _ he => False.elim he)
  rintro _ m₃ ⟨⟨hwritten, hcopies, hothers⟩, hrest⟩
  obtain ⟨l, b', hstep, hevent, hstatus, hwrites, hcopies', hrep⟩ := ho.step
  refine ⟨⟨status, l, b', rfl, hstep, hevent, hstatus, ?_, hrep, hcopies.trans hcopies',
    hstep.wellFormed h.wellFormed, h.idle⟩, hrest, ?_⟩
  · rw [hwritten, hwrites, h₁.written]
  · intro socket hs
    have hother : input socket m₃.net = input socket m₂.net := by
      apply hothers
      rw [hsocket]
      exact hs
    rw [hother, ho.others socket hs, h₁.others socket hs]

/-- A turn on an arrival is a step of the broker. -/
theorem Simulates.serve (h : Simulates b s) (target : Target) (a : Arrival)
    (order : IterationOrder K) :
    wp (Gnat.serve (a.turn target order) s.store)
      (fun r m' => ∃ l b', Broker.Step target b l b' ∧ l.event = .packet a order ∧
        l.status = r.1.map Prod.snd ∧ m'.written = s.machine.written ++ l.writes ∧
        Simulates b' ⟨r.2, m'⟩)
      (fun _ => ¬ a.msg.Encodable K target) (s.machine.arrive a) := by
  have hin : input a.conn.socket (s.machine.arrive a).net = a.frame.bytes ++ [] := by
    rw [List.append_nil]
    show input a.conn.socket (ReliableNetwork.arrive _ _ _) = a.frame.bytes
    rw [ReliableNetwork.arrive_input, h.idle, List.nil_append]
  have hfront : Simulates b (ServerState.onNet ⟨s.store, s.machine.arrive a⟩ s.machine.net) := h
  refine wp_imp (hfront.serve_front 0 0 hin) ?_
  rintro ⟨handled, store'⟩ m' ⟨⟨status, l, b', rfl, hstep, hevent, hstatus, hwritten, h'⟩,
    hrest, hothers⟩
  refine ⟨l, b', hstep, hevent, hstatus, hwritten, h'.represents, h'.copies, h'.wellFormed,
    fun socket => ?_⟩
  by_cases hs : socket = a.conn.socket
  · rw [hs]
    exact hrest
  · rw [hothers socket hs, ← h.idle socket]
    exact ReliableNetwork.arrive_other hs

/-- **One event.**  It is a step of the broker, with the status and the writes of
the step; and unless a topic of the packet has no key, the server returns. -/
theorem Simulates.process (h : Simulates b s) (target : Target) (e : Event K) :
    (∀ status s', e.process target s = .ok (status, s') →
      ∃ l b', Broker.Step target b l b' ∧ l.event = e ∧ l.status = status ∧
        s'.machine.written = s.machine.written ++ l.writes ∧ Simulates b' s') ∧
    ((∀ a order, e = .packet a order → a.msg.Encodable K target) →
      ∃ status s', e.process target s = .ok (status, s')) := by
  cases e with
  | packet a order =>
      have hserve := h.serve target a order
      constructor
      · intro status s' hprocess
        obtain ⟨⟨handled, store'⟩, m', hok, heq⟩ := exists_ok_of_bind hprocess
        cases heq
        exact hserve.ok hok
      · intro hencodable
        have htotal : wp (Gnat.serve (a.turn target order) s.store) _ (fun _ => False) _ :=
          wp_mono hserve (fun _ _ hQ => hQ) fun _ he => he (hencodable a order rfl)
        obtain ⟨⟨handled, store'⟩, m', hok, -⟩ := htotal.exists_ok
        refine ⟨handled.map Prod.snd, ⟨store', m'⟩, ?_⟩
        rw [Event.process, hok]
        rfl
  | remove clientId =>
      constructor
      · intro status s' hprocess
        cases hprocess
        obtain ⟨hmakes, hrep⟩ := h.represents.remove clientId
        have hstep : Broker.Step target b _ _ := .remove (.mk hmakes)
        exact ⟨_, _, hstep, rfl, rfl, (List.append_nil _).symm, hrep, h.copies,
          hstep.wellFormed h.wellFormed, h.idle⟩
      · exact fun _ => ⟨_, _, rfl⟩

/-- **A list of events** is a run of the broker. -/
theorem Simulates.processAll (h : Simulates b s) {events : List (Event K)}
    {statuses : List (Option Status)}
    (hok : Gnat.processAll target s events = .ok (statuses, s')) :
    ∃ ls b', Run (Broker.Step target) b ls b' ∧ ls.map Broker.Label.event = events ∧
      ls.map Broker.Label.status = statuses ∧
      s'.machine.written = s.machine.written ++ ls.flatMap Broker.Label.writes ∧
      Simulates b' s' := by
  induction events generalizing b s statuses with
  | nil =>
      cases hok
      exact ⟨[], b, .nil, rfl, rfl, (List.append_nil _).symm, h⟩
  | cons e events ih =>
      obtain ⟨status, s₁, hprocess, hok⟩ := exists_ok_of_bind hok
      obtain ⟨rest, s₂, hall, hok⟩ := exists_ok_of_bind hok
      cases hok
      obtain ⟨l, b₁, hstep, rfl, rfl, hwrites, h₁⟩ := (h.process target _).1 _ _ hprocess
      obtain ⟨ls, b', hrun, rfl, rfl, hwrites', h'⟩ := ih h₁ hall
      refine ⟨l :: ls, b', .cons hstep hrun, rfl, rfl, ?_, h'⟩
      rw [hwrites', hwrites, List.flatMap_cons, List.append_assoc]

/-- A server returns from events whose topics all have keys. -/
theorem Simulates.exists_processAll (h : Simulates b s) (target : Target)
    (events : List (Event K))
    (hencodable : ∀ a order, .packet a order ∈ events → a.msg.Encodable K target) :
    ∃ statuses s', Gnat.processAll target s events = .ok (statuses, s') := by
  induction events generalizing b s with
  | nil => exact ⟨[], s, rfl⟩
  | cons e events ih =>
      obtain ⟨status, s₁, hprocess⟩ := (h.process target e).2 fun a order he =>
        hencodable a order (he ▸ List.mem_cons_self)
      obtain ⟨-, b₁, -, -, -, -, h₁⟩ := (h.process target _).1 _ _ hprocess
      obtain ⟨statuses, s', hall⟩ := ih h₁ fun a order he =>
        hencodable a order (List.mem_cons_of_mem e he)
      refine ⟨status :: statuses, s', ?_⟩
      rw [Gnat.processAll, hprocess]
      show (Gnat.processAll target s₁ events >>= _) = _
      rw [hall]
      rfl

end Gnat
