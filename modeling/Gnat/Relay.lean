/-
Gnat/Relay.lean

The server is a broker on any network.

On a reliable network a server is the broker of `Gnat.Broker`.  Here calls fail as
they like and the packets hold anything.  What is left of the broker is its board:
a packet that is handled sets a key, puts up a watcher or does nothing to the
board, and is answered at most once on its own connection (`Answer`); and each call
of the board is one attempt to send its entry, made in its turn whatever became of
the others (`Tries`).  `RelayStep` are these steps.  Which of them a packet takes, and
with which key, entry and reply, depends on what the parsers make of its bytes
(`RelayLabel.Follows`).  `relay_simulates` says that every run of the server is a run of
such steps.
-/
import Gnat.Alignment
import Gnat.Parsers

namespace Gnat

open Lib Prog

variable {K : Type}

/-! ### Calls as attempts -/

section

variable [KeyType K]

/-- The attempt sends the entry of a call on the connection of its watcher. -/
structure Attempt.Sends (a : Attempt) (c : Board.Call K DataStoreEntry (Subscription K)) :
    Prop where
  conn : a.conn = c.watcher.conn
  topic : KeyType.decodeKey c.key (.empty 128) = .ok a.publish.topic
  payload : a.payload = c.value.data

/-- The calls that the matchers accept are tried, once each and in order. -/
inductive Tries : List (Board.Call K DataStoreEntry (Subscription K)) → List Attempt → Prop
  | nil : Tries [] []
  | skip {c : Board.Call K DataStoreEntry (Subscription K)}
      {calls : List (Board.Call K DataStoreEntry (Subscription K))} {attempts : List Attempt} :
      c.watcher.matcher c.key = false → Tries calls attempts → Tries (c :: calls) attempts
  | attempt {c : Board.Call K DataStoreEntry (Subscription K)} {a : Attempt}
      {calls : List (Board.Call K DataStoreEntry (Subscription K))} {attempts : List Attempt} :
      c.watcher.matcher c.key = true → a.Sends c → Tries calls attempts →
      Tries (c :: calls) (a :: attempts)

/-- The attempt is made on the heap copy with the given number. -/
def Attempt.onCopy (k : Nat) (a : Attempt) : Bool :=
  a.conn.copy = some k

variable {calls calls' : List (Board.Call K DataStoreEntry (Subscription K))}
variable {attempts attempts' : List Attempt} {k : Nat}

theorem Tries.append (h : Tries calls attempts) (h' : Tries calls' attempts') :
    Tries (calls ++ calls') (attempts ++ attempts') := by
  induction h with
  | nil => exact h'
  | skip hskip _ ih => exact .skip hskip ih
  | attempt haccept hsends _ ih => exact .attempt haccept hsends ih

/-- Each attempt is made for a call. -/
theorem Tries.exists_call (h : Tries calls attempts) :
    ∀ a ∈ attempts, ∃ c ∈ calls, a.Sends c := by
  induction h with
  | nil => exact List.forall_mem_nil _
  | skip _ _ ih =>
      intro a ha
      obtain ⟨c, hc, hsends⟩ := ih a ha
      exact ⟨c, List.mem_cons_of_mem _ hc, hsends⟩
  | attempt _ hsends _ ih =>
      intro a ha
      rcases List.mem_cons.mp ha with rfl | ha
      · exact ⟨_, List.mem_cons_self, hsends⟩
      · obtain ⟨c, hc, hsends⟩ := ih a ha
        exact ⟨c, List.mem_cons_of_mem _ hc, hsends⟩

/-- The attempts on a heap copy are those for the calls of its watcher. -/
theorem Tries.heard (h : Tries calls attempts) :
    Tries (Board.heard (Subscription.ownsCopy k) calls) (attempts.filter (Attempt.onCopy k)) := by
  induction h with
  | nil => exact .nil
  | skip hskip _ ih =>
      rw [Board.heard, List.filter_cons]
      split
      · exact .skip hskip ih
      · exact ih
  | @attempt c a _ _ haccept hsends _ ih =>
      have hcopy : Attempt.onCopy k a = Subscription.ownsCopy k c.watcher := by
        rw [Attempt.onCopy, hsends.conn]
        rfl
      rw [Board.heard, List.filter_cons, List.filter_cons, hcopy]
      split
      · exact .attempt haccept hsends ih
      · exact ih

theorem writes_onCopy (attempts : List Attempt) :
    (attempts.flatMap Attempt.writes).filter (Write.onCopy k) =
      (attempts.filter (Attempt.onCopy k)).flatMap Attempt.writes := by
  induction attempts with
  | nil => rfl
  | cons a attempts ih =>
      have hvia : ∀ w ∈ a.writes, Write.onCopy k w = Attempt.onCopy k a := by
        intro w hw
        rw [Write.onCopy, Attempt.via_of_mem hw]
        rfl
      rw [List.flatMap_cons, List.filter_append, ih, List.filter_cons]
      split
      · next hcopy =>
        rw [List.flatMap_cons, List.filter_eq_self.mpr fun w hw => (hvia w hw).trans hcopy]
      · next hcopy =>
        rw [List.filter_eq_nil_iff.mpr fun w hw => by rwa [hvia w hw], List.nil_append]

end

/-! ### Trying the calls -/

section

variable {W : Type} [KeyType K] {m m₁ m' : Machine W}
variable {calls calls' : List (Board.Call K DataStoreEntry (Subscription K))}
variable {attempts attempts' : List Attempt}

/-- The calls were tried, and that is all that was written. -/
structure Tried (calls : List (Board.Call K DataStoreEntry (Subscription K)))
    (attempts : List Attempt) (m m' : Machine W) : Prop where
  tries : Tries calls attempts
  written : m'.written = m.written ++ attempts.flatMap Attempt.writes
  heapCopies : m'.heapCopies = m.heapCopies

theorem Tried.nil (m : Machine W) :
    Tried ([] : List (Board.Call K DataStoreEntry (Subscription K))) [] m m :=
  ⟨.nil, (List.append_nil _).symm, rfl⟩

theorem Tried.append (h : Tried calls attempts m m₁) (h' : Tried calls' attempts' m₁ m') :
    Tried (calls ++ calls') (attempts ++ attempts') m m' where
  tries := h.tries.append h'.tries
  written := by rw [h'.written, h.written, List.flatMap_append, List.append_assoc]
  heapCopies := h'.heapCopies.trans h.heapCopies

variable [Network W]

/-- `SendOn` is one attempt. -/
theorem Publish.sendOn_attempt {publish : Publish} {payload : List UInt8}
    (htopic : publish.topic.length ≤ 128) (hpayload : payload.length = publish.payloadBytes)
    (conn : ClientConnection) :
    wp (publish.sendOn conn payload)
      (fun _ m' => ∃ progress,
        m'.written = m.written ++
          Attempt.writes ⟨conn, publish, payload, progress, htopic, hpayload⟩ ∧
        m'.heapCopies = m.heapCopies)
      (fun _ => True) m := by
  rw [sendOn_eq htopic hpayload, wp_bind, wp_writePartial]
  rcases hheader : (Network.writePartial conn.socket publish.sentHeader m.net).1 with - | -
  · exact ⟨.refused, rfl, rfl⟩
  · rw [if_pos rfl, wp_write]
    rcases hrest : (Network.write conn.socket payload
        (Network.writePartial conn.socket publish.sentHeader m.net).2).1 with - | -
    · exact ⟨.half, List.append_assoc .., rfl⟩
    · exact ⟨.sent, List.append_assoc .., rfl⟩

/-- An observer makes one attempt for a key it accepts. -/
theorem observer_tried {c : Board.Call K DataStoreEntry (Subscription K)} (hkey : Decodes c.key) :
    wp (observer c.watcher.matcher c.watcher.conn c.key c.value)
      (fun _ m' => ∃ attempts, Tried [c] attempts m m') (fun _ => True) m := by
  obtain ⟨topic, hdecode, hlength⟩ := hkey
  rw [observer, wp_ite]
  split
  · next haccept =>
    rw [wp_bind, wp_ofExcept, hdecode]
    simp only [wp_bind]
    refine wp_imp (Publish.sendOn_attempt hlength c.value.data_length c.watcher.conn) ?_
    rintro accepted m₁ ⟨progress, hwritten, hcopies⟩
    have htried : ∃ attempts, Tried [c] attempts m m₁ :=
      ⟨[_], .attempt haccept ⟨rfl, hdecode, rfl⟩ .nil,
        by rw [hwritten, List.flatMap_singleton], hcopies⟩
    rcases accepted with - | - <;> exact htried
  · next hskip =>
    exact ⟨[], .skip (Bool.eq_false_of_not_eq_true hskip) .nil, (List.append_nil _).symm, rfl⟩

/-- The calls of the board are tried in order. -/
theorem perform_tried (hkeys : ∀ c ∈ calls, Decodes c.key) :
    wp (perform Subscription.entry calls)
      (fun _ m' => ∃ attempts, Tried calls attempts m m') (fun _ => True) m := by
  induction calls generalizing m with
  | nil => exact ⟨[], .nil m⟩
  | cons c calls ih =>
      rw [perform, List.forM_cons]
      simp only [wp_bind, wp_pure]
      refine wp_imp (observer_tried (hkeys c List.mem_cons_self)) ?_
      rintro _ m₁ ⟨attempts, h₁⟩
      refine wp_imp (ih fun c' hc' => hkeys c' (List.mem_cons_of_mem c hc')) ?_
      rintro _ m₂ ⟨attempts', h₂⟩
      exact ⟨attempts ++ attempts', h₁.append h₂⟩

end

/-! ### Steps -/

/-- What a packet is answered: at most one frame, on its own connection. -/
inductive Answer (p : Packet) : Status → List Write → Prop
  | connack {via : ClientConnection} {returnCode : UInt8} {accepted : Bool} :
      p.type = .connect → returnCode = 0 ∨ returnCode = 0x80 →
      via.socket = p.connection.socket → via.id = p.connection.id →
      via.copy = p.connection.copy →
      Answer p (replyStatus accepted) [⟨via, connackFrame returnCode, accepted⟩]
  | suback {packetId : UInt16} {accepted : Bool} :
      p.type = .subscribe →
      Answer p (replyStatus accepted) [⟨p.connection, subackFrame packetId [0], accepted⟩]
  | pingresp {accepted : Bool} :
      p.type = .pingreq → Answer p (replyStatus accepted) [⟨p.connection, [0xD0, 0], accepted⟩]
  | closed : p.type = .disconnect → Answer p .ok []
  | failed (message : String) : Answer p (.failure message) []

theorem Answer.copy {p : Packet} {status : Status} {replies : List Write}
    (h : Answer p status replies) : ∀ w ∈ replies, w.via.copy = p.connection.copy := by
  cases h with
  | connack _ _ _ _ hcopy => exact List.forall_mem_singleton.mpr hcopy
  | suback | pingresp => exact List.forall_mem_singleton.mpr rfl
  | closed | failed => exact List.forall_mem_nil _

/-- What a step did: the label of the server's step, the answer to the packet, the
operation on the board with its calls, and the attempts. -/
structure RelayLabel (K : Type) where
  label : Label
  replies : List Write := []
  op : Option (Board.Op K DataStoreEntry (Subscription K) ×
    List (Board.Call K DataStoreEntry (Subscription K))) := none
  attempts : List Attempt := []

/-- What the server writes in a step. -/
def RelayLabel.writes (l : RelayLabel K) : List Write :=
  l.replies ++ l.attempts.flatMap Attempt.writes

variable [DecidableEq K] [KeyType K]

/-- The steps of a broker on any network. -/
inductive RelayStep (target : Target) : Broker K → RelayLabel K → Broker K → Prop
  | answered {b : Broker K} {p : Packet} {status : Status} {replies : List Write}
      {copies : Nat} :
      p.connection.copy = none → Answer p status replies →
      RelayStep target b { label := .handled p status, replies } ⟨b.board, b.copies + copies⟩
  | published {b : Broker K} {p : Packet} {topic : List UInt8} {key : K}
      {entry : DataStoreEntry} {board' : Board K DataStoreEntry (Subscription K)}
      {calls : List (Board.Call K DataStoreEntry (Subscription K))} {attempts : List Attempt} :
      p.type = .publish → topic.length ≤ 128 → entry.length ≤ p.bytesRemaining →
      KeyType.encodeKey target topic topic.length = .ok key →
      b.board.Step (.set key entry, calls) board' → Tries calls attempts →
      RelayStep target b
        { label := .handled p .ok, op := some (.set key entry, calls), attempts }
        ⟨board', b.copies⟩
  | subscribed {b : Broker K} {p : Packet} {packetId : UInt16} {filter : List UInt8} {key : K}
      {n copies' : Nat} {board' : Board K DataStoreEntry (Subscription K)}
      {calls : List (Board.Call K DataStoreEntry (Subscription K))} {attempts : List Attempt} :
      p.type = .subscribe → p.connection.copy = none → plus ∉ filter →
      KeyType.encodeKey target filter (filterKeyBytes filter) = .ok key →
      b.copies ≤ n → n < copies' →
      b.board.Step (.watch (subscriptionTo p.connection filter key n), calls) board' →
      Tries calls attempts →
      RelayStep target b
        { label := .handled p .ok
          replies := [⟨p.connection, subackFrame packetId [0], true⟩]
          op := some (.watch (subscriptionTo p.connection filter key n), calls)
          attempts }
        ⟨board', copies'⟩
  | removed {b : Broker K} {clientId : UInt32}
      {board' : Board K DataStoreEntry (Subscription K)} :
      b.board.Step (.unwatch (Subscription.isOf clientId), []) board' →
      RelayStep target b
        { label := .removed clientId, op := some (.unwatch (Subscription.isOf clientId), []) }
        ⟨board', b.copies⟩
  | network {b : Broker K} : RelayStep target b { label := .network } b

/-! ### What a step follows from -/

section

variable {W : Type} [Network W]

/-- The answer to the packet, its status and the operation on the board are those the
parsers ask for, when they read it on the machine `m`. -/
inductive RelayLabel.Follows (target : Target) (m : Machine W) : RelayLabel K → Prop
  | connect {p p₁ : Packet} {connect : Option Connect} {level : UInt8} {m₁ : Machine W}
      {accepted : Bool} :
      p.type = .connect → Connect.readFrom target p m = .ok ((connect, p₁), m₁) →
      protocolLevelOf target connect = .ok level →
      Follows target m
        { label := .handled p (replyStatus accepted)
          replies := [⟨(setConnectionType p₁ (connectionTypeOf level)).connection,
            connackFrame
              (if wrongProtocol connect || (connectionTypeOf level).isNone then 0x80 else 0),
            accepted⟩] }
  | noTopic {p p₁ : Packet} {m₁ : Machine W} :
      p.type = .publish → Publish.readFrom p p.typeFlags m = .ok ((none, p₁), m₁) →
      Follows target m { label := .handled p (.failure "No publish header!") }
  | noPayload {p p₁ p₂ : Packet} {publish : Publish} {m₁ m₂ : Machine W} :
      p.type = .publish → Publish.readFrom p p.typeFlags m = .ok ((some publish, p₁), m₁) →
      p₁.read publish.payloadBytes m₁ = .ok ((none, p₂), m₂) →
      Follows target m { label := .handled p (.failure "Unable to complete read.") }
  | publish {p p₁ p₂ : Packet} {publish : Publish} {m₁ m₂ : Machine W}
      {data : List.Vector UInt8 publish.payloadBytes} {key : K} {timestamp : UInt32}
      {calls : List (Board.Call K DataStoreEntry (Subscription K))} {attempts : List Attempt} :
      p.type = .publish → Publish.readFrom p p.typeFlags m = .ok ((some publish, p₁), m₁) →
      p₁.read publish.payloadBytes m₁ = .ok ((some data, p₂), m₂) →
      KeyType.encodeKey target publish.topic.bytes publish.topic.length = .ok key →
      Follows target m
        { label := .handled p .ok
          op := some (.set key ⟨data.toList, publish.payloadBytes, timestamp,
            data.toList_length⟩, calls)
          attempts }
  | noFilters {p p₁ : Packet} {captured : Captured K W} {m₁ : Machine W} :
      p.type = .subscribe →
      Subscribe.readFrom (topicCallback target p.connection) none p m =
        .ok ((none, captured, p₁), m₁) →
      Follows target m { label := .handled p (.failure "") }
  | acknowledged {p p₁ : Packet} {subscribe : Subscribe} {captured : Captured K W}
      {m₁ : Machine W} {accepted : Bool} :
      p.type = .subscribe →
      Subscribe.readFrom (topicCallback target p.connection) none p m =
        .ok ((some subscribe, captured, p₁), m₁) →
      accepted = false ∨ captured = none →
      Follows target m
        { label := .handled p (replyStatus accepted)
          replies := [⟨p.connection, subackFrame subscribe.packetId [0], accepted⟩] }
  | subscribe {p p₁ : Packet} {subscribe : Subscribe} {w : Subscription K} {m₁ : Machine W}
      {calls : List (Board.Call K DataStoreEntry (Subscription K))} {attempts : List Attempt} :
      p.type = .subscribe →
      Subscribe.readFrom (topicCallback target p.connection) none p m =
        .ok ((some subscribe, some w.entry.handler, p₁), m₁) →
      Follows target m
        { label := .handled p .ok
          replies := [⟨p.connection, subackFrame subscribe.packetId [0], true⟩]
          op := some (.watch w, calls)
          attempts }
  | pingreq {p : Packet} {accepted : Bool} :
      p.type = .pingreq →
      Follows target m
        { label := .handled p (replyStatus accepted)
          replies := [⟨p.connection, [0xD0, 0], accepted⟩] }
  | disconnect {p : Packet} :
      p.type = .disconnect → Follows target m { label := .handled p .ok }
  | unsupported {p : Packet} :
      p.type ∉ [.connect, .publish, .subscribe, .pingreq, .disconnect] →
      Follows target m { label := .handled p (.failure "Unsupported packet type.") }
  | removed {clientId : UInt32} {op : Board.Op K DataStoreEntry (Subscription K) ×
      List (Board.Call K DataStoreEntry (Subscription K))} :
      Follows target m { label := .removed clientId, op := some op }
  | network : Follows target m { label := .network }

end

/-! ### Handling a packet -/

/-- The server has the board of the broker and made as many heap copies. -/
structure Relays {W : Type} [Network W] (b : Broker K) (s : ServerState K W) : Prop where
  represents : Represents Subscription.entry b.board s.store
  copies : s.machine.heapCopies = b.copies

theorem relays_initial {W : Type} [Network W] (net : W) : Relays {} (ServerState.initial K net) :=
  ⟨represents_empty, rfl⟩

section

variable {W : Type} [Network W] {env : Env K} {b : Broker K} {store : Store K W} {p : Packet}
variable {m : Machine W}

/-- What a call of `HandleMessage` comes to: a step of the broker. -/
def Relayed (target : Target) (b : Broker K) (p : Packet) (m : Machine W) (status : Status)
    (store' : Store K W) (m' : Machine W) : Prop :=
  ∃ l b', RelayStep target b l b' ∧ l.label = .handled p status ∧
    m'.written = m.written ++ l.writes ∧ l.Follows target m ∧ Relays b' ⟨store', m'⟩

/-- A handler that answered. -/
theorem Relayed.of_answer {target : Target} {status : Status} {replies : List Write}
    {m' : Machine W} (howned : p.connection.copy = none) (h : Relays b ⟨store, m⟩)
    (hanswer : Answer p status replies)
    (hfollows : RelayLabel.Follows (K := K) target m { label := .handled p status, replies })
    (hwritten : m'.written = m.written ++ replies) (hcopies : m.heapCopies ≤ m'.heapCopies) :
    Relayed target b p m status store m' := by
  obtain ⟨copies, hcopies⟩ := Nat.exists_eq_add_of_le hcopies
  refine ⟨_, ⟨b.board, b.copies + copies⟩, .answered howned hanswer, rfl, ?_, hfollows,
    h.represents, ?_⟩
  · rw [hwritten, RelayLabel.writes, List.flatMap_nil, List.append_nil]
  · rw [hcopies, show m.heapCopies = b.copies from h.copies]

omit [DecidableEq K] [KeyType K] in
/-- A read does not make heap copies. -/
theorem readKeeps_copies (P : Nat → Prop) :
    ReadKeeps (W := W) fun _ m' => P m'.heapCopies := by
  intro p m size h
  simp only [Packet.read, wp_bind, wp_check, wp_read]
  split
  · rcases Network.read p.connection.socket size m.net with ⟨- | bytes, w⟩ <;> exact h
  · trivial

omit [DecidableEq K] [KeyType K] in
/-- A write is recorded, whatever it returns. -/
theorem wp_recorded {conn : ClientConnection} {bytes : List UInt8}
    {Q : Bool → Machine W → Prop} {E : Fault → Prop}
    (h : ∀ accepted m', m'.written = m.written ++ [⟨conn, bytes, accepted⟩] →
      m'.heapCopies = m.heapCopies → Q accepted m') :
    wp (conn.write bytes) Q E m :=
  wp_write.mpr (h _ _ rfl rfl)

theorem handleConnect_relayed (howned : p.connection.copy = none) (hp : p.type = .connect)
    (h : Relays b ⟨store, m⟩) :
    wp (handleConnect env.target p)
      (fun r m' => Relayed env.target b p m r.1 store m') (fun _ => True) m := by
  simp only [handleConnect, wp_bind, wp_ofExcept]
  refine wp_imp (wp_and wp_returns (wp_and (Connect.readFrom_reads env.target p m)
    (Connect.readFrom_keeps env.target (readKeeps_copies (m.heapCopies ≤ ·))
      (Nat.le_refl _)))) ?_
  rintro ⟨connect, p₁⟩ m₁ ⟨hread, hr, hcopies⟩
  split
  swap
  · trivial
  next level hlevel =>
  -- the CONNACK goes out on the packet's connection, whose type was set
  have hvia : ∀ type, (setConnectionType p₁ type).connection.socket = p.connection.socket ∧
      (setConnectionType p₁ type).connection.id = p.connection.id ∧
      (setConnectionType p₁ type).connection.copy = p.connection.copy := by
    intro type
    rw [← hr.sameOutput.connection]
    cases type <;> exact ⟨rfl, rfl, rfl⟩
  obtain ⟨hsocket, hid, hcopy⟩ := hvia (connectionTypeOf level)
  rw [ConnectAck.sendOn_eq]
  have hcode : ∀ error : Bool, (if error then 0x80 else 0 : UInt8) = 0 ∨
      (if error then 0x80 else 0 : UInt8) = 0x80 := by
    decide
  specialize hcode (wrongProtocol connect || (connectionTypeOf level).isNone)
  refine wp_recorded fun accepted m₂ hwritten hcopies₂ => ?_
  rw [hr.sameOutput.written] at hwritten
  have hrelayed : Relayed env.target b p m (replyStatus accepted) store m₂ :=
    .of_answer howned h (.connack hp hcode hsocket hid hcopy) (.connect hp hread hlevel)
      hwritten (hcopies₂ ▸ hcopies)
  rcases accepted with - | - <;> exact hrelayed

omit [DecidableEq K] [KeyType K] in
/-- The acknowledgement `HandleMessage` sends. -/
theorem SubscribeAck.sendOn_eq (packetId : UInt16) (conn : ClientConnection) :
    SubscribeAck.sendOn { subscribePacketId := packetId, responsesCount := 1 } conn =
      (conn.write (subackFrame packetId [0]) : ServerM W Bool) := by
  obtain ⟨c, size, hc, hsent⟩ := SubscribeAck.frame_sent
    { subscribePacketId := packetId, responsesCount := 1 } (List.Vector.replicate 32 0)
    (show (1 : UInt8).toNat ≤ 28 by decide)
  rw [sendOn, hc]
  exact congrArg conn.write hsent

/-- What `topic_callback` captured since there were `n₀` heap copies: the observer of a
filter on one of the copies made since. -/
structure CapturedSince (target : Target) (conn : ClientConnection) (n₀ : Nat)
    (captured : Captured K W) (m' : Machine W) : Prop where
  copies : n₀ ≤ m'.heapCopies
  captured : ∀ handler, captured = some handler → ∃ filter key n,
    plus ∉ filter ∧ KeyType.encodeKey target filter (filterKeyBytes filter) = .ok key ∧
    n₀ ≤ n ∧ n < m'.heapCopies ∧ handler = (subscriptionTo conn filter key n).entry.handler

omit [DecidableEq K] in
theorem topicCallback_since (target : Target) (conn : ClientConnection) (n₀ : Nat) :
    CallbackKeeps (topicCallback (K := K) (W := W) target conn)
      fun captured _ m' => CapturedSince target conn n₀ captured m' := by
  intro captured topic p m h
  have hcopies : n₀ ≤ m.heapCopies + 1 := Nat.le_succ_of_le h.copies
  simp only [topicCallback, wp_bind, wp_createHeapCopy, wp_ite, wp_pure, wp_ofExcept]
  split
  · refine ⟨hcopies, fun handler hhandler => ?_⟩
    obtain ⟨filter, key, n, hplus, hkey, hle, hlt, rfl⟩ := h.captured handler hhandler
    exact ⟨filter, key, n, hplus, hkey, hle, Nat.lt_succ_of_lt hlt, rfl⟩
  · next hplus =>
    split
    · next key hkey =>
      refine ⟨hcopies, ?_⟩
      rintro handler ⟨⟩
      exact ⟨topic, key, m.heapCopies, hplus, hkey, h.copies, Nat.lt_succ_self _, rfl⟩
    · trivial

omit [DecidableEq K] in
/-- Copies are only made, so the property survives a read. -/
theorem readKeeps_since (target : Target) (conn : ClientConnection) (n₀ : Nat)
    (captured : Captured K W) :
    ReadKeeps fun _ m' => CapturedSince target conn n₀ captured m' := by
  intro p m size h
  refine wp_imp (readKeeps_copies (· = m.heapCopies) p m size rfl) fun r m' hcopies => ?_
  exact ⟨hcopies ▸ h.copies, hcopies ▸ h.captured⟩

variable [LawfulKeyType K]

theorem handlePublish_relayed (hp : p.type = .publish) (h : Relays b ⟨store, m⟩)
    (howned : p.connection.copy = none) :
    wp (handlePublish env store p)
      (fun r m' => Relayed env.target b p m r.1 r.2.2 m') (fun _ => True) m := by
  have hkeeps := readKeeps_copies (W := W) (· = m.heapCopies)
  have hfailed : ∀ message m',
      RelayLabel.Follows (K := K) env.target m { label := .handled p (.failure message) } →
      m'.written = m.written → m'.heapCopies = m.heapCopies →
      Relayed env.target b p m (.failure message) store m' :=
    fun message m' hfollows hwritten hcopies =>
      .of_answer howned h (.failed message) hfollows
        (hwritten.trans (List.append_nil _).symm) hcopies.ge
  simp only [handlePublish, wp_bind]
  refine wp_imp (wp_and wp_returns (wp_and (Publish.readFrom_reads p p.typeFlags m)
    (Publish.readFrom_keeps p.typeFlags hkeeps rfl))) ?_
  rintro ⟨- | publish, p₁⟩ m₁ ⟨hread₁, ⟨hr₁, hpublish⟩, hcopies₁⟩
  · exact hfailed _ m₁ (.noTopic hp hread₁) hr₁.sameOutput.written hcopies₁
  obtain ⟨htopic, hpayload⟩ := hpublish publish rfl
  rw [wp_bind]
  refine wp_imp (wp_and wp_returns
    (wp_and (p₁.read_reads publish.payloadBytes m₁) (hkeeps p₁ m₁ _ hcopies₁))) ?_
  rintro ⟨- | data, p₂⟩ m₂ ⟨hread₂, hr₂, hcopies₂⟩
  · exact hfailed _ m₂ (.noPayload hp hread₁ hread₂) (Reads.sameOutput (hr₁.trans hr₂)).written
      hcopies₂
  simp only [wp_bind, wp_ofExcept]
  split
  swap
  · trivial
  next key hkey =>
  -- `Set` is the board's `set`, and its calls are tried
  obtain ⟨calls, store', hmakes, hrep', hset⟩ := h.represents.set key
    { data := data.toList, length := publish.payloadBytes, timestamp := env.timestamp,
      data_length := data.toList_length }
  have hkeys : ∀ c ∈ calls, Decodes c.key := by
    intro c hc
    cases hmakes with
    | set =>
        obtain ⟨w, -, rfl⟩ := List.mem_map.mp hc
        exact decodes_of_read htopic hkey
  rw [hset, wp_bind]
  refine wp_imp (perform_tried hkeys) ?_
  rintro _ m₃ ⟨attempts, htried⟩
  have hlength := StringBuffer.length_bytes htopic
  refine ⟨_, _, .published hp (hlength.trans_le htopic)
    (hpayload.trans_le hr₁.sameOutput.bytesRemaining) (hlength.symm ▸ hkey) (.mk hmakes)
    htried.tries, rfl, ?_, .publish hp hread₁ hread₂ hkey, hrep', ?_⟩
  · rw [htried.written, (Reads.sameOutput (hr₁.trans hr₂)).written]
    rfl
  · rw [htried.heapCopies, hcopies₂, show m.heapCopies = b.copies from h.copies]

omit [LawfulKeyType K] in
theorem handleSubscribe_relayed (hp : p.type = .subscribe) (h : Relays b ⟨store, m⟩)
    (hkeys : KeysDecode store) (howned : p.connection.copy = none) :
    wp (handleSubscribe env store p)
      (fun r m' => Relayed env.target b p m r.1 r.2.2 m') (fun _ => True) m := by
  simp only [handleSubscribe, wp_bind]
  refine wp_imp (wp_and wp_returns (wp_and
    (Subscribe.readFrom_reads (topicCallback_quiet env.target p.connection) none p m
      (by rintro _ ⟨⟩))
    (Subscribe.readFrom_keeps (readKeeps_since env.target p.connection m.heapCopies)
      (topicCallback_since env.target p.connection m.heapCopies)
      ⟨Nat.le_refl _, by rintro _ ⟨⟩⟩))) ?_
  rintro ⟨- | subscribe, captured, p₁⟩ m₁ ⟨hread, ⟨-, hr⟩, hsince⟩
  · exact .of_answer howned h (.failed "") (.noFilters hp hread)
      (hr.sameOutput.written.trans (List.append_nil _).symm) hsince.copies
  have hconn : p₁.connection = p.connection := hr.sameOutput.connection
  simp only [wp_bind, SubscribeAck.sendOn_eq, hconn]
  refine wp_recorded fun accepted m₂ hwritten hcopies₂ => ?_
  rw [hr.sameOutput.written] at hwritten
  have hanswered : accepted = false ∨ captured = none →
      Relayed env.target b p m (replyStatus accepted) store m₂ := fun hnone =>
    .of_answer howned h (.suback hp) (.acknowledged hp hread hnone) hwritten
      (hcopies₂ ▸ hsince.copies)
  rcases accepted with - | -
  · exact hanswered (.inl rfl)
  rcases captured with - | handler
  · exact hanswered (.inr rfl)
  obtain ⟨filter, key, n, hplus, hkey, hle, hlt, rfl⟩ := hsince.captured handler rfl
  -- `AddObserver` is the board's `watch`
  obtain ⟨calls, store', hmakes, hrep', hadd⟩ := h.represents.addObserver env.order
    (subscriptionTo p.connection filter key n)
  have hdecode : ∀ c ∈ calls, Decodes c.key := by
    intro c hc
    cases hmakes with
    | watch _ hl =>
        obtain ⟨⟨key', entry⟩, hmem, rfl⟩ := List.mem_map.mp hc
        have hvalue := (h.represents.entries key').trans ((hl.2 key' entry).mp hmem)
        exact hkeys key' (AList.lookup_isSome.mp (Option.isSome_of_eq_some hvalue))
  rw [if_pos rfl, wp_bind, show (⟨p.connection.id, (subscriptionTo p.connection filter key
    n).entry.handler⟩ : ObserverEntry K (ServerM W)) =
      (subscriptionTo p.connection filter key n).entry from rfl, hadd, wp_bind]
  refine wp_imp (perform_tried hdecode) ?_
  rintro _ m₃ ⟨attempts, htried⟩
  have hstep : RelayStep env.target b
      { label := .handled p .ok
        replies := [⟨p.connection, subackFrame subscribe.packetId [0], true⟩]
        op := some (.watch (subscriptionTo p.connection filter key n), calls)
        attempts }
      ⟨_, m₁.heapCopies⟩ :=
    .subscribed hp howned hplus hkey (h.copies ▸ hle) hlt (.mk hmakes) htried.tries
  refine ⟨_, _, hstep, rfl, ?_, .subscribe hp hread, hrep', ?_⟩
  · rw [htried.written, hwritten, List.append_assoc]
    rfl
  · exact htried.heapCopies.trans hcopies₂

/-- **Handling any packet on any network.** -/
theorem handleMessage_relayed (h : Relays b ⟨store, m⟩) (hkeys : KeysDecode store)
    (howned : p.connection.copy = none) :
    wp (handleMessage env store p)
      (fun r m' => Relayed env.target b p m r.1 r.2.2 m') (fun _ => True) m := by
  unfold handleMessage
  split
  · next hp =>
    rw [wp_bind]
    exact wp_imp (handleConnect_relayed howned hp h) fun _ _ hr => hr
  · next hp => exact handlePublish_relayed hp h howned
  · next hp => exact handleSubscribe_relayed hp h hkeys howned
  · next hp =>
    rw [wp_bind]
    refine wp_recorded fun accepted m' hwritten hcopies => ?_
    have hrelayed : Relayed env.target b p m (replyStatus accepted) store m' :=
      .of_answer howned h (.pingresp hp) (.pingreq hp) hwritten hcopies.ge
    rcases accepted with - | - <;> exact hrelayed
  · next hp =>
    exact .of_answer howned h (.closed hp) (.disconnect hp) (List.append_nil _).symm
      (Nat.le_refl _)
  · next hconnect hpublish hsubscribe hpingreq hdisconnect =>
    have hp : p.type ∉ [.connect, .publish, .subscribe, .pingreq, .disconnect] := by
      simpa using ⟨hconnect, hpublish, hsubscribe, hpingreq, hdisconnect⟩
    exact .of_answer howned h (.failed _) (.unsupported hp) (List.append_nil _).symm
      (Nat.le_refl _)

end

/-! ### Runs -/

section

variable {W : Type} [Network W] [LawfulKeyType K] {target : Target} {b : Broker K}
variable {s s' : ServerState K W} {l : Label} {ls : List Label}

/-- A step of the broker and one of the server that go together. -/
structure Lockstep (target : Target) (x : Broker K × ServerState K W) (r : RelayLabel K)
    (y : Broker K × ServerState K W) : Prop where
  relay : RelayStep target x.1 r y.1
  server : Step target x.2 r.label y.2
  written : y.2.machine.written = x.2.machine.written ++ r.writes
  follows : r.Follows target x.2.machine
  relays : Relays y.1 y.2

/-- **One step of the server is one of the broker.** -/
theorem Relays.step (h : Relays b s) (hkeys : KeysDecode s.store) (hstep : Step target s l s') :
    ∃ r b', Lockstep target (b, s) r (b', s') ∧ r.label = l := by
  have hserver := hstep
  cases hstep with
  | @handle _ _ _ _ store' m' htarget howned hok =>
      obtain ⟨r, b', hr, hlabel, hwritten, hfollows, h'⟩ :=
        (handleMessage_relayed h hkeys howned).ok hok
      have hserver : Step target s r.label ⟨store', m'⟩ := by rwa [hlabel]
      exact ⟨r, b', ⟨htarget ▸ hr, hserver, hwritten, htarget ▸ hfollows, h'⟩, hlabel⟩
  | remove clientId =>
      obtain ⟨hmakes, hrep⟩ := h.represents.remove clientId
      exact ⟨_, _, ⟨.removed (.mk hmakes), hserver, (List.append_nil _).symm, .removed, hrep,
        h.copies⟩, rfl⟩
  | network net =>
      exact ⟨_, b, ⟨.network, hserver, (List.append_nil _).symm, .network, h.represents,
        h.copies⟩, rfl⟩

theorem Relays.lockstep (h : Relays b s) (hkeys : KeysDecode s.store)
    (hrun : Run (Step target) s ls s') :
    ∃ rs b', Run (Lockstep target) (b, s) rs (b', s') ∧ rs.map RelayLabel.label = ls ∧
      Relays b' s' := by
  induction hrun generalizing b with
  | nil => exact ⟨[], b, .nil, rfl, h⟩
  | cons hstep _ ih =>
      obtain ⟨r, b₁, hr, rfl⟩ := h.step hkeys hstep
      obtain ⟨rs, b', hrs, rfl, h'⟩ := ih hr.relays (hstep.keysDecode hkeys)
      exact ⟨r :: rs, b', .cons hr hrs, rfl, h'⟩

omit [LawfulKeyType K] in
theorem Lockstep.run {x y : Broker K × ServerState K W} {rs : List (RelayLabel K)}
    (h : Run (Lockstep target) x rs y) :
    Run (RelayStep target) x.1 rs y.1 ∧
      y.2.machine.written = x.2.machine.written ++ rs.flatMap RelayLabel.writes := by
  induction h with
  | nil => exact ⟨.nil, (List.append_nil _).symm⟩
  | cons hstep _ ih =>
      refine ⟨.cons hstep.relay ih.1, ?_⟩
      rw [ih.2, hstep.written, List.flatMap_cons, List.append_assoc]

theorem Relays.run (h : Relays b s) (hkeys : KeysDecode s.store)
    (hrun : Run (Step target) s ls s') :
    ∃ rs b', Run (RelayStep target) b rs b' ∧ rs.map RelayLabel.label = ls ∧
      s'.machine.written = s.machine.written ++ rs.flatMap RelayLabel.writes ∧
      Relays b' s' := by
  obtain ⟨rs, b', hrs, hlabels, h'⟩ := h.lockstep hkeys hrun
  obtain ⟨hrelay, hwritten⟩ := Lockstep.run hrs
  exact ⟨rs, b', hrelay, hlabels, hwritten, h'⟩

/-- **The server is a broker on any network.**  Every run of the server, whatever arrives
and whatever fails, is a run of the board: each packet is answered with at most one frame
on its own connection, and besides that exactly the calls of the board are tried, in order
and once each.  The two runs go in lockstep, and each step does what its packet says. -/
theorem relay_simulates {net : W} (h : Run (Step target) (.initial K net) ls s) :
    ∃ rs b, Run (RelayStep target) {} rs b ∧ rs.map RelayLabel.label = ls ∧
      s.machine.written = rs.flatMap RelayLabel.writes ∧ Relays b s ∧
      Run (Lockstep target) ({}, .initial K net) rs (b, s) := by
  obtain ⟨rs, b, hrs, hlabels, h'⟩ := (relays_initial net).lockstep (keysDecode_initial net) h
  obtain ⟨hrelay, hwritten⟩ := Lockstep.run hrs
  exact ⟨rs, b, hrelay, hlabels, hwritten, h', hrs⟩

end

/-- The third write fails: a header without its payload, and the next PUBLISH behind it. -/
theorem relay_simulates_faltering :
    ∃ (s : ServerState StdString Net) (rs : List (RelayLabel StdString)) (b : Broker StdString),
      acceptedBytes (s.machine.copyWrites 0) =
        [0x30, 5, 0, 1, 0x61, 0x30, 5, 0, 1, 0x61, 0x68, 0x69] ∧
      Run (RelayStep {}) {} rs b ∧
      rs.map RelayLabel.label =
        [.handled subscribeA .ok, .handled publishHi .ok, .handled publishHi .ok] ∧
      s.machine.written = rs.flatMap RelayLabel.writes ∧ Relays b s := by
  obtain ⟨ls, s, h, hview⟩ := exists_ok_of_map (t := publishTwice (· ≠ 2))
    (g := fun r => (r.1, acceptedBytes (r.2.machine.copyWrites 0)))
    (c := ([.handled subscribeA .ok, .handled publishHi .ok, .handled publishHi .ok],
      [0x30, 5, 0, 1, 0x61, 0x30, 5, 0, 1, 0x61, 0x68, 0x69]))
    (by decide +kernel)
  obtain ⟨rfl, hbytes⟩ := Prod.mk.inj hview
  obtain ⟨rs, b, hrs, hlabels, hwritten, h', -⟩ := relay_simulates (play_run h)
  exact ⟨s, rs, b, hbytes, hrs, hlabels, hwritten, h'⟩

end Gnat
