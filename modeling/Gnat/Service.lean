/-
Gnat/Service.lean

The broker as its clients see it.

`Service` is a board with topics for keys, payloads for values and filters for
watchers: there are no keys, no heap copies and no bytes in it.  A step of it
(`ServiceStep`) is a message of a client or a removal, with the status and with what
each client is told.  Which topics are for a filter with a `#` is a parameter.

`Speaks` is what that asks of a key type: the topics are read back from their keys,
and the prefix matcher decides which topics a prefix covers.  Then a server on a
reliable network is a service (`Serves.processAll`): what each client reads on its
socket with the library's parsers is what the service tells it, message for message.
So are a server with string keys, for all topics (`service_refined`), and one with
64-bit keys, for plain ones (`service_refined_plain`); they differ in the topics a
prefix covers.
-/
import Gnat.Agreement
import Gnat.Inbox
import Gnat.Lib.Reindex
import Gnat.Prefixes

namespace Gnat

open Lib Prog StreamNetwork

/-! ### The service -/

/-- A subscription as its client knows it. -/
structure Subscriber where
  socket : Nat
  id : UInt32
  filter : List UInt8
  deriving DecidableEq

/-- The subscription of the client a message is from. -/
abbrev Arrival.subscriber (a : Arrival) (filter : List UInt8) : Subscriber :=
  ⟨a.conn.socket, a.conn.id, filter⟩

/-- Which topics a prefix covers. -/
abbrev Covers := (front topic : List UInt8) → Bool

/-- The topics a filter is for.  One with a `#` is for those that are covered by what is
in front of its last character. -/
def Covers.wants (covers : Covers) (filter topic : List UInt8) : Bool :=
  if hash ∈ filter then covers filter.dropLast topic else topic = filter

/-- The latest payload of each topic, and who wants to know. -/
abbrev Service := Board (List UInt8) (List UInt8) Subscriber

/-- Messages for clients, each with the socket of its client. -/
abbrev Told.Post := List (Nat × Told)

/-- What the calls of a service tell those who want to know. -/
def notes (covers : Covers)
    (calls : List (Board.Call (List UInt8) (List UInt8) Subscriber)) : Told.Post :=
  (calls.filter fun c => covers.wants c.watcher.filter c.key).map fun c =>
    (c.watcher.socket, .publish c.key c.value)

/-- How a message is answered that is neither a PUBLISH nor a SUBSCRIBE. -/
def Message.answer : Message → Status × List Told
  | connect _ level _ _ _ =>
      (.ok, [.connack 0 (if (connectionTypeOf level).isNone then 0x80 else 0)])
  | other .pingreq _ => (.ok, [.pingresp])
  | other .disconnect _ => (.ok, [])
  | _ => (.failure "Unsupported packet type.", [])

theorem Message.answer_fits (msg : Message) : ∀ t ∈ msg.answer.2, t.Fits := by
  unfold Message.answer
  split
  · exact List.forall_mem_singleton.mpr trivial
  · exact List.forall_mem_singleton.mpr trivial
  · exact List.forall_mem_nil _
  · exact List.forall_mem_nil _

/-- What a step of the service did. -/
structure ServiceLabel (K : Type) where
  event : Event K
  status : Option Status
  told : Told.Post := []

/-- The steps of the service. -/
inductive ServiceStep {K : Type} (covers : Covers) : Service → ServiceLabel K → Service → Prop
  | publish {v v' : Service} {a : Arrival} {order : IterationOrder K}
      {topic payload : List UInt8} {packetId : UInt16}
      {calls : List (Board.Call (List UInt8) (List UInt8) Subscriber)} :
      a.msg = .publish topic packetId payload → v.Step (.set topic payload, calls) v' →
      ServiceStep covers v
        { event := .packet a order, status := some .ok, told := notes covers calls } v'
  | subscribe {v v' : Service} {a : Arrival} {order : IterationOrder K}
      {packetId : UInt16} {filters : List Filter} {f : Filter}
      {calls : List (Board.Call (List UInt8) (List UInt8) Subscriber)} :
      a.msg = .subscribe packetId (filters ++ [f]) →
      (∀ g ∈ filters ++ [f], plus ∉ g.topic) →
      v.Step (.watch (a.subscriber f.topic), calls) v' →
      ServiceStep covers v
        { event := .packet a order
          status := some .ok
          told := (a.conn.socket, .suback packetId 0) :: notes covers calls } v'
  | reject {v : Service} {a : Arrival} {order : IterationOrder K} {packetId : UInt16}
      {filters : List Filter} :
      a.msg = .subscribe packetId filters → (∃ f ∈ filters, plus ∈ f.topic) →
      ServiceStep covers v { event := .packet a order, status := some (.failure "") } v
  | answer {v : Service} {a : Arrival} {order : IterationOrder K} :
      a.msg.type ≠ .publish → a.msg.type ≠ .subscribe →
      ServiceStep covers v
        { event := .packet a order
          status := some a.msg.answer.1
          told := a.msg.answer.2.map fun t => (a.conn.socket, t) } v
  | remove {v v' : Service} {clientId : UInt32} :
      v.Step (.unwatch fun u => u.id = clientId, []) v' →
      ServiceStep covers v { event := .remove clientId, status := none } v'

/-! ### Writes that tell something -/

/-- The writes are the frames of the messages, in order, each on its socket. -/
inductive Voices : List Write → Told.Post → Prop
  | nil : Voices [] []
  | cons {ws ws' : List Write} {socket : Nat} {t : Told} {post : Told.Post} :
      (∀ w ∈ ws, w.via.socket = socket ∧ w.accepted = true) →
      ws.flatMap Write.bytes = t.frame → Voices ws' post →
      Voices (ws ++ ws') ((socket, t) :: post)

/-- The messages for the client on a socket. -/
def Told.Post.onSocket (socket : Nat) (post : Told.Post) : List Told :=
  (post.filter fun x => x.1 = socket).map Prod.snd

section

variable {ws ws' : List Write} {post post' : Told.Post} {socket : Nat} {t : Told}

theorem Voices.append (h : Voices ws post) (h' : Voices ws' post') :
    Voices (ws ++ ws') (post ++ post') := by
  induction h with
  | nil => exact h'
  | cons hvia hframe _ ih =>
      rw [List.append_assoc, List.cons_append]
      exact .cons hvia hframe ih

/-- What goes out on a socket are the frames for its client. -/
theorem Voices.on_socket (h : Voices ws post) (socket : Nat) :
    (∀ w ∈ ws, w.accepted = true) ∧
      (ws.filter fun w => w.via.socket = socket).flatMap Write.bytes =
        (post.onSocket socket).flatMap Told.frame := by
  induction h with
  | nil => exact ⟨List.forall_mem_nil _, rfl⟩
  | @cons ws₁ ws₂ socket' t post hvia hframe _ ih =>
      refine ⟨List.forall_mem_append.mpr ⟨fun w hw => (hvia w hw).2, ih.1⟩, ?_⟩
      rw [List.filter_append, List.flatMap_append, ih.2, Told.Post.onSocket, Told.Post.onSocket,
        List.filter_cons]
      by_cases hs : socket' = socket
      · have hall : ws₁.filter (fun w => w.via.socket = socket) = ws₁ := by
          apply List.filter_eq_self.mpr
          intro w hw
          exact decide_eq_true ((hvia w hw).1.trans hs)
        rw [hall, hframe, if_pos (decide_eq_true hs), List.map_cons, List.flatMap_cons]
      · have hnone : ws₁.filter (fun w => w.via.socket = socket) = [] := by
          apply List.filter_eq_nil_iff.mpr
          intro w hw hsocket
          exact hs ((hvia w hw).1.symm.trans (of_decide_eq_true hsocket))
        rw [hnone, if_neg (by simpa using hs)]
        rfl

theorem voices_one {w : Write} (hsocket : w.via.socket = socket) (haccepted : w.accepted = true)
    (hframe : w.bytes = t.frame) : Voices [w] [(socket, t)] := by
  show Voices ([w] ++ []) _
  apply Voices.cons (List.forall_mem_singleton.mpr ⟨hsocket, haccepted⟩) _ .nil
  rw [List.flatMap_singleton]
  exact hframe

end

/-! ### Keys that speak of topics -/

/-- The topics are read back from their keys, and the prefix matcher decides which of them
a prefix covers. -/
structure Speaks (K : Type) [KeyType K] (target : Target) (Topic : List UInt8 → Prop)
    (covers : Covers) : Prop where
  faithful : Faithful K target Topic
  prefix_eq {front topic : List UInt8} {key key' : K} : KeyFor target Topic front key →
    KeyFor target Topic topic key' → KeyType.prefixKeyMatcher key key' = covers front topic

/-- One of two strings starts with the other. -/
def stringCovers : Covers := fun front topic => front <+: topic ∨ topic <+: front

theorem speaks_string (target : Target) : Speaks StdString target (fun _ => True) stringCovers where
  faithful := faithful_string target
  prefix_eq {front topic key key'} h h' := by
    obtain rfl : StdString.mk front = key :=
      Except.ok.inj ((encodeKey_string target front).symm.trans h.2.2)
    obtain rfl : StdString.mk topic = key' :=
      Except.ok.inj ((encodeKey_string target topic).symm.trans h'.2.2)
    rw [Bool.eq_iff_iff, stringCovers, decide_eq_true_eq]
    exact matches_string_iff front topic

/-- The bits of the prefix are in the topic. -/
def plainCovers : Covers := fun front topic => BitsNest front topic

theorem speaks_plain (target : Target) : Speaks UInt64 target Key.Plain plainCovers where
  faithful := faithful_plain target
  prefix_eq h h' := by
    rw [Bool.eq_iff_iff, plainCovers, decide_eq_true_eq]
    exact matches_plain_iff h.1 h'.1 h.2.2 h'.2.2

/-- What the server makes a key of is a topic. -/
def Message.Speakable (Topic : List UInt8 → Prop) : Message → Prop
  | publish topic _ _ => Topic topic
  | subscribe _ filters => ∀ f ∈ filters, Topic (f.topic.take (filterKeyBytes f.topic))
  | _ => True

section

variable {K : Type} [KeyType K] {target : Target} {Topic : List UInt8 → Prop} {covers : Covers}
variable {key key' : K} {topic : List UInt8}

theorem Faithful.keyFor_biUnique (hF : Faithful K target Topic) :
    Relator.BiUnique fun (key : K) topic => KeyFor target Topic topic key := by
  constructor
  · intro key topic key' h h'
    exact (hF.key_eq_iff h' h).mpr rfl
  · intro key topic topic' h h'
    exact (hF.key_eq_iff h' h).mp rfl

variable [LawfulKeyType K]

omit [KeyType K] [LawfulKeyType K] in
theorem filterKeyBytes_le (filter : List UInt8) : filterKeyBytes filter ≤ filter.length := by
  unfold filterKeyBytes
  split
  · exact Nat.sub_le _ _
  · exact Nat.le_refl _

/-- The key of a filter is that of its front. -/
theorem encodeKey_filter (target : Target) (filter : List UInt8) :
    (KeyType.encodeKey target filter (filterKeyBytes filter) : Except Fault K) =
      KeyType.encodeKey target (filter.take (filterKeyBytes filter))
        (filter.take (filterKeyBytes filter)).length := by
  have hlength : (filter.take (filterKeyBytes filter)).length = filterKeyBytes filter :=
    List.length_take_of_le (filterKeyBytes_le filter)
  have hfront : (KeyType.encodeKey target (filter.take (filterKeyBytes filter) ++
      filter.drop (filterKeyBytes filter)) (filter.take (filterKeyBytes filter)).length :
        Except Fault K) =
      KeyType.encodeKey target (filter.take (filterKeyBytes filter))
        (filter.take (filterKeyBytes filter)).length :=
    LawfulKeyType.encodes_front _ _
  rw [List.take_append_drop, hlength] at hfront
  rw [hlength, hfront]

/-- The key of a filter is one for its front. -/
theorem keyFor_filter {filter : List UInt8} (hfilter : filter.length ≤ 128)
    (hTopic : Topic (filter.take (filterKeyBytes filter)))
    (hkey : KeyType.encodeKey target filter (filterKeyBytes filter) = .ok key) :
    KeyFor target Topic (filter.take (filterKeyBytes filter)) key :=
  ⟨hTopic, (List.length_take_le' _ _).trans hfilter,
    (encodeKey_filter target filter).symm.trans hkey⟩

/-- The topics can be encoded if they are spoken of. -/
theorem Speaks.encodable (hS : Speaks K target Topic covers) {msg : Message}
    (hwf : msg.WellFormed) (h : msg.Speakable Topic) : msg.Encodable K target := by
  cases msg with
  | publish topic =>
      obtain ⟨key, hkey, -⟩ := hS.faithful.round_trip h hwf
      exact ⟨key, hkey⟩
  | subscribe _ filters =>
      intro f hf
      have hlength : (f.topic.take (filterKeyBytes f.topic)).length ≤ 128 :=
        (List.length_take_le' _ _).trans (hwf.2 f hf)
      obtain ⟨key, hkey, -⟩ := hS.faithful.round_trip (h f hf) hlength
      exact ⟨key, (encodeKey_filter target f.topic).trans hkey⟩
  | _ => trivial

/-- The matcher of a filter lets through what its client wants. -/
theorem Speaks.filterMatcher_eq (hS : Speaks K target Topic covers) {filter : List UInt8}
    (hkey : KeyFor target Topic (filter.take (filterKeyBytes filter)) key)
    (hkey' : KeyFor target Topic topic key') :
    filterMatcher filter key key' = covers.wants filter topic := by
  rw [filterMatcher, Covers.wants]
  by_cases hhash : hash ∈ filter
  · have hfront : filter.take (filterKeyBytes filter) = filter.dropLast := by
      rw [filterKeyBytes, if_pos hhash, List.dropLast_eq_take]
    rw [if_pos hhash, if_pos hhash, ← hfront]
    exact hS.prefix_eq hkey hkey'
  · have hwhole : filter.take (filterKeyBytes filter) = filter := by
      rw [filterKeyBytes, if_neg hhash, List.take_length]
    rw [hwhole] at hkey
    rw [if_neg hhash, if_neg hhash, Bool.eq_iff_iff, decide_eq_true_eq,
      LawfulKeyType.full_iff, eq_comm]
    exact hS.faithful.key_eq_iff hkey hkey'

end

/-! ### The service a broker is -/

/-- The subscription is that of the subscriber. -/
structure Watches {K : Type} [KeyType K] (target : Target) (Topic : List UInt8 → Prop)
    (covers : Covers) (w : Subscription K) (u : Subscriber) : Prop where
  socket : w.conn.socket = u.socket
  id : w.conn.id = u.id
  matcher : ∀ key topic, KeyFor target Topic topic key →
    w.matcher key = covers.wants u.filter topic

/-- The board is the service, with keys for topics. -/
abbrev Presents {K : Type} [KeyType K] (target : Target) (Topic : List UInt8 → Prop)
    (covers : Covers) (b : Board K DataStoreEntry (Subscription K)) (v : Service) : Prop :=
  Board.Reindexes (fun key topic => KeyFor target Topic topic key) DataStoreEntry.data
    (Watches target Topic covers) b v

/-- A call of the board, as one of the service. -/
abbrev CallTells {K : Type} [KeyType K] (target : Target) (Topic : List UInt8 → Prop)
    (covers : Covers) (c : Board.Call K DataStoreEntry (Subscription K))
    (c' : Board.Call (List UInt8) (List UInt8) Subscriber) : Prop :=
  c.Reindexes (fun key topic => KeyFor target Topic topic key) DataStoreEntry.data
    (Watches target Topic covers) c'

/-- An operation on the board, as one on the service. -/
abbrev OpSays {K : Type} [KeyType K] (target : Target) (Topic : List UInt8 → Prop)
    (covers : Covers) (op : Board.Op K DataStoreEntry (Subscription K))
    (op' : Board.Op (List UInt8) (List UInt8) Subscriber) : Prop :=
  op.Reindexes (fun key topic => KeyFor target Topic topic key) DataStoreEntry.data
    (Watches target Topic covers) op'

section

variable {K : Type} [KeyType K] {target : Target} {Topic : List UInt8 → Prop} {covers : Covers}

/-- The matcher of a filter lets through what its subscriber wants. -/
theorem Speaks.watches [LawfulKeyType K] (hS : Speaks K target Topic covers) (a : Arrival)
    {f : Filter} {key : K}
    (hfilter : KeyFor target Topic (f.topic.take (filterKeyBytes f.topic)) key) (n : Nat) :
    Watches target Topic covers (subscriptionTo a.conn f.topic key n) (a.subscriber f.topic) where
  socket := rfl
  id := rfl
  matcher _ _ hkey' := hS.filterMatcher_eq hfilter hkey'

/-- What the calls of a board make the server write tells what they tell in the service. -/
theorem Speaks.voices_deliver (hS : Speaks K target Topic covers)
    {calls : List (Board.Call K DataStoreEntry (Subscription K))}
    {calls' : List (Board.Call (List UInt8) (List UInt8) Subscriber)}
    (h : List.Forall₂ (CallTells target Topic covers) calls calls') :
    Voices (calls.flatMap deliver) (notes covers calls') := by
  induction h with
  | nil => exact .nil
  | @cons c c' calls calls' hc _ ih =>
      have hmatcher : c.watcher.matcher c.key = covers.wants c'.watcher.filter c'.key :=
        hc.watcher.matcher c.key c'.key hc.key
      rw [List.flatMap_cons, deliver, hmatcher, notes, List.filter_cons]
      by_cases hwants : covers.wants c'.watcher.filter c'.key = true
      · obtain ⟨topic, hdecode, hbytes⟩ := hS.faithful.decodes hc.key
        rw [if_pos hwants, if_pos hwants, List.map_cons, hdecode]
        refine .cons ?_ ?_ ih
        · intro w hw
          simp only [publication, List.mem_cons, List.not_mem_nil, or_false] at hw
          rcases hw with rfl | rfl <;> exact ⟨hc.watcher.socket, rfl⟩
        · show (publication c.watcher.conn topic.bytes c.value.data).flatMap Write.bytes = _
          rw [publication_bytes, hbytes, hc.value]
          rfl
      · rw [if_neg hwants, if_neg hwants, List.nil_append]
        exact ih

end

variable {W : Type} [ReliableNetwork W] {K : Type} [DecidableEq K] [KeyType K]
variable {target : Target} {a : Arrival} {v v' : Service}
variable {order : IterationOrder K}
variable [LawfulKeyType K] {b b' : Broker K} {s s' : ServerState K W}

/-! ### Events -/

/-- A PUBLISH that arrives can be passed on. -/
theorem Arrival.publish_fits {topic payload : List UInt8} {packetId : UInt16}
    (h : a.msg = .publish topic packetId payload) : (Told.publish topic payload).Fits := by
  have htopic : (Message.publish topic packetId payload).WellFormed := h ▸ a.wellFormed
  have hbody := a.carries.body
  rw [h] at hbody
  have hlt := a.frame.body_length_lt
  rw [hbody, Message.body, List.length_append, List.length_append, length_wireString] at hlt
  exact ⟨htopic, by omega⟩

/-- What is on the board can be told. -/
def Tellable (v : Service) : Prop :=
  ∀ topic payload, v.value topic = some payload → (Told.publish topic payload).Fits

/-- The server is the service: its broker's board is the service with keys for topics. -/
structure Serves (target : Target) (Topic : List UInt8 → Prop) (covers : Covers) (v : Service)
    (s : ServerState K W) : Prop where
  broker : ∃ b, Simulates b s ∧ Presents target Topic covers b.board v
  tellable : Tellable v

variable {Topic : List UInt8 → Prop} {covers : Covers}

omit [LawfulKeyType K] in
theorem serves_initial {net : W} (h : ∀ socket, input socket net = []) :
    Serves target Topic covers {} (ServerState.initial K net) :=
  ⟨⟨{}, simulates_initial h, Board.reindexes_empty⟩, nofun⟩

omit [LawfulKeyType K] in
/-- The store of the server holds the payloads of the service. -/
theorem Serves.store_get (h : Serves target Topic covers v s) {topic : List UInt8} {key : K}
    (hkey : KeyFor target Topic topic key) :
    (s.store.get key).map DataStoreEntry.data = v.value topic := by
  obtain ⟨b, hb, hre⟩ := h.broker
  rw [hre.value key topic hkey]
  exact congrArg (Option.map DataStoreEntry.data) (hb.represents.entries key)

/-- The event was a step of the service, with this status, and what was written tells
what is told in it. -/
def IsServiceStep (target : Target) (Topic : List UInt8 → Prop) (covers : Covers) (v : Service)
    (s : ServerState K W) (e : Event K) (status : Option Status) (s' : ServerState K W) : Prop :=
  ∃ l v' ws, ServiceStep covers v l v' ∧ l.event = e ∧ l.status = status ∧
    s'.machine.written = s.machine.written ++ ws ∧ Voices ws l.told ∧
    Serves target Topic covers v' s'

omit [LawfulKeyType K] in
/-- An operation on the board is one on the service, and what it makes the server write
tells what is to be told. -/
theorem Speaks.operate (hS : Speaks K target Topic covers)
    {op : Board.Op K DataStoreEntry (Subscription K)}
    {op' : Board.Op (List UInt8) (List UInt8) Subscriber}
    {calls : List (Board.Call K DataStoreEntry (Subscription K))}
    (hb' : Simulates b' s') (hre : Presents target Topic covers b.board v)
    (htellable : Tellable v) (hop : OpSays target Topic covers op op')
    (hset : ∀ topic payload, op' = .set topic payload → (Told.publish topic payload).Fits)
    (hstep : b.board.Step (op, calls) b'.board) :
    ∃ calls' v', v.Step (op', calls') v' ∧
      Voices (calls.flatMap deliver) (notes covers calls') ∧ Serves target Topic covers v' s' := by
  obtain ⟨calls', v', hv, hre', hcalls⟩ := hre.step hS.faithful.keyFor_biUnique hop hstep
  have htellable' : Tellable v' := by
    intro topic payload hvalue
    rcases hv.value_set hvalue with rfl | hold
    · exact hset topic payload rfl
    · exact htellable topic payload hold
  exact ⟨calls', v', hv, hS.voices_deliver hcalls, ⟨b', hb', hre'⟩, htellable'⟩

/-- The broker's answer to a message is the service's, and what is written tells it. -/
theorem Arrival.answer_voices (a : Arrival) :
    a.answer.1 = a.msg.answer.1 ∧
      Voices a.answer.2 (a.msg.answer.2.map fun t => (a.conn.socket, t)) := by
  unfold Arrival.answer
  split
  · next hmsg =>
    rw [hmsg]
    exact ⟨rfl, voices_one rfl rfl rfl⟩
  · next hmsg =>
    rw [hmsg]
    exact ⟨rfl, voices_one rfl rfl Told.frame_pingresp.symm⟩
  · next hmsg =>
    rw [hmsg]
    exact ⟨rfl, .nil⟩
  · next hconnect hpingreq hdisconnect =>
    have hunsupported : a.msg.answer = (.failure "Unsupported packet type.", []) := by
      unfold Message.answer
      split
      · next hmsg => exact absurd hmsg (hconnect _ _ _ _ _)
      · next hmsg => exact absurd hmsg (hpingreq _)
      · next hmsg => exact absurd hmsg (hdisconnect _)
      · rfl
    rw [hunsupported]
    exact ⟨rfl, .nil⟩

section

variable {l : Broker.Label K} (hS : Speaks K target Topic covers)
variable (hre : Presents target Topic covers b.board v)
variable (htellable : Tellable v) (hl : Broker.Step target b l b') (hb' : Simulates b' s')
variable (hwritten : s'.machine.written = s.machine.written ++ l.writes)
include hS hre htellable hl hb' hwritten

omit [LawfulKeyType K] in
theorem publish_isServiceStep {topic payload : List UInt8} {packetId : UInt16}
    (hevent : l.event = .packet a order) (hmsg : a.msg = .publish topic packetId payload)
    (hTopic : Topic topic) :
    IsServiceStep target Topic covers v s (.packet a order) l.status s' := by
  obtain ⟨key, calls, hkey, hstatus, hreplies, rfl, hboard, -⟩ := hl.published hevent hmsg
  have hfits : (Told.publish topic payload).Fits := Arrival.publish_fits hmsg
  have hop : OpSays target Topic covers (.set key (a.entry payload)) (.set topic payload) :=
    .set (a.entry payload) ⟨hTopic, hfits.1, hkey⟩
  have hset : ∀ topic' payload', Board.Op.set topic payload =
      (.set topic' payload' : Board.Op _ _ Subscriber) → (Told.publish topic' payload').Fits := by
    intro topic' payload' heq
    obtain ⟨rfl, rfl⟩ := Board.Op.set.inj heq
    exact hfits
  obtain ⟨calls', v', hv, hvoices, hserves⟩ := hS.operate hb' hre htellable hop hset hboard
  refine ⟨_, v', _, .publish hmsg hv, rfl, hstatus.symm, hwritten, ?_, hserves⟩
  rw [Broker.Label.writes, hreplies]
  exact hvoices

theorem subscribe_isServiceStep {packetId : UInt16} {filters : List Filter} {f : Filter}
    (hevent : l.event = .packet a order) (hmsg : a.msg = .subscribe packetId (filters ++ [f]))
    (hplus : ∀ g ∈ filters ++ [f], plus ∉ g.topic)
    (hTopic : Topic (f.topic.take (filterKeyBytes f.topic))) :
    IsServiceStep target Topic covers v s (.packet a order) l.status s' := by
  obtain ⟨key, calls, hkey, hstatus, hreplies, rfl, hboard, -⟩ :=
    hl.subscribed hevent hmsg hplus
  have hwf : (Message.subscribe packetId (filters ++ [f])).WellFormed := hmsg ▸ a.wellFormed
  have hfilter := keyFor_filter (hwf.2 f (List.mem_append_right _ List.mem_cons_self)) hTopic hkey
  have hop : OpSays target Topic covers
      (.watch (subscriptionTo a.conn f.topic key (b.copies + filters.length)))
      (.watch (a.subscriber f.topic)) :=
    .watch (hS.watches a hfilter _)
  obtain ⟨calls', v', hv, hvoices, hserves⟩ := hS.operate hb' hre htellable hop
    (fun _ _ h => by cases h) hboard
  refine ⟨_, v', _, .subscribe hmsg hplus hv, rfl, hstatus.symm, hwritten, ?_, hserves⟩
  rw [Broker.Label.writes, hreplies]
  -- the acknowledgement comes before what is retained
  exact (voices_one rfl rfl rfl).append hvoices

omit [LawfulKeyType K] hS in
theorem reject_isServiceStep {packetId : UInt16} {filters : List Filter}
    (hevent : l.event = .packet a order) (hmsg : a.msg = .subscribe packetId filters)
    (hplus : ∃ f ∈ filters, plus ∈ f.topic) :
    IsServiceStep target Topic covers v s (.packet a order) l.status s' := by
  obtain ⟨copies, -, hstatus, hwrites, rfl⟩ := hl.rejected hevent hmsg hplus
  exact ⟨_, v, _, .reject hmsg hplus, rfl, hstatus.symm, hwritten, hwrites ▸ .nil,
    ⟨_, hb', hre⟩, htellable⟩

omit [LawfulKeyType K] hS in
theorem answer_isServiceStep (hevent : l.event = .packet a order)
    (hpublish : a.msg.type ≠ .publish) (hsubscribe : a.msg.type ≠ .subscribe) :
    IsServiceStep target Topic covers v s (.packet a order) l.status s' := by
  obtain ⟨hstatus, hwrites, rfl⟩ := hl.answered hevent hpublish hsubscribe
  obtain ⟨hsame, hvoices⟩ := a.answer_voices
  refine ⟨_, v, _, .answer hpublish hsubscribe, rfl, ?_, hwritten, hwrites ▸ hvoices,
    ⟨_, hb', hre⟩, htellable⟩
  rw [hstatus, hsame]

/-- A packet that was handled. -/
theorem packet_isServiceStep (hevent : l.event = .packet a order)
    (hTopic : a.msg.Speakable Topic) :
    IsServiceStep target Topic covers v s (.packet a order) l.status s' := by
  have hother : a.msg.type ≠ .publish → a.msg.type ≠ .subscribe →
      IsServiceStep target Topic covers v s (.packet a order) l.status s' :=
    answer_isServiceStep hre htellable hl hb' hwritten hevent
  rcases hmsg : a.msg with _ | _ | ⟨topic, packetId, payload⟩ | ⟨packetId, filters⟩ | _ |
    ⟨type, body⟩
  · exact hother (by simp [hmsg, Message.type]) (by simp [hmsg, Message.type])
  · exact hother (by simp [hmsg, Message.type]) (by simp [hmsg, Message.type])
  · rw [hmsg] at hTopic
    exact publish_isServiceStep hS hre htellable hl hb' hwritten hevent hmsg hTopic
  · rw [hmsg] at hTopic
    have hwf : (Message.subscribe packetId filters).WellFormed := hmsg ▸ a.wellFormed
    by_cases hplus : ∃ f ∈ filters, plus ∈ f.topic
    · exact reject_isServiceStep hre htellable hl hb' hwritten hevent hmsg hplus
    · have hplus : ∀ g ∈ filters, plus ∉ g.topic := fun g hg h => hplus ⟨g, hg, h⟩
      -- the observer is that of the last filter
      obtain ⟨filters, f, rfl⟩ : ∃ init f, filters = init ++ [f] :=
        ⟨_, _, (List.dropLast_append_getLast hwf.1).symm⟩
      exact subscribe_isServiceStep hS hre htellable hl hb' hwritten hevent hmsg hplus
        (hTopic f (List.mem_append_right _ List.mem_cons_self))
  · exact hother (by simp [hmsg, Message.type]) (by simp [hmsg, Message.type])
  · have hwf : (Message.other type body).WellFormed := hmsg ▸ a.wellFormed
    apply hother <;> rw [hmsg]
    · exact hwf.2.1
    · exact hwf.2.2

omit [LawfulKeyType K] in
theorem remove_isServiceStep {clientId : UInt32} (hevent : l.event = .remove clientId) :
    IsServiceStep target Topic covers v s (.remove clientId) l.status s' := by
  obtain ⟨hstatus, hwrites, hboard, -⟩ := hl.removed hevent
  have hop : OpSays (K := K) target Topic covers (.unwatch (Subscription.isOf clientId))
      (.unwatch fun u => u.id = clientId) := by
    apply Board.Op.Reindexes.unwatch
    intro w u hw
    rw [Subscription.isOf, hw.id]
  obtain ⟨calls', v', hv, -, hserves⟩ := hS.operate hb' hre htellable hop
    (fun _ _ h => by cases h) hboard
  have hnone : calls' = [] := by
    cases hv.inv.1
    rfl
  subst hnone
  exact ⟨_, v', _, .remove hv, rfl, hstatus.symm, hwritten, hwrites ▸ .nil, hserves⟩

end

/-- What the server makes a key of in the event is a topic. -/
def Event.Speakable (Topic : List UInt8 → Prop) (e : Event K) : Prop :=
  ∀ a order, e = .packet a order → a.msg.Speakable Topic

omit [DecidableEq K] [KeyType K] [LawfulKeyType K] in
theorem speakable_packet (h : a.msg.Speakable Topic) : (Event.packet a order).Speakable Topic := by
  rintro _ _ ⟨⟩
  exact h

/-- **One event** is a step of the service, and the server returns from it. -/
theorem Serves.process (h : Serves target Topic covers v s) (hS : Speaks K target Topic covers)
    {e : Event K} (he : e.Speakable Topic) :
    ∃ status s', e.process target s = .ok (status, s') ∧
      IsServiceStep target Topic covers v s e status s' := by
  obtain ⟨b, hb, hre⟩ := h.broker
  obtain ⟨hstep, hreturns⟩ := hb.process target e
  obtain ⟨status, s', hok⟩ := hreturns fun a order heq =>
    hS.encodable a.wellFormed (he a order heq)
  refine ⟨status, s', hok, ?_⟩
  obtain ⟨l, b', hl, hevent, hstatus, hwritten, hb'⟩ := hstep _ _ hok
  cases e with
  | remove clientId =>
      rw [← hstatus]
      exact remove_isServiceStep hS hre h.tellable hl hb' hwritten hevent
  | packet a order =>
      rw [← hstatus]
      exact packet_isServiceStep hS hre h.tellable hl hb' hwritten hevent (he a order rfl)

omit [DecidableEq K] [KeyType K] [LawfulKeyType K] in
/-- What is told in a step fits. -/
theorem ServiceStep.fits {l : ServiceLabel K} (h : ServiceStep covers v l v')
    (hv' : Tellable v') : ∀ x ∈ l.told, x.2.Fits := by
  have hnotes : ∀ {op : Board.Op (List UInt8) (List UInt8) Subscriber}
      {calls : List (Board.Call (List UInt8) (List UInt8) Subscriber)},
      v.Step (op, calls) v' → ∀ x ∈ notes covers calls, x.2.Fits := by
    intro op calls hstep x hx
    obtain ⟨c, hc, rfl⟩ := List.mem_map.mp hx
    exact hv' c.key c.value (hstep.call_value c (List.mem_filter.mp hc).1)
  cases h with
  | publish _ hstep => exact hnotes hstep
  | subscribe _ _ hstep => exact List.forall_mem_cons.mpr ⟨trivial, hnotes hstep⟩
  | reject | remove => exact List.forall_mem_nil _
  | @answer a _ =>
      intro x hx
      obtain ⟨t, ht, rfl⟩ := List.mem_map.mp hx
      exact a.msg.answer_fits t ht

/-- What was written to a socket. -/
def ServerState.bytesTo (s : ServerState K W) (socket : Nat) : List UInt8 :=
  (s.machine.written.filter fun w => w.via.socket = socket).flatMap Write.bytes

/-- **A list of events** is a run of the service. -/
theorem Serves.processAll (h : Serves target Topic covers v s)
    (hS : Speaks K target Topic covers) {events : List (Event K)}
    (hevents : ∀ e ∈ events, e.Speakable Topic) :
    ∃ statuses s' ls v' ws, Gnat.processAll target s events = .ok (statuses, s') ∧
      Run (ServiceStep covers) v ls v' ∧ ls.map ServiceLabel.event = events ∧
      ls.map ServiceLabel.status = statuses ∧
      s'.machine.written = s.machine.written ++ ws ∧
      Voices ws (ls.flatMap ServiceLabel.told) ∧
      (∀ x ∈ ls.flatMap ServiceLabel.told, x.2.Fits) ∧ Serves target Topic covers v' s' := by
  induction events generalizing v s with
  | nil =>
      exact ⟨[], s, [], v, [], rfl, .nil, rfl, rfl, (List.append_nil _).symm, .nil,
        List.forall_mem_nil _, h⟩
  | cons e events ih =>
      obtain ⟨he, hrest⟩ := List.forall_mem_cons.mp hevents
      obtain ⟨status, s₁, hok, l, v₁, ws, hstep, rfl, rfl, hwritten, hvoices, h₁⟩ :=
        h.process hS he
      obtain ⟨statuses, s', ls, v', ws', hall, hrun, rfl, rfl, hwritten', hvoices', hfits, h'⟩ :=
        ih h₁ hrest
      refine ⟨l.status :: _, s', l :: ls, v', ws ++ ws', ?_, .cons hstep hrun, rfl, rfl, ?_, ?_,
        ?_, h'⟩
      · rw [Gnat.processAll, hok]
        show (Gnat.processAll target s₁ _ >>= _) = _
        rw [hall]
        rfl
      · rw [hwritten', hwritten, List.append_assoc]
      · rw [List.flatMap_cons]
        exact hvoices.append hvoices'
      · rw [List.flatMap_cons]
        exact List.forall_mem_append.mpr ⟨hstep.fits h₁.tellable, hfits⟩

/-- A client reads what is told on its socket. -/
theorem Voices.finds {ws : List Write} {told : Told.Post} (h : Voices ws told)
    (hfits : ∀ x ∈ told, x.2.Fits) (socket : Nat) :
    Finds ((ws.filter fun w => w.via.socket = socket).flatMap Write.bytes)
      (told.onSocket socket) := by
  have hfits : ∀ t ∈ told.onSocket socket, t.Fits := by
    intro t ht
    obtain ⟨x, hx, rfl⟩ := List.mem_map.mp ht
    exact hfits x (List.mem_filter.mp hx).1
  rw [(h.on_socket socket).2]
  exact finds_frames hfits

/-! ### Strings and 64-bit keys -/

omit [DecidableEq K] [KeyType K] [LawfulKeyType K] in
theorem speakable_string (e : Event StdString) : e.Speakable fun _ => True := by
  intro a _ _
  unfold Message.Speakable
  split
  · trivial
  · exact fun _ _ => trivial
  · trivial

/-- **The server with string keys is a service.**  From its start it handles any messages
of any clients, as steps of the service with these statuses; its store holds the payloads
of the service; and a client with the bytes that were written to its socket reads, with
the library's own parsers, what it is told, one packet a turn, and then nothing. -/
theorem service_refined {net : W} (hnet : ∀ socket, input socket net = []) (target : Target)
    (events : List (Event StdString)) :
    ∃ statuses s ls v,
      Gnat.processAll target (.initial StdString net) events = .ok (statuses, s) ∧
      Run (ServiceStep stringCovers) {} ls v ∧ ls.map ServiceLabel.event = events ∧
      ls.map ServiceLabel.status = statuses ∧
      (∀ topic, topic.length ≤ 128 →
        (s.store.get ⟨topic⟩).map DataStoreEntry.data = v.value topic) ∧
      (∀ w ∈ s.machine.written, w.accepted = true) ∧
      ∀ socket, Finds (s.bytesTo socket)
        (Told.Post.onSocket socket (ls.flatMap ServiceLabel.told)) := by
  obtain ⟨statuses, s, ls, v, ws, hok, hrun, hevents, hstatuses, hwritten, hvoices, hfits, h⟩ :=
    (serves_initial hnet).processAll (speaks_string target) fun e _ => speakable_string e
  obtain rfl : s.machine.written = ws := hwritten
  refine ⟨statuses, s, ls, v, hok, hrun, hevents, hstatuses, ?_, (hvoices.on_socket 0).1,
    hvoices.finds hfits⟩
  intro topic hlength
  exact h.store_get ⟨trivial, hlength, encodeKey_string target topic⟩

/-- The client 7 reads its SUBACK and what is published to `a`, and nothing on account of
the filter `+`. -/
theorem service_refined_conversation :
    ∃ statuses s ls v,
      Gnat.processAll {} (.initial StdString ({} : Wire)) (conversation StdString) =
        .ok (statuses, s) ∧
      Run (ServiceStep stringCovers) {} ls v ∧
      ls.map ServiceLabel.event = conversation StdString ∧
      ls.map ServiceLabel.status = statuses ∧
      s.bytesTo 1 = [0x90, 3, 0, 1, 0, 0x30, 4, 0, 1, 0x61, 0x6F] ∧
      Finds [0x90, 3, 0, 1, 0, 0x30, 4, 0, 1, 0x61, 0x6F]
        (Told.Post.onSocket 1 (ls.flatMap ServiceLabel.told)) := by
  have hnet : ∀ socket, input socket ({} : Wire) = [] := fun _ => rfl
  obtain ⟨statuses, s, ls, v, hok, hrun, hevents, hstatuses, -, -, hfinds⟩ :=
    service_refined hnet {} (conversation StdString)
  have hbytes : (Gnat.processAll {} (.initial StdString ({} : Wire))
      (conversation StdString)).map (fun r => r.2.bytesTo 1) =
        .ok [0x90, 3, 0, 1, 0, 0x30, 4, 0, 1, 0x61, 0x6F] := by
    decide +kernel
  rw [hok] at hbytes
  have hbytes := Except.ok.inj hbytes
  exact ⟨statuses, s, ls, v, hok, hrun, hevents, hstatuses, hbytes, hbytes ▸ hfinds 1⟩

/-- **So is the server with 64-bit keys**, while the published topics and what is in front of
the `#` of a filter, or all of one without, are plain.  A prefix covers the topics that
have its bits. -/
theorem service_refined_plain {net : W} (hnet : ∀ socket, input socket net = [])
    (target : Target) {events : List (Event UInt64)}
    (hevents : ∀ e ∈ events, e.Speakable Key.Plain) :
    ∃ statuses s ls v,
      Gnat.processAll target (.initial UInt64 net) events = .ok (statuses, s) ∧
      Run (ServiceStep plainCovers) {} ls v ∧ ls.map ServiceLabel.event = events ∧
      ls.map ServiceLabel.status = statuses ∧
      (∀ topic key, Key.Plain topic → KeyType.encodeKey target topic topic.length = .ok key →
        (s.store.get key).map DataStoreEntry.data = v.value topic) ∧
      (∀ w ∈ s.machine.written, w.accepted = true) ∧
      ∀ socket, Finds (s.bytesTo socket)
        (Told.Post.onSocket socket (ls.flatMap ServiceLabel.told)) := by
  obtain ⟨statuses, s, ls, v, ws, hok, hrun, rfl, hstatuses, hwritten, hvoices, hfits, h⟩ :=
    (serves_initial hnet).processAll (speaks_plain target) hevents
  obtain rfl : s.machine.written = ws := hwritten
  refine ⟨statuses, s, ls, v, hok, hrun, rfl, hstatuses, ?_, (hvoices.on_socket 0).1,
    hvoices.finds hfits⟩
  intro topic key hplain hkey
  have hlength := hplain.length_le
  exact h.store_get ⟨hplain, by omega, hkey⟩

/-- The client 7 subscribes to `a#`, and reads what is published to `c`. -/
theorem service_refined_plain_prefix :
    ∃ (statuses : List (Option Status)) (s : ServerState UInt64 Wire)
      (ls : List (ServiceLabel UInt64)) (v : Service),
      Gnat.processAll {} (.initial UInt64 ({} : Wire))
        [.packet (subscribeAs7 1 [⟨[0x61, hash], 0⟩] (by decide) (by decide)) (.asKept UInt64),
          publishAs8 0x30 [0x63] [1] rfl (by decide) (by decide)] = .ok (statuses, s) ∧
      Run (ServiceStep plainCovers) {} ls v ∧ ls.map ServiceLabel.status = statuses ∧
      s.bytesTo 1 = [0x90, 3, 0, 1, 0, 0x30, 4, 0, 1, 0x63, 1] ∧
      Finds [0x90, 3, 0, 1, 0, 0x30, 4, 0, 1, 0x63, 1]
        (Told.Post.onSocket 1 (ls.flatMap ServiceLabel.told)) := by
  have hnet : ∀ socket, input socket ({} : Wire) = [] := fun _ => rfl
  have hevents : ∀ e ∈ ([.packet (subscribeAs7 1 [⟨[0x61, hash], 0⟩] (by decide) (by decide))
      (.asKept UInt64), publishAs8 0x30 [0x63] [1] rfl (by decide) (by decide)] :
        List (Event UInt64)), e.Speakable Key.Plain := by
    intro e he
    rcases List.mem_cons.mp he with rfl | he
    · apply speakable_packet
      show ∀ f ∈ [(⟨[0x61, hash], 0⟩ : Filter)], Key.Plain (f.topic.take (filterKeyBytes f.topic))
      decide +kernel
    · obtain rfl := List.mem_singleton.mp he
      apply speakable_packet
      show Key.Plain [0x63]
      decide +kernel
  obtain ⟨statuses, s, ls, v, hok, hrun, -, hstatuses, -, -, hfinds⟩ :=
    service_refined_plain hnet {} hevents
  have hbytes : (Gnat.processAll {} (.initial UInt64 ({} : Wire))
      [.packet (subscribeAs7 1 [⟨[0x61, hash], 0⟩] (by decide) (by decide)) (.asKept UInt64),
        publishAs8 0x30 [0x63] [1] rfl (by decide) (by decide)]).map (fun r => r.2.bytesTo 1) =
        .ok [0x90, 3, 0, 1, 0, 0x30, 4, 0, 1, 0x63, 1] := by
    decide +kernel
  rw [hok] at hbytes
  have hbytes := Except.ok.inj hbytes
  exact ⟨statuses, s, ls, v, hok, hrun, hstatuses, hbytes, hbytes ▸ hfinds 1⟩

end Gnat
