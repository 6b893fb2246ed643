/-
Gnat/Broker.lean

What the broker is for: a board of retained messages with subscriptions as
watchers.

An `Event` is the arrival of a well-formed packet from some client, or a call
of `RemoveObserversForClient`.  A PUBLISH sets its topic's key on the board, a
SUBSCRIBE puts up one watcher, that of its last filter, and a removal takes the
client's watchers down; a call the board makes is delivered as a PUBLISH if the
watcher's matcher accepts the key.  Everything else leaves the board alone and is
answered on the client's own connection (`Arrival.answer`).  The labels of a step carry what the
server writes; `run_board` says that a run of the broker is a run of the board.
-/
import Gnat.Connecting
import Gnat.KeyLaws
import Gnat.Observed
import Gnat.Received

namespace Gnat

open Lib

/-! ### Events -/

/-- A well-formed message of a client arrives: the frame that carries it, on a
connection the application owns, and the clock at that time. -/
structure Arrival where
  conn : ClientConnection
  frame : Frame
  msg : Message
  timestamp : UInt32 := 0
  owned : conn.copy = none := by rfl
  carries : frame.Carries msg
  wellFormed : msg.WellFormed

/-- The arrival of a message in its shortest frame. -/
def Arrival.ofMessage (conn : ClientConnection) (control : UInt8) (msg : Message)
    (owned : conn.copy = none) (type : controlType control = msg.type)
    (size : (msg.body (controlFlags control)).length < 2 ^ 28) (wellFormed : msg.WellFormed) :
    Arrival where
  conn := conn
  frame := .ofBody control (msg.body (controlFlags control)) size
  msg := msg
  owned := owned
  carries := ⟨type, rfl⟩
  wellFormed := wellFormed

/-- What happens to a broker.  The order is that of the store's entries while
the packet is handled. -/
inductive Event (K : Type)
  | packet (a : Arrival) (order : IterationOrder K)
  | remove (clientId : UInt32)

/-- The entry of a PUBLISH. -/
def Arrival.entry (a : Arrival) (payload : List UInt8) : DataStoreEntry where
  data := payload
  length := payload.length
  timestamp := a.timestamp

/-- The payload of a PUBLISH that arrives is shorter than its packet. -/
theorem Arrival.payload_length_lt {a : Arrival} {topic payload : List UInt8}
    {packetId : UInt16} (h : a.msg = .publish topic packetId payload) :
    topic.length ≤ 128 ∧ payload.length < 2 ^ 28 := by
  have htopic : (Message.publish topic packetId payload).WellFormed := h ▸ a.wellFormed
  have hbody := a.carries.body
  rw [h] at hbody
  have hlt := a.frame.body_length_lt
  rw [hbody, Message.body, List.length_append, List.length_append] at hlt
  exact ⟨htopic, by omega⟩

/-- How a message is answered that is neither a PUBLISH nor a SUBSCRIBE: the status of
its packet, and what is written on the client's own connection. -/
def Arrival.answer (a : Arrival) : Status × List Write :=
  match a.msg with
  | .connect _ level _ _ _ =>
      let type := connectionTypeOf level
      let conn := { a.conn with connectionType := type.getD a.conn.connectionType }
      (.ok, [⟨conn, connackFrame (if type.isNone then 0x80 else 0), true⟩])
  | .other .pingreq _ => (.ok, [⟨a.conn, [0xD0, 0], true⟩])
  | .other .disconnect _ => (.ok, [])
  | _ => (.failure "Unsupported packet type.", [])

theorem Arrival.answer_via (a : Arrival) : ∀ w ∈ a.answer.2, w.via.copy = none := by
  unfold answer
  split
  · exact List.forall_mem_singleton.mpr a.owned
  · exact List.forall_mem_singleton.mpr a.owned
  · exact List.forall_mem_nil _
  · exact List.forall_mem_nil _

variable {K : Type}

/-- The subscription is one of the client with the given id. -/
def Subscription.isOf (clientId : UInt32) (s : Subscription K) : Bool :=
  s.conn.id = clientId

/-- The two writes of a PUBLISH. -/
def publication (conn : ClientConnection) (topic payload : List UInt8) : List Write :=
  [⟨conn, publishHeader topic payload.length, true⟩, ⟨conn, payload, true⟩]

theorem publication_bytes (conn : ClientConnection) (topic payload : List UInt8) :
    (publication conn topic payload).flatMap Write.bytes = publishFrame topic payload := by
  rw [← publishHeader_append]
  simp [publication]

/-- The topics the keys of the messages are made of can be encoded. -/
def Message.Encodable (K : Type) [KeyType K] (target : Target) : Message → Prop
  | publish topic _ _ =>
      ∃ key : K, KeyType.encodeKey target topic topic.length = .ok key
  | subscribe _ filters => FiltersEncodable K target filters
  | _ => True

section

variable [KeyType K]

/-- What a call of the board makes the server write. -/
def deliver (c : Board.Call K DataStoreEntry (Subscription K)) : List Write :=
  if c.watcher.matcher c.key then
    match KeyType.decodeKey c.key (.empty 128) with
    | .ok topic => publication c.watcher.conn topic.bytes c.value.data
    | .error _ => []
  else []

theorem deliver_via {c : Board.Call K DataStoreEntry (Subscription K)} {w : Write}
    (h : w ∈ deliver c) : w.via = c.watcher.conn ∧ w.accepted = true := by
  unfold deliver at h
  split at h
  · split at h
    · simp only [publication, List.mem_cons, List.not_mem_nil, or_false] at h
      rcases h with rfl | rfl <;> exact ⟨rfl, rfl⟩
    · cases h
  · cases h

end

/-! ### Steps -/

/-- A board of retained entries, and how many heap copies were made. -/
structure Broker (K : Type) where
  board : Board K DataStoreEntry (Subscription K) := {}
  copies : Nat := 0

namespace Broker

/-- What a step did: its event, the status of the packet, what was written on
the client's own connection, and the operation on the board with its calls. -/
structure Label (K : Type) where
  event : Event K
  status : Option Status := none
  replies : List Write := []
  op : Option (Board.Op K DataStoreEntry (Subscription K) ×
    List (Board.Call K DataStoreEntry (Subscription K))) := none

/-- The calls of the board in a step. -/
def Label.calls (l : Label K) : List (Board.Call K DataStoreEntry (Subscription K)) :=
  match l.op with
  | some (_, calls) => calls
  | none => []

variable [KeyType K]

/-- What the server writes in a step. -/
def Label.writes (l : Label K) : List Write :=
  l.replies ++ l.calls.flatMap deliver

variable [DecidableEq K]

/-- The steps of a broker compiled for `target`. -/
inductive Step (target : Target) : Broker K → Label K → Broker K → Prop
  | publish {b : Broker K} {a : Arrival} (order : IterationOrder K) {topic payload : List UInt8}
      {packetId : UInt16} {key : K} {board' : Board K DataStoreEntry (Subscription K)}
      {calls : List (Board.Call K DataStoreEntry (Subscription K))} :
      a.msg = .publish topic packetId payload →
      KeyType.encodeKey target topic topic.length = .ok key →
      b.board.Step (.set key (a.entry payload), calls) board' →
      Step target b
        { event := .packet a order
          status := some .ok
          op := some (.set key (a.entry payload), calls) }
        ⟨board', b.copies⟩
  | subscribe {b : Broker K} {a : Arrival} (order : IterationOrder K) {packetId : UInt16}
      {filters : List Filter} {f : Filter} {key : K}
      {board' : Board K DataStoreEntry (Subscription K)}
      {calls : List (Board.Call K DataStoreEntry (Subscription K))} :
      a.msg = .subscribe packetId (filters ++ [f]) →
      (∀ g ∈ filters ++ [f], plus ∉ g.topic) →
      filterKey target f = .ok key →
      b.board.Step
        (.watch (subscriptionTo a.conn f.topic key (b.copies + filters.length)), calls) board' →
      Step target b
        { event := .packet a order
          status := some .ok
          replies := [⟨a.conn, subackFrame packetId [0], true⟩]
          op := some
            (.watch (subscriptionTo a.conn f.topic key (b.copies + filters.length)), calls) }
        ⟨board', b.copies + filters.length + 1⟩
  | reject {b : Broker K} {a : Arrival} {order : IterationOrder K} {packetId : UInt16}
      {filters : List Filter} {copies : Nat} :
      a.msg = .subscribe packetId filters → Rejects filters copies →
      Step target b { event := .packet a order, status := some (.failure "") }
        ⟨b.board, b.copies + copies⟩
  | other {b : Broker K} {a : Arrival} {order : IterationOrder K} :
      a.msg.type ≠ .publish → a.msg.type ≠ .subscribe →
      Step target b
        { event := .packet a order, status := some a.answer.1, replies := a.answer.2 } b
  | remove {b : Broker K} {clientId : UInt32}
      {board' : Board K DataStoreEntry (Subscription K)} :
      b.board.Step (.unwatch (Subscription.isOf clientId), []) board' →
      Step target b
        { event := .remove clientId
          op := some (.unwatch (Subscription.isOf clientId), []) }
        ⟨board', b.copies⟩

variable {target : Target} {b b' : Broker K} {l : Label K} {ls : List (Label K)}

/-! ### What a step does, by its message -/

/-- A SUBSCRIBE without `+` is acknowledged and puts up the watcher of its last
filter. -/
theorem Step.subscribed {a : Arrival} {order : IterationOrder K} {packetId : UInt16}
    {filters : List Filter} {f : Filter} (h : Step target b l b')
    (hevent : l.event = .packet a order) (hmsg : a.msg = .subscribe packetId (filters ++ [f]))
    (hplus : ∀ g ∈ filters ++ [f], plus ∉ g.topic) :
    ∃ key calls, filterKey target f = .ok key ∧ l.status = some .ok ∧
      l.replies = [⟨a.conn, subackFrame packetId [0], true⟩] ∧ l.calls = calls ∧
      b.board.Step
        (.watch (subscriptionTo a.conn f.topic key (b.copies + filters.length)), calls)
        b'.board ∧
      b'.copies = b.copies + filters.length + 1 := by
  cases h with
  | publish _ hmsg' =>
      cases hevent
      cases hmsg'.symm.trans hmsg
  | subscribe _ hmsg' _ hkey hstep =>
      cases hevent
      obtain ⟨rfl, hfilters⟩ := Message.subscribe.inj (hmsg'.symm.trans hmsg)
      obtain ⟨rfl, hf⟩ := List.append_inj' hfilters rfl
      obtain rfl := List.singleton_inj.mp hf
      exact ⟨_, _, hkey, rfl, rfl, rfl, hstep, rfl⟩
  | reject hmsg' hrejects =>
      cases hevent
      obtain ⟨rfl, rfl⟩ := Message.subscribe.inj (hmsg'.symm.trans hmsg)
      obtain ⟨before, g, after, hfilters, -, hg, -⟩ := hrejects
      -- one of the filters would have a `+`
      exact absurd hg (hplus g (by rw [hfilters]; simp))
  | other _ hsubscribe =>
      cases hevent
      exact absurd (by rw [hmsg]; rfl) hsubscribe
  | remove => cases hevent

/-- A SUBSCRIBE with a `+` fails and changes nothing on the board. -/
theorem Step.rejected {a : Arrival} {order : IterationOrder K} {packetId : UInt16}
    {filters : List Filter} (h : Step target b l b') (hevent : l.event = .packet a order)
    (hmsg : a.msg = .subscribe packetId filters) (hplus : ∃ f ∈ filters, plus ∈ f.topic) :
    ∃ copies, Rejects filters copies ∧ l.status = some (.failure "") ∧ l.writes = [] ∧
      b' = ⟨b.board, b.copies + copies⟩ := by
  cases h with
  | publish _ hmsg' =>
      cases hevent
      cases hmsg'.symm.trans hmsg
  | subscribe _ hmsg' hnone =>
      cases hevent
      obtain ⟨rfl, rfl⟩ := Message.subscribe.inj (hmsg'.symm.trans hmsg)
      obtain ⟨f, hf, hplus⟩ := hplus
      exact absurd hplus (hnone f hf)
  | reject hmsg' hrejects =>
      cases hevent
      obtain ⟨rfl, rfl⟩ := Message.subscribe.inj (hmsg'.symm.trans hmsg)
      exact ⟨_, hrejects, rfl, rfl, rfl⟩
  | other _ hsubscribe =>
      cases hevent
      exact absurd (by rw [hmsg]; rfl) hsubscribe
  | remove => cases hevent

/-- A removal takes the client's watchers down. -/
theorem Step.removed {clientId : UInt32} (h : Step target b l b')
    (hevent : l.event = .remove clientId) :
    l.status = none ∧ l.writes = [] ∧
      b.board.Step (.unwatch (Subscription.isOf clientId), []) b'.board ∧
      b'.copies = b.copies := by
  cases h with
  | publish | subscribe | reject | other => cases hevent
  | remove hstep =>
      cases hevent
      exact ⟨rfl, rfl, hstep, rfl⟩

/-- A message that is neither a PUBLISH nor a SUBSCRIBE is answered, and that is all. -/
theorem Step.answered {a : Arrival} {order : IterationOrder K} (h : Step target b l b')
    (hevent : l.event = .packet a order) (hpublish : a.msg.type ≠ .publish)
    (hsubscribe : a.msg.type ≠ .subscribe) :
    l.status = some a.answer.1 ∧ l.writes = a.answer.2 ∧ b' = b := by
  cases h with
  | publish _ hmsg =>
      cases hevent
      exact absurd (by rw [hmsg]; rfl) hpublish
  | subscribe _ hmsg | reject hmsg =>
      cases hevent
      exact absurd (by rw [hmsg]; rfl) hsubscribe
  | other =>
      cases hevent
      exact ⟨rfl, List.append_nil _, rfl⟩
  | remove => cases hevent

/-- A PUBLISH sets its topic's key. -/
theorem Step.published {a : Arrival} {order : IterationOrder K} {topic payload : List UInt8}
    {packetId : UInt16} (h : Step target b l b') (hevent : l.event = .packet a order)
    (hmsg : a.msg = .publish topic packetId payload) :
    ∃ key calls, KeyType.encodeKey target topic topic.length = .ok key ∧
      l.status = some .ok ∧ l.replies = [] ∧ l.calls = calls ∧
      b.board.Step (.set key (a.entry payload), calls) b'.board ∧ b'.copies = b.copies := by
  cases h with
  | publish _ hmsg' hkey hstep =>
      cases hevent
      obtain ⟨rfl, -, rfl⟩ := Message.publish.inj (hmsg'.symm.trans hmsg)
      exact ⟨_, _, hkey, rfl, rfl, rfl, hstep, rfl⟩
  | subscribe _ hmsg' | reject hmsg' =>
      cases hevent
      cases hmsg'.symm.trans hmsg
  | other hpublish =>
      cases hevent
      exact absurd (by rw [hmsg]; rfl) hpublish
  | remove => cases hevent

/-! ### Runs of the broker as runs of the board -/

theorem Step.board (h : Step target b l b') :
    Run Board.Step b.board l.op.toList b'.board := by
  cases h with
  | publish _ _ _ hstep => exact .cons hstep .nil
  | subscribe _ _ _ _ hstep => exact .cons hstep .nil
  | reject | other => exact .nil
  | remove hstep => exact .cons hstep .nil

/-- The operations of a run. -/
def operations (ls : List (Label K)) : List (Board.Op K DataStoreEntry (Subscription K) ×
    List (Board.Call K DataStoreEntry (Subscription K))) :=
  ls.flatMap fun l => l.op.toList

/-- **A run of the broker is a run of the board.** -/
theorem run_board (h : Run (Step target) b ls b') :
    Run Board.Step b.board (operations ls) b'.board := by
  induction h with
  | nil => exact .nil
  | cons hstep _ ih => exact Run.append_iff.mpr ⟨_, hstep.board, ih⟩

omit [KeyType K] [DecidableEq K] in
theorem operations_calls (ls : List (Label K)) :
    (operations ls).flatMap Prod.snd = ls.flatMap Label.calls := by
  induction ls with
  | nil => rfl
  | cons l ls ih =>
      rw [operations, List.flatMap_cons, List.flatMap_append, List.flatMap_cons, ← operations,
        ih]
      congr 1
      rcases hop : l.op with - | ⟨op, calls⟩
      · simp [Label.calls, hop]
      · simp [Label.calls, hop]

/-! ### The invariant -/

/-- The entry under a key can be sent as a PUBLISH. -/
def Deliverable (key : K) (entry : DataStoreEntry) : Prop :=
  ∃ topic, KeyType.decodeKey key (.empty 128) = .ok topic ∧ topic.length ≤ 128 ∧
    entry.length < 2 ^ 28

/-- What is on the board can be sent, and the watchers' heap copies were made. -/
structure WellFormed (b : Broker K) : Prop where
  deliverable : ∀ key entry, b.board.value key = some entry → Deliverable key entry
  numbered : ∀ w ∈ b.board.watchers, ∃ n < b.copies, w.conn.copy = some n

omit [DecidableEq K] in
theorem wellFormed_empty : WellFormed ({} : Broker K) :=
  ⟨nofun, nofun⟩

theorem Step.copies_le (h : Step target b l b') : b.copies ≤ b'.copies := by
  cases h with
  | publish | other | remove => exact Nat.le_refl _
  | subscribe => exact Nat.le_add_right _ (_ + 1)
  | reject => exact Nat.le_add_right _ _

variable [LawfulKeyType K]

theorem Step.deliverable (h : Step target b l b') (hb : WellFormed b) :
    ∀ key entry, b'.board.value key = some entry → Deliverable key entry := by
  cases h with
  | @publish a _ topic payload _ key' _ _ hmsg hkey hstep =>
      obtain ⟨-, rfl⟩ := hstep.inv
      intro key entry hentry
      rcases eq_or_ne key key' with rfl | hne
      -- the entry that was just set: its topic was read into a buffer of 128 bytes
      · obtain ⟨htopic, hpayload⟩ := Arrival.payload_length_lt hmsg
        obtain ⟨decoded, hdecode, hlength⟩ := LawfulKeyType.decodes htopic hkey
        obtain rfl : a.entry payload = entry := by
          simpa [Board.after] using hentry
        exact ⟨decoded, hdecode, hlength, hpayload⟩
      · have hold : b.board.value key = some entry := by
          simpa [Board.after, Function.update_of_ne hne] using hentry
        exact hb.deliverable key entry hold
  | subscribe _ _ _ _ hstep =>
      obtain ⟨-, rfl⟩ := hstep.inv
      exact hb.deliverable
  | reject | other => exact hb.deliverable
  | remove hstep =>
      obtain ⟨-, rfl⟩ := hstep.inv
      exact hb.deliverable

omit [LawfulKeyType K] in
theorem Step.numbered (h : Step target b l b') (hb : WellFormed b) :
    ∀ w ∈ b'.board.watchers, ∃ n < b'.copies, w.conn.copy = some n := by
  have hold : ∀ w ∈ b.board.watchers, ∃ n < b'.copies, w.conn.copy = some n := by
    intro w hw
    obtain ⟨n, hn, hcopy⟩ := hb.numbered w hw
    exact ⟨n, Nat.lt_of_lt_of_le hn h.copies_le, hcopy⟩
  cases h with
  | publish _ _ _ hstep =>
      obtain ⟨-, rfl⟩ := hstep.inv
      exact hold
  | @subscribe _ _ _ filters _ _ _ _ _ _ _ hstep =>
      obtain ⟨-, rfl⟩ := hstep.inv
      intro w hw
      rcases List.mem_append.mp hw with hw | hw
      · exact hold w hw
      · rw [List.mem_singleton.mp hw]
        exact ⟨b.copies + filters.length, Nat.lt_succ_self _, rfl⟩
  | reject | other => exact hold
  | remove hstep =>
      obtain ⟨-, rfl⟩ := hstep.inv
      exact fun w hw => hold w (List.mem_filter.mp hw).1

theorem Step.wellFormed (h : Step target b l b') (hb : WellFormed b) : WellFormed b' :=
  ⟨h.deliverable hb, h.numbered hb⟩

end Broker

end Gnat
