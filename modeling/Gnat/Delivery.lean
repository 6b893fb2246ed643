/-
Gnat/Delivery.lean

What a subscriber gets, end to end.

A subscription is told by the number of its heap copy, so the writes on its
account are those on that copy.  `writes_via` finds them among all writes of a
run: they are the deliveries of the calls the board makes to one watcher, and
`Board.heard_run` says which calls these are.  What is left is to read the
board's operations as events (`latest_run`, `follow_run`): for string keys and a
filter without wildcards, the calls delivered are those for the filter's topic.
-/
import Gnat.Simulation

namespace Gnat

open Lib Prog StreamNetwork

/-! ### Publications in a list of events -/

/-- The payload of a message, if it is a PUBLISH of the topic. -/
def Message.payloadFor (topic : List UInt8) : Message → Option (List UInt8)
  | publish topic' _ payload => if topic' = topic then some payload else none
  | _ => none

/-- The topic and the payload of a message, if it is a PUBLISH. -/
def Message.published : Message → Option (List UInt8 × List UInt8)
  | publish topic _ payload => some (topic, payload)
  | _ => none

theorem Message.payloadFor_eq (topic : List UInt8) (msg : Message) :
    msg.payloadFor topic =
      msg.published.bind fun d => if d.1 = topic then some d.2 else none := by
  cases msg <;> rfl

section

variable {K : Type}

/-- The payload of the last PUBLISH of a topic. -/
def latestPublished (topic : List UInt8) : List (Event K) → Option (List UInt8)
  | [] => none
  | .packet a _ :: events => (latestPublished topic events).or (a.msg.payloadFor topic)
  | .remove _ :: events => latestPublished topic events

/-- The payloads of a topic that are published until the client is removed. -/
def publishedUntil (topic : List UInt8) (clientId : UInt32) :
    List (Event K) → List (List UInt8)
  | [] => []
  | .packet a _ :: events =>
      (a.msg.payloadFor topic).toList ++ publishedUntil topic clientId events
  | .remove removed :: events =>
      if clientId = removed then [] else publishedUntil topic clientId events

/-- The topics and payloads that are published until the client is removed. -/
def allPublishedUntil (clientId : UInt32) : List (Event K) → List (List UInt8 × List UInt8)
  | [] => []
  | .packet a _ :: events => a.msg.published.toList ++ allPublishedUntil clientId events
  | .remove removed :: events =>
      if clientId = removed then [] else allPublishedUntil clientId events

theorem publishedUntil_eq (topic : List UInt8) (clientId : UInt32) (events : List (Event K)) :
    publishedUntil topic clientId events =
      ((allPublishedUntil clientId events).filter fun d => d.1 = topic).map Prod.snd := by
  induction events with
  | nil => rfl
  | cons e events ih =>
      cases e with
      | packet a order =>
          rw [publishedUntil, allPublishedUntil, List.filter_append, List.map_append, ih,
            Message.payloadFor_eq]
          congr 1
          cases a.msg.published with
          | none => rfl
          | some d =>
              simp only [Option.bind_some, Option.toList_some, List.filter_singleton]
              by_cases hd : d.1 = topic <;> simp [hd]
      | remove removed =>
          rw [publishedUntil, allPublishedUntil, ih]
          split <;> rfl

/-- A PUBLISH among the events is for a topic in `Topic`. -/
def Event.TopicsIn (Topic : List UInt8 → Prop) : Event K → Prop
  | .packet a _ => ∀ d, a.msg.published = some d → Topic d.1
  | .remove _ => True

end

/-! ### The writes of a subscription -/

section

variable {K : Type} [DecidableEq K] [KeyType K] {target : Target}
variable {b b' : Broker K} {l : Broker.Label K} {ls : List (Broker.Label K)} {k : Nat}

/-- The write was made on the heap copy with the given number. -/
def Write.onCopy (k : Nat) (w : Write) : Bool :=
  w.via.copy = some k

/-- The subscription owns the heap copy with the given number. -/
def Subscription.ownsCopy (k : Nat) (s : Subscription K) : Bool :=
  s.conn.copy = some k

omit [DecidableEq K] in
theorem deliver_onCopy (calls : List (Board.Call K DataStoreEntry (Subscription K))) :
    (calls.flatMap deliver).filter (Write.onCopy k) =
      (Board.heard (Subscription.ownsCopy k) calls).flatMap deliver := by
  induction calls with
  | nil => rfl
  | cons c calls ih =>
      rw [List.flatMap_cons, List.filter_append, ih, Board.heard, Board.heard, List.filter_cons]
      -- all writes of a call are on its watcher's copy
      split
      · next hc =>
        rw [List.flatMap_cons, List.filter_eq_self.mpr]
        intro w hw
        rw [Write.onCopy, (deliver_via hw).1]
        exact hc
      · next hc =>
        rw [List.filter_eq_nil_iff.mpr, List.nil_append]
        intro w hw
        rw [Write.onCopy, (deliver_via hw).1]
        exact hc

theorem Broker.Step.replies_via (h : Broker.Step target b l b') :
    ∀ w ∈ l.replies, w.via.copy = none := by
  cases h with
  | publish | reject | remove => exact List.forall_mem_nil _
  | @subscribe a =>
      intro w hw
      rw [List.mem_singleton.mp hw]
      exact a.owned
  | @other a => exact a.answer_via

theorem Broker.Step.writes_via (h : Broker.Step target b l b') :
    l.writes.filter (Write.onCopy k) =
      (Board.heard (Subscription.ownsCopy k) l.calls).flatMap deliver := by
  have hreplies : l.replies.filter (Write.onCopy k) = [] := by
    apply List.filter_eq_nil_iff.mpr
    intro w hw
    rw [Write.onCopy, h.replies_via w hw]
    simp
  rw [Broker.Label.writes, List.filter_append, hreplies, deliver_onCopy]
  rfl

/-- The writes of a run on one heap copy are the deliveries of the calls to
its subscription. -/
theorem writes_via (h : Run (Broker.Step target) b ls b') :
    (ls.flatMap Broker.Label.writes).filter (Write.onCopy k) =
      (Board.heard (Subscription.ownsCopy k)
        ((Broker.operations ls).flatMap Prod.snd)).flatMap deliver := by
  rw [Broker.operations_calls]
  induction h with
  | nil => rfl
  | cons hstep _ ih =>
      rw [List.flatMap_cons, List.filter_append, hstep.writes_via, ih, List.flatMap_cons,
        Board.heard_append, List.flatMap_append]

/-- A heap copy is made once, so no later watcher has its number. -/
theorem keeps_copy (h : Run (Broker.Step target) b ls b') (hk : k < b.copies) :
    ∀ o ∈ Broker.operations ls, Board.Keeps (Subscription.ownsCopy k) o.1 := by
  induction h with
  | nil => exact List.forall_mem_nil _
  | @cons b _ _ _ _ hstep _ ih =>
      intro o ho
      rw [Broker.operations, List.flatMap_cons, List.mem_append] at ho
      rcases ho with ho | ho
      · cases hstep with
        | publish | remove =>
            rw [List.mem_singleton.mp ho]
            trivial
        | @subscribe _ _ _ filters =>
            rw [List.mem_singleton.mp ho]
            have hne : ¬ some (b.copies + filters.length) = some k := by
              rw [Option.some_inj]
              omega
            exact decide_eq_false hne
        | reject | other => cases ho
      · exact ih (Nat.lt_of_lt_of_le hk hstep.copies_le) o ho

omit [DecidableEq K] in
/-- No watcher has the number of a heap copy that was not made yet. -/
theorem Broker.WellFormed.no_owner (h : b.WellFormed) :
    b.board.watchers.filter (Subscription.ownsCopy b.copies) = [] := by
  apply List.filter_eq_nil_iff.mpr
  intro w hw hown
  obtain ⟨n, hn, hcopy⟩ := h.numbered w hw
  have heq : some n = some b.copies := hcopy.symm.trans (of_decide_eq_true hown)
  exact absurd (Option.some.inj heq) (Nat.ne_of_lt hn)

/-- A subscription without wildcards gets the entries under its key. -/
theorem tells_exact [LawfulKeyType K] {conn : ClientConnection} {topic : List UInt8} {n : Nat}
    {key : K} {decoded : StringBuffer 128}
    (hdecode : KeyType.decodeKey key (.empty 128) = .ok decoded) (hhash : hash ∉ topic)
    (l : List (K × DataStoreEntry)) :
    (Board.tells (subscriptionTo conn topic key n) l).flatMap deliver =
      ((l.filter fun e => e.1 = key).map fun e => e.2.data).flatMap
        (publication (heapCopy conn n) decoded.bytes) := by
  have hmatcher : (subscriptionTo conn topic key n).matcher = KeyType.fullKeyMatcher key := by
    simp only [subscriptionTo, filterMatcher, if_neg hhash]
  induction l with
  | nil => rfl
  | cons e l ih =>
      rw [Board.tells, List.map_cons, List.flatMap_cons, ← Board.tells, ih, List.filter_cons,
        deliver, hmatcher]
      by_cases he : e.1 = key
      · rw [if_pos (LawfulKeyType.full_iff.mpr he.symm), if_pos (decide_eq_true he), he,
          hdecode, List.map_cons, List.flatMap_cons]
        rfl
      · rw [if_neg (fun h => he (LawfulKeyType.full_iff.mp h).symm),
          if_neg (by simpa using he)]
        rfl

end

/-! ### Topics and their keys -/

section

variable {K : Type} [DecidableEq K] [KeyType K] {target : Target} {b b' : Broker K}
variable {l : Broker.Label K} {ls : List (Broker.Label K)} {Topic : List UInt8 → Prop}
variable {topic : List UInt8} {key : K}

/-- What a step does to the board, by its event: a PUBLISH sets the key of its
topic, any other packet sets nothing, a removal takes the client's watchers down. -/
theorem Broker.Step.operation (h : Broker.Step target b l b')
    (hevent : l.event.TopicsIn Topic) :
    (∃ a order topic payload key calls, l.event = .packet a order ∧
      a.msg.published = some (topic, payload) ∧ KeyFor target Topic topic key ∧
      l.op = some (.set key (a.entry payload), calls)) ∨
    (∃ a order, l.event = .packet a order ∧ a.msg.published = none ∧
      (l.op = none ∨ ∃ w calls, l.op = some (.watch w, calls))) ∨
    (∃ clientId, l.event = .remove clientId ∧
      l.op = some (.unwatch (Subscription.isOf clientId), [])) := by
  cases h with
  | @publish a order topic payload packetId key _ calls hmsg hkey _ =>
      have hpublished : a.msg.published = some (topic, payload) := by
        rw [hmsg]
        rfl
      exact .inl ⟨a, order, topic, payload, key, calls, rfl, hpublished,
        ⟨hevent _ hpublished, (Arrival.payload_length_lt hmsg).1, hkey⟩, rfl⟩
  | @subscribe a order _ _ _ _ _ _ hmsg =>
      exact .inr (.inl ⟨a, order, rfl, by rw [hmsg]; rfl, .inr ⟨_, _, rfl⟩⟩)
  | @reject a order _ _ _ hmsg =>
      exact .inr (.inl ⟨a, order, rfl, by rw [hmsg]; rfl, .inl rfl⟩)
  | @other a order hpublish =>
      refine .inr (.inl ⟨a, order, rfl, ?_, .inl rfl⟩)
      rcases hmsg : a.msg <;> first | rfl | exact absurd (hmsg ▸ rfl) hpublish
  | remove => exact .inr (.inr ⟨_, rfl, rfl⟩)

/-- The keys that are set in a run are those of topics. -/
theorem operations_keys (h : Run (Broker.Step target) b ls b')
    (hls : ∀ l ∈ ls, l.event.TopicsIn Topic) {v : DataStoreEntry}
    (hset : .set key v ∈ (Broker.operations ls).map Prod.fst) :
    ∃ topic, KeyFor target Topic topic key := by
  induction h with
  | nil => cases hset
  | @cons _ _ _ l ls hstep _ ih =>
      rw [Broker.operations, List.flatMap_cons, List.map_append, ← Broker.operations,
        List.mem_append] at hset
      rcases hset with hset | hset
      · rcases hstep.operation (hls l List.mem_cons_self) with
          ⟨a, order, topic, payload, key', calls, -, -, hkey, hop⟩ |
          ⟨a, order, -, -, hop | ⟨w, calls, hop⟩⟩ | ⟨clientId, -, hop⟩
        · rw [hop] at hset
          cases List.mem_singleton.mp hset
          exact ⟨topic, hkey⟩
        · rw [hop] at hset
          cases hset
        · rw [hop] at hset
          cases List.mem_singleton.mp hset
        · rw [hop] at hset
          cases List.mem_singleton.mp hset
      · exact ih (fun l hl => hls l (List.mem_cons_of_mem _ hl)) hset

/-- The value of a topic's key is the latest PUBLISH of the topic. -/
theorem latest_run (hF : Faithful K target Topic) (hkey : KeyFor target Topic topic key)
    (h : Run (Broker.Step target) b ls b') (hls : ∀ l ∈ ls, l.event.TopicsIn Topic) :
    (Board.latest key ((Broker.operations ls).map Prod.fst)).map DataStoreEntry.data =
      latestPublished topic (ls.map Broker.Label.event) := by
  induction h with
  | nil => rfl
  | @cons _ _ _ l ls hstep _ ih =>
      have ih := ih fun l hl => hls l (List.mem_cons_of_mem _ hl)
      rw [List.map_cons, Broker.operations, List.flatMap_cons, List.map_append,
        ← Broker.operations]
      rcases hstep.operation (hls l List.mem_cons_self) with
        ⟨a, order, topic', payload, key', calls, hevent, hmsg, hkey', hop⟩ |
        ⟨a, order, hevent, hnone, hop⟩ | ⟨clientId, hevent, hop⟩
      -- a PUBLISH: its key is that of the topic if and only if it is to the topic
      · have heq : (if topic' = topic then some payload else none) =
            if key' = key then some payload else none :=
          if_congr (hF.key_eq_iff hkey hkey').symm rfl rfl
        rw [hevent, hop, latestPublished, ← ih, Message.payloadFor_eq, hmsg, Option.bind_some,
          heq]
        simp only [Option.toList_some, List.map_cons, List.map_nil, List.cons_append,
          List.nil_append, Board.latest]
        cases Board.latest key ((Broker.operations ls).map Prod.fst) with
        | none => split <;> rfl
        | some v => rfl
      · rw [hevent, latestPublished, ← ih, Message.payloadFor_eq, hnone, Option.bind_none,
          Option.or_none]
        rcases hop with hop | ⟨w, calls, hop⟩
        · rw [hop]
          rfl
        · rw [hop]
          rfl
      -- a removal
      · rw [hevent, hop, latestPublished, ← ih]
        rfl

/-- What a watcher follows is what is published until its client is removed. -/
theorem follow_run (hF : Faithful K target Topic) {w : Subscription K}
    (h : Run (Broker.Step target) b ls b') (hls : ∀ l ∈ ls, l.event.TopicsIn Topic) :
    (Board.follow w ((Broker.operations ls).map Prod.fst)).map
        (fun e => (topicOf e.1, e.2.data)) =
      allPublishedUntil w.conn.id (ls.map Broker.Label.event) := by
  induction h with
  | nil => rfl
  | @cons _ _ _ l ls hstep _ ih =>
      have ih := ih fun l hl => hls l (List.mem_cons_of_mem _ hl)
      rw [List.map_cons, Broker.operations, List.flatMap_cons, List.map_append,
        ← Broker.operations]
      rcases hstep.operation (hls l List.mem_cons_self) with
        ⟨a, order, topic', payload, key', calls, hevent, hmsg, hkey', hop⟩ |
        ⟨a, order, hevent, hnone, hop⟩ | ⟨clientId, hevent, hop⟩
      · rw [hevent, hop, allPublishedUntil, ← ih, hmsg, ← hF.topicOf_eq hkey']
        rfl
      · rw [hevent, allPublishedUntil, ← ih, hnone]
        rcases hop with hop | ⟨w', calls, hop⟩
        · rw [hop]
          rfl
        · rw [hop]
          rfl
      · rw [hevent, hop, allPublishedUntil, ← ih]
        -- the watcher leaves if it belongs to the client that is removed
        simp only [Option.toList_some, List.map_cons, List.map_nil, List.cons_append,
          List.nil_append, Board.follow, Subscription.isOf, decide_eq_true_eq]
        split <;> rfl

/-- What is set under the key of one topic until a watcher leaves. -/
theorem follow_topic_run (hF : Faithful K target Topic) (hkey : KeyFor target Topic topic key)
    {w : Subscription K} (h : Run (Broker.Step target) b ls b')
    (hls : ∀ l ∈ ls, l.event.TopicsIn Topic) :
    ((Board.follow w ((Broker.operations ls).map Prod.fst)).filter
        fun e => e.1 = key).map (fun e => e.2.data) =
      publishedUntil topic w.conn.id (ls.map Broker.Label.event) := by
  rw [publishedUntil_eq, ← follow_run hF h hls, List.filter_map, List.map_map]
  congr 1
  apply List.filter_congr
  intro e he
  obtain ⟨topic', hkey'⟩ := operations_keys h hls (Board.mem_of_follow he)
  show decide (e.1 = key) = decide (topicOf e.1 = topic)
  rw [hF.topicOf_eq hkey', decide_eq_decide]
  exact hF.key_eq_iff hkey hkey'

omit [DecidableEq K] [KeyType K] in
theorem publications_bytes (conn : ClientConnection) (payloads : List (List UInt8)) :
    (payloads.flatMap (publication conn topic)).flatMap Write.bytes =
      payloads.flatMap (publishFrame topic) := by
  rw [List.flatMap_assoc]
  simp only [publication_bytes]

end

theorem topicsIn_true {K : Type} (e : Event K) : e.TopicsIn fun _ => True := by
  cases e with
  | packet a order => exact fun _ _ => trivial
  | remove clientId => trivial

/-- A string is a key for every topic. -/
theorem encodable_string (target : Target) (msg : Message) :
    msg.Encodable StdString target := by
  cases msg with
  | publish topic => exact ⟨_, encodeKey_string target topic⟩
  | subscribe => exact fun f _ => ⟨_, rfl⟩
  | _ => trivial

/-! ### Delivery -/

/-- The writes on account of a subscription: those of the step that made it
and, of the later ones, those on its heap copy. -/
def onAccount (k : Nat) (now later : List Write) : List Write :=
  now ++ later.filter (Write.onCopy k)

/-- What is written on account of a subscription with one filter: the SUBACK, and
what the observer sends of what it is told.  That is everything on the board, and
then what is set until the client is removed. -/
theorem account_run {K : Type} [DecidableEq K] [KeyType K] {target : Target}
    {b₁ b₂ b₃ : Broker K} {l : Broker.Label K} {ls : List (Broker.Label K)} {a : Arrival}
    {order : IterationOrder K} {packetId : UInt16} {f : Filter}
    (hstep : Broker.Step target b₁ l b₂) (hevent : l.event = .packet a order)
    (hmsg : a.msg = .subscribe packetId [f]) (hplus : plus ∉ f.topic)
    (hwf : b₁.WellFormed) (hrun : Run (Broker.Step target) b₂ ls b₃) :
    ∃ key retained, filterKey target f = .ok key ∧ l.status = some .ok ∧
      Board.Lists b₁.board.value retained ∧
      onAccount b₁.copies l.writes (ls.flatMap Broker.Label.writes) =
        ⟨a.conn, subackFrame packetId [0], true⟩ ::
          (Board.tells (subscriptionTo a.conn f.topic key b₁.copies) (retained ++
            Board.follow (subscriptionTo a.conn f.topic key b₁.copies)
              ((Broker.operations ls).map Prod.fst))).flatMap deliver := by
  have hnoplus : ∀ g ∈ [] ++ [f], plus ∉ g.topic := by
    intro g hg
    rwa [List.mem_singleton.mp hg]
  obtain ⟨key, calls, hkey, hok, hreplies, hcalls, hwatch, hcopies⟩ :=
    hstep.subscribed hevent (show a.msg = .subscribe packetId ([] ++ [f]) from hmsg) hnoplus
  have hown : Subscription.ownsCopy b₁.copies
      (subscriptionTo a.conn f.topic key b₁.copies) = true := decide_eq_true rfl
  obtain ⟨retained, hretained, rfl, hfollow⟩ := Board.heard_run hwatch
    (Broker.run_board hrun) hown hwf.no_owner (keeps_copy hrun (by rw [hcopies]; omega))
  refine ⟨key, retained, hkey, hok, hretained, ?_⟩
  rw [onAccount, writes_via hrun, hfollow, Broker.Label.writes, hreplies, hcalls,
    List.append_assoc, ← List.flatMap_append, ← Board.tells_append, List.singleton_append]
  rfl

/-- **End-to-end delivery** for string keys.  However the run before it went, a
SUBSCRIBE with one filter without wildcards is answered; and whatever happens
afterwards, what is written on account of the subscription goes to the client's
socket, and is the SUBACK, then the PUBLISH with the latest payload of the topic
if there was one, then one PUBLISH for each that arrives for the topic until
`RemoveObserversForClient` is called for the client. -/
theorem delivery_exact {W : Type} [ReliableNetwork W] (target : Target) {net : W}
    (hnet : ∀ socket, input socket net = []) (before after : List (Event StdString))
    {a : Arrival} (order : IterationOrder StdString) {packetId : UInt16} {f : Filter}
    (hmsg : a.msg = .subscribe packetId [f]) (hplus : plus ∉ f.topic)
    (hhash : hash ∉ f.topic) :
    ∃ statuses s₁ s₂ statuses' s₃ now later,
      processAll target (.initial StdString net) before = .ok (statuses, s₁) ∧
      (Event.packet a order).process target s₁ = .ok (some .ok, s₂) ∧
      processAll target s₂ after = .ok (statuses', s₃) ∧
      s₂.machine.written = s₁.machine.written ++ now ∧
      s₃.machine.written = s₂.machine.written ++ later ∧
      (∀ w ∈ onAccount s₁.machine.heapCopies now later,
        w.via.socket = a.conn.socket ∧ w.accepted = true) ∧
      (onAccount s₁.machine.heapCopies now later).flatMap Write.bytes =
        subackFrame packetId [0] ++
          ((latestPublished f.topic before).toList ++
            publishedUntil f.topic a.conn.id after).flatMap (publishFrame f.topic) := by
  -- the three parts of the run, on the server and on the broker
  have h₀ : Simulates ({} : Broker StdString) (.initial StdString net) :=
    simulates_initial hnet
  obtain ⟨statuses, s₁, hok₁⟩ := h₀.exists_processAll target before
    fun a _ _ => encodable_string target a.msg
  obtain ⟨ls₁, b₁, hrun₁, hevents₁, -, -, h₁⟩ := h₀.processAll hok₁
  obtain ⟨status, s₂, hok₂⟩ := (h₁.process target (.packet a order)).2
    fun a _ _ => encodable_string target a.msg
  obtain ⟨l, b₂, hstep, hevent, hstatus, hwrites₂, h₂⟩ := (h₁.process target _).1 _ _ hok₂
  obtain ⟨statuses', s₃, hok₃⟩ := h₂.exists_processAll target after
    fun a _ _ => encodable_string target a.msg
  obtain ⟨ls₃, b₃, hrun₃, hevents₃, -, hwrites₃, h₃⟩ := h₂.processAll hok₃
  obtain ⟨key, retained, hkey, hok, hretained, haccount⟩ :=
    account_run hstep hevent hmsg hplus h₁.wellFormed hrun₃
  obtain rfl : status = some .ok := hstatus.symm.trans hok
  have hfilter : f.topic.length ≤ 128 :=
    (show (Message.subscribe packetId [f]).WellFormed from hmsg ▸ a.wellFormed).2 f (by simp)
  obtain rfl : StdString.mk f.topic = key := by
    have hbytes : filterKeyBytes f.topic = f.topic.length := if_neg hhash
    rw [filterKey, hbytes, encodeKey_string] at hkey
    exact Except.ok.inj hkey
  have hF := faithful_string target
  have hkeyFor : KeyFor target (fun _ => True) f.topic (StdString.mk f.topic) :=
    ⟨trivial, hfilter, encodeKey_string target f.topic⟩
  obtain ⟨decoded, hdecode, hdecoded⟩ := hF.decodes hkeyFor
  -- of what the observer is told it sends what is under the key of the topic
  have haccount : onAccount s₁.machine.heapCopies l.writes
      (ls₃.flatMap Broker.Label.writes) =
        ⟨a.conn, subackFrame packetId [0], true⟩ ::
          ((latestPublished f.topic before).toList ++
            publishedUntil f.topic a.conn.id after).flatMap
              (publication (heapCopy a.conn b₁.copies) f.topic) := by
    rw [h₁.copies, haccount, tells_exact hdecode hhash, hdecoded, List.filter_append,
      List.map_append, follow_topic_run hF hkeyFor hrun₃ fun _ _ => topicsIn_true _,
      hretained.filter_key, hevents₃]
    have hvalue := Board.value_run_empty (Broker.run_board hrun₁) (StdString.mk f.topic)
    rw [← hevents₁, ← latest_run hF hkeyFor hrun₁ fun _ _ => topicsIn_true _, ← hvalue]
    cases b₁.board.value (StdString.mk f.topic) <;> rfl
  refine ⟨statuses, s₁, s₂, statuses', s₃, l.writes, _, hok₁, hok₂, hok₃, hwrites₂, hwrites₃,
    ?_, ?_⟩
  · rw [haccount]
    intro w hw
    rcases List.mem_cons.mp hw with rfl | hw
    · exact ⟨rfl, rfl⟩
    · obtain ⟨payload, -, hw⟩ := List.mem_flatMap.mp hw
      simp only [publication, List.mem_cons, List.not_mem_nil, or_false] at hw
      rcases hw with rfl | rfl <;> exact ⟨rfl, rfl⟩
  · rw [haccount, List.flatMap_cons, publications_bytes]

/-! ### A conversation about one topic -/

/-- The client 7 subscribes to `a` and is removed later; the client 8 publishes
to `a` and `b`, once with QoS 1 and the packet id 9. -/
def subscribeAs7 (packetId : UInt16) (filters : List Filter)
    (size : ((Message.subscribe packetId filters).body (controlFlags 0x82)).length < 2 ^ 28)
    (wellFormed : (Message.subscribe packetId filters).WellFormed) : Arrival :=
  .ofMessage { socket := 1, id := 7 } 0x82 (.subscribe packetId filters) rfl rfl size wellFormed
def subscribeToA : Arrival :=
  subscribeAs7 1 [⟨[0x61], 0⟩] (by decide) (by decide)
def publishAs8 {K : Type} [DecidableEq K] (control : UInt8) (topic payload : List UInt8)
    (type : controlType control = .publish)
    (size : ((Message.publish topic 9 payload).body (controlFlags control)).length < 2 ^ 28)
    (wellFormed : (Message.publish topic 9 payload).WellFormed) : Event K :=
  .packet (.ofMessage { socket := 2, id := 8 } control (.publish topic 9 payload) rfl type size
    wellFormed) (.asKept K)

theorem delivery_exact_conversation :
    ∃ statuses s₁ s₂ statuses' s₃ now later,
      processAll {} (.initial StdString ({} : Wire))
        [publishAs8 0x31 [0x61] [0x6F] rfl (by decide) (by decide)] = .ok (statuses, s₁) ∧
      (Event.packet subscribeToA (.asKept StdString)).process {} s₁ = .ok (some .ok, s₂) ∧
      processAll {} s₂
        [publishAs8 0x30 [0x62] [0x78] rfl (by decide) (by decide),
          publishAs8 0x32 [0x61] [0x6E, 0x77] rfl (by decide) (by decide), .remove 7,
          publishAs8 0x30 [0x61] [0x6C] rfl (by decide) (by decide)] = .ok (statuses', s₃) ∧
      s₂.machine.written = s₁.machine.written ++ now ∧
      s₃.machine.written = s₂.machine.written ++ later ∧
      (onAccount s₁.machine.heapCopies now later).flatMap Write.bytes =
        [0x90, 3, 0, 1, 0] ++ [0x30, 4, 0, 1, 0x61, 0x6F] ++
          [0x30, 5, 0, 1, 0x61, 0x6E, 0x77] := by
  obtain ⟨statuses, s₁, s₂, statuses', s₃, now, later, h₁, h₂, h₃, hnow, hlater, -, hbytes⟩ :=
    delivery_exact {} (show ∀ socket, input socket ({} : Wire) = [] from fun _ => rfl)
      [publishAs8 0x31 [0x61] [0x6F] rfl (by decide) (by decide)]
      [publishAs8 0x30 [0x62] [0x78] rfl (by decide) (by decide),
        publishAs8 0x32 [0x61] [0x6E, 0x77] rfl (by decide) (by decide), .remove 7,
        publishAs8 0x30 [0x61] [0x6C] rfl (by decide) (by decide)]
      (a := subscribeToA) (.asKept StdString) (f := ⟨[0x61], 0⟩) rfl (by decide) (by decide)
  refine ⟨statuses, s₁, s₂, statuses', s₃, now, later, h₁, h₂, h₃, hnow, hlater, ?_⟩
  rw [hbytes]
  decide +kernel

end Gnat
