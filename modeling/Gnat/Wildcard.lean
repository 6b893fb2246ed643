/-
Gnat/Wildcard.lean

What the subscriber of a filter that ends in `#` gets, end to end.

The prefix matchers let too much through, but nothing of what is within the prefix
is lost: `DeliversPrefix` looks, among all that is sent on account of such a
subscription, at the topics that start with the prefix.  The proof is the one for
filters without wildcards, with the keys read back into topics: on faithful topics
`topicOf` turns what the board tells a watcher into what was published.
-/
import Gnat.Prefixes

namespace Gnat

open Lib Prog StreamNetwork

section

variable {K : Type} [DecidableEq K] [KeyType K]

/-! ### What is to be received -/

/-- The topics and payloads in `delivered` that are within a prefix: first, in any
order, each topic that was published before, once and with its latest payload, and
then everything that is published after, until the client is removed. -/
structure ReceivesPrefix (front : List UInt8) (before after : List (Event K))
    (clientId : UInt32) (delivered retained : List (List UInt8 × List UInt8)) : Prop where
  split : delivered.filter (fun d => front <+: d.1) =
    retained ++ (allPublishedUntil clientId after).filter fun d => front <+: d.1
  once : (retained.map Prod.fst).Nodup
  latest : ∀ topic payload, (topic, payload) ∈ retained ↔
    front <+: topic ∧ latestPublished topic before = some payload

/-- A server whose publications are all for topics in `Topic` serves the filters
that end in `#` behind the prefix.  It returns, as long as the topics of all its
packets have keys; and whenever it does, the SUBSCRIBE is answered `Ok`, and what
is written on its account goes to the client's socket and is the SUBACK and then
publications, which are those of the prefix and possibly others. -/
def DeliversPrefix (K : Type) [DecidableEq K] [KeyType K] (target : Target)
    (Topic : List UInt8 → Prop) (front : List UInt8) : Prop :=
  ∀ (W : Type) [ReliableNetwork W] (net : W) (before after : List (Event K)) (a : Arrival)
    (order : IterationOrder K) (packetId : UInt16) (f : Filter),
    (∀ socket, input socket net = []) → a.msg = .subscribe packetId [f] →
    f.topic = front ++ [hash] → (∀ e ∈ before ++ after, e.TopicsIn Topic) →
    ((∀ a' order', .packet a' order' ∈ before ++ .packet a order :: after →
        a'.msg.Encodable K target) →
      ∃ r, processAll target (.initial K net) (before ++ .packet a order :: after) = .ok r) ∧
    ∀ statuses s₁ status s₂ statuses' s₃,
      processAll target (.initial K net) before = .ok (statuses, s₁) →
      (Event.packet a order).process target s₁ = .ok (status, s₂) →
      processAll target s₂ after = .ok (statuses', s₃) →
      status = some .ok ∧ ∃ (now later : List Write)
        (delivered retained : List (List UInt8 × List UInt8)),
        s₂.machine.written = s₁.machine.written ++ now ∧
        s₃.machine.written = s₂.machine.written ++ later ∧
        onAccount s₁.machine.heapCopies now later =
          ⟨a.conn, subackFrame packetId [0], true⟩ :: delivered.flatMap (fun d =>
            publication (heapCopy a.conn s₁.machine.heapCopies) d.1 d.2) ∧
        ReceivesPrefix front before after a.conn.id delivered retained

/-! ### Topics and payloads of calls -/

variable {target : Target} {Topic : List UInt8 → Prop}

/-- The topic and the payload of an entry on the board. -/
def publicationOf (e : K × DataStoreEntry) : List UInt8 × List UInt8 :=
  (topicOf e.1, e.2.data)

omit [DecidableEq K] in
/-- A watcher that is told of keys that decode sends those its matcher accepts. -/
theorem tells_deliver (w : Subscription K) {l : List (K × DataStoreEntry)}
    (hl : ∀ e ∈ l, ∃ decoded, KeyType.decodeKey e.1 (.empty 128) = .ok decoded) :
    (Board.tells w l).flatMap deliver =
      ((l.filter fun e => w.matcher e.1).map publicationOf).flatMap fun d =>
        publication w.conn d.1 d.2 := by
  induction l with
  | nil => rfl
  | cons e l ih =>
      obtain ⟨decoded, hdecode⟩ := hl e List.mem_cons_self
      have htopic : topicOf e.1 = decoded.bytes := by
        rw [topicOf, hdecode]
      rw [Board.tells, List.map_cons, List.flatMap_cons, ← Board.tells,
        ih fun e he => hl e (List.mem_cons_of_mem _ he), List.filter_cons, deliver]
      split
      · rw [hdecode, List.map_cons, List.flatMap_cons, publicationOf, htopic]
      · rfl

omit [DecidableEq K] in
/-- Of what a watcher sends, the topics of a prefix are those it was told, where
its matcher accepts them. -/
theorem filter_accepted {front : List UInt8} {matcher : K → Bool}
    {l : List (K × DataStoreEntry)}
    (h : ∀ e ∈ l, front <+: topicOf e.1 → matcher e.1 = true) :
    ((l.filter fun e => matcher e.1).map publicationOf).filter (fun d => front <+: d.1) =
      (l.map publicationOf).filter fun d => front <+: d.1 := by
  rw [List.filter_map, List.filter_map, List.filter_filter]
  congr 1
  apply List.filter_congr
  intro e he
  show (decide (front <+: topicOf e.1) && matcher e.1) = decide (front <+: topicOf e.1)
  by_cases hfront : front <+: topicOf e.1
  · rw [h e he hfront, Bool.and_true]
  · rw [decide_eq_false hfront, Bool.false_and]

omit [DecidableEq K] in
/-- The matcher of a filter accepts the topics of its prefix. -/
theorem accepts_of_prefix [LawfulKeyType K] (hF : Faithful K target Topic)
    {front topic : List UInt8} {key key' : K}
    (hkey : KeyType.encodeKey target front front.length = .ok key)
    (hkey' : KeyFor target Topic topic key') (hfront : front <+: topicOf key') :
    KeyType.prefixKeyMatcher key key' = true := by
  rw [hF.topicOf_eq hkey'] at hfront
  obtain ⟨more, rfl⟩ := hfront
  exact LawfulKeyType.covers hkey hkey'.2.2

omit [DecidableEq K] [KeyType K] in
theorem topic_of_latestPublished {topic payload : List UInt8} {events : List (Event K)}
    (hevents : ∀ e ∈ events, e.TopicsIn Topic)
    (h : latestPublished topic events = some payload) : Topic topic ∧ topic.length ≤ 128 := by
  induction events with
  | nil => cases h
  | cons e events ih =>
      have ih := ih fun e he => hevents e (List.mem_cons_of_mem _ he)
      cases e with
      | remove clientId => exact ih h
      | packet a order =>
          rw [latestPublished, Option.or_eq_some_iff] at h
          rcases h with h | ⟨-, h⟩
          · exact ih h
          rw [Message.payloadFor_eq, Option.bind_eq_some_iff] at h
          obtain ⟨d, hd, h⟩ := h
          split at h
          · next htopic =>
            have hin := hevents _ List.mem_cons_self d hd
            have hlength : d.1.length ≤ 128 := by
              have hwell := a.wellFormed
              rcases hmsg : a.msg with _ | _ | ⟨topic', packetId, payload'⟩ | _ | _ | _ <;>
                rw [hmsg] at hd <;> cases hd
              rwa [hmsg] at hwell
            exact htopic ▸ ⟨hin, hlength⟩
          · cases h

/-- What was published before, as a list of what is on the board. -/
theorem retained_latest (hF : Faithful K target Topic) {b : Broker K}
    {ls : List (Broker.Label K)} {l : List (K × DataStoreEntry)}
    (h : Run (Broker.Step target) {} ls b) (hls : ∀ l ∈ ls, l.event.TopicsIn Topic)
    (hl : Board.Lists b.board.value l) :
    (∀ e ∈ l, ∃ topic, KeyFor target Topic topic e.1) ∧
      ((l.map publicationOf).map Prod.fst).Nodup ∧
      ∀ topic payload, (topic, payload) ∈ l.map publicationOf ↔
        latestPublished topic (ls.map Broker.Label.event) = some payload := by
  have hvalue := Board.value_run_empty (Broker.run_board h)
  have hkeys : ∀ e ∈ l, ∃ topic, KeyFor target Topic topic e.1 := by
    intro e he
    have hsome := (hl.2 e.1 e.2).mp he
    rw [hvalue] at hsome
    exact operations_keys h hls (Board.mem_of_latest hsome)
  refine ⟨hkeys, ?_, ?_⟩
  · have hmap : (l.map publicationOf).map Prod.fst = (l.map Prod.fst).map topicOf := by
      rw [List.map_map, List.map_map]
      rfl
    rw [hmap]
    refine hF.nodup_topics hl.1 fun key hkey => ?_
    obtain ⟨e, he, rfl⟩ := List.mem_map.mp hkey
    exact hkeys e he
  · intro topic payload
    constructor
    · intro hmem
      obtain ⟨e, he, heq⟩ := List.mem_map.mp hmem
      obtain ⟨topic', hfor⟩ := hkeys e he
      obtain ⟨htopic, hpayload⟩ := Prod.mk.inj heq
      rw [hF.topicOf_eq hfor] at htopic
      rw [← htopic, ← latest_run hF hfor h hls, ← hvalue, (hl.2 e.1 e.2).mp he, ← hpayload]
      rfl
    · intro hlatest
      have hevents : ∀ e ∈ ls.map Broker.Label.event, e.TopicsIn Topic := by
        intro e he
        obtain ⟨l, hl, rfl⟩ := List.mem_map.mp he
        exact hls l hl
      -- what was published has a key, and its topic is read back from it
      obtain ⟨hin, hlength⟩ := topic_of_latestPublished hevents hlatest
      obtain ⟨key, hkey, -⟩ := hF.round_trip hin hlength
      have hfor : KeyFor target Topic topic key := ⟨hin, hlength, hkey⟩
      rw [← latest_run hF hfor h hls, ← hvalue] at hlatest
      obtain ⟨v, hv, rfl⟩ := Option.map_eq_some_iff.mp hlatest
      refine List.mem_map.mpr ⟨(key, v), (hl.2 key v).mpr hv, ?_⟩
      rw [publicationOf, hF.topicOf_eq hfor]

/-! ### Delivery -/

/-- **No lost update behind a prefix**, for faithful keys. -/
theorem deliversPrefix_of_faithful [LawfulKeyType K] (hF : Faithful K target Topic)
    {front : List UInt8} (hplus : plus ∉ front) : DeliversPrefix K target Topic front := by
  intro W _ net before after a order packetId f hnet hmsg htopic hevents
  have h₀ : Simulates ({} : Broker K) (.initial K net) := simulates_initial hnet
  refine ⟨fun hencodable => ?_, ?_⟩
  · obtain ⟨statuses, s', hok⟩ := h₀.exists_processAll target _ hencodable
    exact ⟨_, hok⟩
  intro statuses s₁ status s₂ statuses' s₃ hok₁ hok₂ hok₃
  -- the three parts of the run on the broker
  obtain ⟨ls₁, b₁, hrun₁, hevents₁, -, -, h₁⟩ := h₀.processAll hok₁
  obtain ⟨l, b₂, hstep, hevent, hstatus, hwrites₂, h₂⟩ := (h₁.process target _).1 _ _ hok₂
  obtain ⟨ls₃, b₃, hrun₃, hevents₃, -, hwrites₃, h₃⟩ := h₂.processAll hok₃
  have htopics₁ : ∀ l ∈ ls₁, l.event.TopicsIn Topic := fun l hl =>
    hevents l.event (List.mem_append_left _ (hevents₁ ▸ List.mem_map_of_mem hl))
  have htopics₃ : ∀ l ∈ ls₃, l.event.TopicsIn Topic := fun l hl =>
    hevents l.event (List.mem_append_right _ (hevents₃ ▸ List.mem_map_of_mem hl))
  have hnoplus : plus ∉ f.topic := by
    rw [htopic, List.mem_append, not_or]
    exact ⟨hplus, by decide⟩
  obtain ⟨key, retained, hkey, hok, hretained, haccount⟩ :=
    account_run hstep hevent hmsg hnoplus h₁.wellFormed hrun₃
  rw [filterKey, htopic, encodeKey_hash] at hkey
  let w := subscriptionTo a.conn f.topic key b₁.copies
  have hmatcher : w.matcher = KeyType.prefixKeyMatcher key := by
    show filterMatcher f.topic key = _
    rw [htopic, filterMatcher_hash]
  obtain ⟨hkeys₁, honce, hlatest⟩ := retained_latest hF hrun₁ htopics₁ hretained
  let followed := Board.follow w ((Broker.operations ls₃).map Prod.fst)
  have hkeys : ∀ e ∈ retained ++ followed, ∃ topic, KeyFor target Topic topic e.1 := by
    intro e he
    rcases List.mem_append.mp he with he | he
    · exact hkeys₁ e he
    · exact operations_keys hrun₃ htopics₃ (Board.mem_of_follow he)
  have haccount : onAccount s₁.machine.heapCopies l.writes
      (ls₃.flatMap Broker.Label.writes) = ⟨a.conn, subackFrame packetId [0], true⟩ ::
        (((retained ++ followed).filter fun e => w.matcher e.1).map publicationOf).flatMap
          fun d => publication (heapCopy a.conn s₁.machine.heapCopies) d.1 d.2 := by
    rw [h₁.copies, haccount]
    refine congrArg _ (tells_deliver w fun e he => ?_)
    obtain ⟨topic, hfor⟩ := hkeys e he
    obtain ⟨decoded, hdecode, -⟩ := hF.decodes hfor
    exact ⟨decoded, hdecode⟩
  refine ⟨hstatus.symm.trans hok, l.writes, _, _,
    (retained.map publicationOf).filter (fun d => front <+: d.1), hwrites₂, hwrites₃, haccount,
    ?_, ?_, ?_⟩
  · rw [filter_accepted, List.map_append, List.filter_append, ← hevents₃]
    · congr 2
      exact follow_run hF hrun₃ htopics₃
    -- the matcher may accept other topics too, but none of the prefix is left out
    · intro e he hfront
      obtain ⟨topic, hfor⟩ := hkeys e he
      rw [hmatcher]
      exact accepts_of_prefix hF hkey hfor hfront
  · exact honce.sublist (List.Sublist.map _ List.filter_sublist)
  · intro topic payload
    rw [List.mem_filter, hlatest, hevents₁, decide_eq_true_iff, and_comm]

end

/-- **No lost update for `#` subscriptions.**  With string keys this is so for every
prefix without `+`, whatever is published; with 64-bit keys for plain prefixes, where
only plain topics are published. -/
theorem prefix_delivers (target : Target) {front : List UInt8} (hplus : plus ∉ front) :
    DeliversPrefix StdString target (fun _ => True) front ∧
      (Key.Plain front → DeliversPrefix UInt64 target Key.Plain front) :=
  ⟨deliversPrefix_of_faithful (faithful_string target) hplus,
    fun _ => deliversPrefix_of_faithful (faithful_plain target) hplus⟩

/-! ### A conversation behind a prefix -/

/-- The client 7 subscribes to `a#`; the client 8 has published to `ab`, and publishes
to `b` and `a`. -/
def subscribeBehindA : Arrival :=
  subscribeAs7 1 [⟨[0x61, hash], 0⟩] (by decide) (by decide)
def publishedEarlier : List (Event UInt64) :=
  [publishAs8 0x30 [0x61, 0x62] [1] rfl (by decide) (by decide)]
def publishedLater : List (Event UInt64) :=
  [publishAs8 0x30 [0x62] [2] rfl (by decide) (by decide),
    publishAs8 0x30 [0x61] [3] rfl (by decide) (by decide)]

theorem prefix_delivers_conversation :
    ∃ (statuses statuses' : List (Option Status)) (s₁ s₂ s₃ : ServerState UInt64 Wire)
      (now later : List Write) (delivered : List (List UInt8 × List UInt8)),
      processAll {} (.initial UInt64 ({} : Wire)) publishedEarlier = .ok (statuses, s₁) ∧
      (Event.packet subscribeBehindA (.asKept UInt64)).process {} s₁ = .ok (some .ok, s₂) ∧
      processAll {} s₂ publishedLater = .ok (statuses', s₃) ∧
      s₂.machine.written = s₁.machine.written ++ now ∧
      s₃.machine.written = s₂.machine.written ++ later ∧
      onAccount s₁.machine.heapCopies now later =
        ⟨{ socket := 1, id := 7 }, subackFrame 1 [0], true⟩ :: delivered.flatMap (fun d =>
          publication (heapCopy { socket := 1, id := 7 } s₁.machine.heapCopies) d.1 d.2) ∧
      ∃ retained, delivered.filter (fun d => [0x61] <+: d.1) = retained ++ [([0x61], [3])] ∧
        ([0x61, 0x62], [1]) ∈ retained := by
  have conversation :
      ((do
        let (_, s₁) ← processAll {} (.initial UInt64 ({} : Wire)) publishedEarlier
        let (_, s₂) ← (Event.packet subscribeBehindA (.asKept UInt64)).process {} s₁
        let (_, _) ← processAll {} s₂ publishedLater
        return ()) : Except Fault Unit) = .ok () := by
    decide +kernel
  obtain ⟨statuses, s₁, h₁, h⟩ := exists_ok_of_bind conversation
  obtain ⟨status, s₂, h₂, h⟩ := exists_ok_of_bind h
  obtain ⟨statuses', s₃, h₃, -⟩ := exists_ok_of_bind h
  have hplain : ∀ e ∈ publishedEarlier ++ publishedLater, e.TopicsIn Key.Plain := by
    intro e he
    simp only [publishedEarlier, publishedLater, List.cons_append, List.nil_append,
      List.mem_cons, List.not_mem_nil, or_false] at he
    rcases he with rfl | rfl | rfl <;> rintro d ⟨⟩ <;> decide +kernel
  have hplus : plus ∉ [0x61] := by decide
  obtain ⟨-, hdelivers⟩ := (prefix_delivers {} hplus).2 (by decide +kernel)
    Wire {} publishedEarlier publishedLater subscribeBehindA
    (.asKept UInt64) 1 ⟨[0x61, hash], 0⟩ (fun _ => rfl) rfl rfl hplain
  obtain ⟨rfl, now, later, delivered, retained, hnow, hlater, haccount, hreceives⟩ :=
    hdelivers _ _ _ _ _ _ h₁ h₂ h₃
  exact ⟨statuses, statuses', s₁, s₂, s₃, now, later, delivered, h₁, h₂, h₃, hnow, hlater,
    haccount, retained, hreceives.split, (hreceives.latest _ _).mpr ⟨by decide, rfl⟩⟩

end Gnat
