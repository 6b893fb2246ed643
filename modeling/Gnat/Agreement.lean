/-
Gnat/Agreement.lean

The two key types agree on plain topics.

A topic of at most eight characters, none of them zero or negative, has a
64-bit key and a string key, and each of the two tells the other (`SameKey`).
Two brokers that start empty and get the same plain packets stay in agreement:
the boards have the same values under the two keys of a topic, and the same
subscriptions in the same order.  What a subscription is told then depends on
the topic alone (`told_alike`), so one step writes the same on both sides
(`Agree.step`), and so does a run.
-/
import Gnat.Delivery

namespace Gnat

open Lib Prog StreamNetwork

/-! ### Events without a key type -/

/-- A PUBLISH of a plain topic, or a SUBSCRIBE with plain filters and no `#`. -/
def Message.IsPlain : Message → Prop
  | publish topic _ _ => Key.Plain topic
  | subscribe _ filters => ∀ f ∈ filters, Key.Plain f.topic ∧ hash ∉ f.topic
  | _ => False

instance : DecidablePred Message.IsPlain
  | .publish topic _ _ => inferInstanceAs (Decidable (Key.Plain topic))
  | .subscribe _ filters =>
      inferInstanceAs (Decidable (∀ f ∈ filters, Key.Plain f.topic ∧ hash ∉ f.topic))
  | .connect .. | .connack .. | .suback .. | .other .. => .isFalse nofun

/-- The same plain event, for a server with either key type; each has its own
iteration order. -/
inductive SameEvent : Event UInt64 → Event StdString → Prop
  | packet {a : Arrival} (order : IterationOrder UInt64) (order' : IterationOrder StdString) :
      a.msg.IsPlain → SameEvent (.packet a order) (.packet a order')
  | remove (clientId : UInt32) : SameEvent (.remove clientId) (.remove clientId)

theorem isPlain_of_sameEvents {events : List (Event UInt64)} {events' : List (Event StdString)}
    (h : List.Forall₂ SameEvent events events') :
    ∀ a order, .packet a order ∈ events → a.msg.IsPlain := by
  induction h with
  | nil => rintro _ _ ⟨⟩
  | cons he _ ih =>
      intro a order ha
      rcases List.mem_cons.mp ha with rfl | ha
      · cases he with
        | packet _ _ hplain => exact hplain
      · exact ih a order ha

theorem filterKey_of_not_mem {K : Type} [KeyType K] (target : Target) {f : Filter}
    (h : hash ∉ f.topic) :
    (filterKey target f : Except Fault K) =
      KeyType.encodeKey target f.topic f.topic.length := by
  rw [filterKey, filterKeyBytes, if_neg h]

/-- The 64-bit keys of a plain packet can be made. -/
theorem Message.IsPlain.encodable {msg : Message} (h : msg.IsPlain) (target : Target) :
    msg.Encodable UInt64 target := by
  cases msg with
  | publish topic =>
      obtain ⟨key, hkey, -⟩ := encodeKey_plain target h
      exact ⟨key, hkey⟩
  | subscribe _ filters =>
      intro f hf
      obtain ⟨hplain, hhash⟩ := h f hf
      obtain ⟨key, hkey, -⟩ := encodeKey_plain target hplain
      exact ⟨key, (filterKey_of_not_mem target hhash).trans hkey⟩
  | _ => cases h

/-! ### The two keys of a topic -/

/-- The 64-bit key and the string key of a plain topic. -/
structure SameKey (target : Target) (key : UInt64) (key' : StdString) : Prop where
  plain : Key.Plain key'.bytes
  encodes : KeyType.encodeKey target key'.bytes key'.bytes.length = .ok key

variable {target : Target}

theorem SameKey.decode {key : UInt64} {key' : StdString} (h : SameKey target key key') :
    (∃ decoded, KeyType.decodeKey key (.empty 128) = .ok decoded ∧
      decoded.bytes = key'.bytes) ∧
    ∃ decoded, KeyType.decodeKey key' (.empty 128) = .ok decoded ∧
      decoded.bytes = key'.bytes := by
  constructor
  · obtain ⟨key₁, hkey, decoded, hdecode, hbytes, -⟩ := encodeKey_plain target h.plain
    obtain rfl : key₁ = key := Except.ok.inj (hkey.symm.trans h.encodes)
    exact ⟨decoded, hdecode, hbytes⟩
  · have hle := h.plain.length_le
    have hsize : key'.bytes.length ≤ 128 := by omega
    obtain ⟨decoded, hdecode, hbytes, -⟩ := decodeKey_string hsize
    exact ⟨decoded, hdecode, hbytes⟩

/-- **Each key of a plain topic tells the other.** -/
theorem sameKey_biUnique (target : Target) : Relator.BiUnique (SameKey target) := by
  constructor
  · intro key₁ key' key₂ h₁ h₂
    exact Except.ok.inj (h₁.encodes.symm.trans h₂.encodes)
  · intro key key₁ key₂ h₁ h₂
    -- both topics are what the buffer gets from the 64-bit key
    obtain ⟨⟨decoded₁, hdecode₁, hbytes₁⟩, -⟩ := h₁.decode
    obtain ⟨⟨decoded₂, hdecode₂, hbytes₂⟩, -⟩ := h₂.decode
    obtain rfl : decoded₁ = decoded₂ := Except.ok.inj (hdecode₁.symm.trans hdecode₂)
    have hbytes : key₁.bytes = key₂.bytes := hbytes₁.symm.trans hbytes₂
    cases key₁
    cases key₂
    exact congrArg StdString.mk hbytes

/-- The key of a plain topic for a publisher, on either side. -/
theorem sameKey_of_encode {topic : List UInt8} {key : UInt64} {key' : StdString}
    (hplain : Key.Plain topic)
    (hkey : KeyType.encodeKey target topic topic.length = .ok key)
    (hkey' : KeyType.encodeKey target topic topic.length = .ok key') :
    key' = ⟨topic⟩ ∧ SameKey target key key' := by
  obtain rfl : StdString.mk topic = key' :=
    Except.ok.inj ((encodeKey_string target topic).symm.trans hkey')
  exact ⟨rfl, hplain, hkey⟩

/-! ### Subscriptions that are told the same -/

/-- A subscription to a plain topic, on either side. -/
inductive SameSubscription (target : Target) :
    Subscription UInt64 → Subscription StdString → Prop
  | mk {conn : ClientConnection} {topic : List UInt8} {key : UInt64} {n : Nat} :
      hash ∉ topic → SameKey target key ⟨topic⟩ →
      SameSubscription target (subscriptionTo conn topic key n)
        (subscriptionTo conn topic ⟨topic⟩ n)

section

variable {conn : ClientConnection} {topic : List UInt8} {key : UInt64} {n : Nat}

/-- What two such subscriptions are told is the same if it is the same under the
keys of their topic. -/
theorem told_alike (hhash : hash ∉ topic) (h : SameKey target key ⟨topic⟩)
    {l : List (UInt64 × DataStoreEntry)} {l' : List (StdString × DataStoreEntry)}
    (heq : (l.filter fun e => e.1 = key).map Prod.snd =
      (l'.filter fun e => e.1 = ⟨topic⟩).map Prod.snd) :
    (Board.tells (subscriptionTo conn topic key n) l).flatMap deliver =
      (Board.tells (subscriptionTo conn topic (StdString.mk topic) n) l').flatMap deliver := by
  obtain ⟨⟨decoded, hdecode, hbytes⟩, decoded', hdecode', hbytes'⟩ := h.decode
  have hdata := congrArg (List.map DataStoreEntry.data) heq
  simp only [List.map_map] at hdata
  rw [tells_exact hdecode hhash, tells_exact hdecode' hhash, hbytes, hbytes']
  exact congrArg (List.flatMap (publication (heapCopy conn n) topic)) hdata

/-- A subscription that comes is told the same retained entry. -/
theorem replay_alike (hhash : hash ∉ topic) (h : SameKey target key ⟨topic⟩)
    {value : UInt64 → Option DataStoreEntry} {value' : StdString → Option DataStoreEntry}
    {l : List (UInt64 × DataStoreEntry)} {l' : List (StdString × DataStoreEntry)}
    (hl : Board.Lists value l) (hl' : Board.Lists value' l')
    (hvalue : value key = value' ⟨topic⟩) :
    (Board.tells (subscriptionTo conn topic key n) l).flatMap deliver =
      (Board.tells (subscriptionTo conn topic (StdString.mk topic) n) l').flatMap deliver := by
  apply told_alike hhash h
  rw [hl.filter_key, hl'.filter_key, hvalue]
  cases value' (StdString.mk topic) <;> rfl

end

/-- Each subscription is told the same entry that is set. -/
theorem notify_alike {k : UInt64} {k' : StdString} (hk : SameKey target k k')
    (entry : DataStoreEntry) {ws : List (Subscription UInt64)}
    {ws' : List (Subscription StdString)}
    (h : List.Forall₂ (SameSubscription target) ws ws') :
    (ws.map fun w => (⟨w, k, entry⟩ : Board.Call _ _ _)).flatMap deliver =
      (ws'.map fun w => (⟨w, k', entry⟩ : Board.Call _ _ _)).flatMap deliver := by
  induction h with
  | nil => rfl
  | @cons w w' ws ws' hw _ ih =>
      rw [List.map_cons, List.map_cons, List.flatMap_cons, List.flatMap_cons, ih]
      congr 1
      cases hw with
      | @mk conn topic key n hhash hkey =>
          -- the keys correspond one to one, so both observers match or neither does
          have heq : k = key ↔ k' = ⟨topic⟩ :=
            Relator.rel_eq (sameKey_biUnique target) hk hkey
          have hkept : ([(k, entry)].filter fun e => e.1 = key).map Prod.snd =
              ([(k', entry)].filter fun e => e.1 = ⟨topic⟩).map Prod.snd := by
            by_cases hkk : k = key
            · simp [hkk, heq.mp hkk]
            · simp [hkk, mt heq.mpr hkk]
          have htold : (Board.tells (subscriptionTo conn topic key n) _).flatMap deliver = _ :=
            told_alike hhash hkey hkept
          simpa [Board.tells] using htold

/-! ### Brokers in agreement -/

/-- A rejected SUBSCRIBE makes a heap copy for each filter up to the first with
a `+`. -/
theorem Rejects.copies_eq {filters : List Filter} {copies : Nat} (h : Rejects filters copies) :
    copies = filters.findIdx (fun f => plus ∈ f.topic) + 1 := by
  obtain ⟨before, f, after, rfl, hbefore, hf, rfl⟩ := h
  have hnone : before.findIdx (fun g => plus ∈ g.topic) = before.length := by
    apply List.findIdx_eq_length_of_false
    intro g hg
    exact decide_eq_false (hbefore g hg)
  rw [List.findIdx_append, hnone, if_neg (Nat.lt_irrefl _), List.findIdx_cons,
    decide_eq_true hf, cond_true, Nat.zero_add]

namespace Broker

/-- Brokers with different keys, of the same plain packets. -/
structure Agree (target : Target) (b : Broker UInt64) (b' : Broker StdString) : Prop where
  board : Board.Agree (SameKey target) (SameSubscription target) b.board b'.board
  copies : b.copies = b'.copies

variable {b b₁ : Broker UInt64} {b' b₁' : Broker StdString}
variable {l : Label UInt64} {l' : Label StdString}

theorem Label.writes_eq {calls : List (Board.Call UInt64 DataStoreEntry (Subscription UInt64))}
    {calls' : List (Board.Call StdString DataStoreEntry (Subscription StdString))}
    (hreplies : l.replies = l'.replies) (hcalls : l.calls = calls) (hcalls' : l'.calls = calls')
    (h : calls.flatMap deliver = calls'.flatMap deliver) : l.writes = l'.writes := by
  rw [writes, writes, hreplies, hcalls, hcalls', h]

/-- A PUBLISH on both sides. -/
theorem Agree.publish (h : Agree target b b') (hl : Step target b l b₁)
    (hl' : Step target b' l' b₁') {a : Arrival} {order : IterationOrder UInt64}
    {order' : IterationOrder StdString} (he : l.event = .packet a order)
    (he' : l'.event = .packet a order') {topic payload : List UInt8} {packetId : UInt16}
    (hmsg : a.msg = .publish topic packetId payload) (hplain : Key.Plain topic) :
    l.status = l'.status ∧ l.writes = l'.writes ∧ Agree target b₁ b₁' := by
  obtain ⟨key, calls, hkey, hok, hreplies, hcalls, hset, hcopies⟩ := hl.published he hmsg
  obtain ⟨key', calls', hkey', hok', hreplies', hcalls', hset', hcopies'⟩ :=
    hl'.published he' hmsg
  obtain ⟨rfl, hsame⟩ := sameKey_of_encode hplain hkey hkey'
  obtain ⟨hmakes, hafter⟩ := hset.inv
  obtain ⟨hmakes', hafter'⟩ := hset'.inv
  refine ⟨hok.trans hok'.symm, ?_, ?_, ?_⟩
  · cases hmakes
    cases hmakes'
    exact Label.writes_eq (hreplies.trans hreplies'.symm) hcalls hcalls'
      (notify_alike hsame _ h.board.watchers)
  · rw [hafter, hafter']
    exact h.board.set (sameKey_biUnique target) hsame _
  · rw [hcopies, hcopies', h.copies]

/-- A SUBSCRIBE on both sides. -/
theorem Agree.subscribe (h : Agree target b b') (hl : Step target b l b₁)
    (hl' : Step target b' l' b₁') {a : Arrival} {order : IterationOrder UInt64}
    {order' : IterationOrder StdString} (he : l.event = .packet a order)
    (he' : l'.event = .packet a order') {filters : List Filter} {packetId : UInt16}
    (hmsg : a.msg = .subscribe packetId filters)
    (hplain : ∀ f ∈ filters, Key.Plain f.topic ∧ hash ∉ f.topic) :
    l.status = l'.status ∧ l.writes = l'.writes ∧ Agree target b₁ b₁' := by
  by_cases hplus : ∃ f ∈ filters, plus ∈ f.topic
  · obtain ⟨copies, hrejects, hfail, hwrites, rfl⟩ := hl.rejected he hmsg hplus
    obtain ⟨copies', hrejects', hfail', hwrites', rfl⟩ := hl'.rejected he' hmsg hplus
    -- a `+` is seen in the topic, before there is a key
    refine ⟨hfail.trans hfail'.symm, hwrites.trans hwrites'.symm, h.board, ?_⟩
    show b.copies + copies = b'.copies + copies'
    rw [h.copies, hrejects.copies_eq, hrejects'.copies_eq]
  · have hne : filters ≠ [] :=
      (show (Message.subscribe packetId filters).WellFormed from hmsg ▸ a.wellFormed).1
    obtain ⟨init, f, rfl⟩ : ∃ init f, filters = init ++ [f] :=
      ⟨_, _, (List.dropLast_append_getLast hne).symm⟩
    have hnone : ∀ g ∈ init ++ [f], plus ∉ g.topic := fun g hg hin => hplus ⟨g, hg, hin⟩
    obtain ⟨key, calls, hkey, hok, hreplies, hcalls, hwatch, hcopies⟩ :=
      hl.subscribed he hmsg hnone
    obtain ⟨key', calls', hkey', hok', hreplies', hcalls', hwatch', hcopies'⟩ :=
      hl'.subscribed he' hmsg hnone
    obtain ⟨hf, hhash⟩ := hplain f (by simp)
    rw [filterKey_of_not_mem target hhash] at hkey hkey'
    obtain ⟨rfl, hsame⟩ := sameKey_of_encode hf hkey hkey'
    -- the boards list the same entries, each in an order of its own
    rw [h.copies] at hwatch
    obtain ⟨hmakes, hafter⟩ := hwatch.inv
    obtain ⟨hmakes', hafter'⟩ := hwatch'.inv
    refine ⟨hok.trans hok'.symm, ?_, ?_, ?_⟩
    · cases hmakes with
      | watch _ hlists =>
        cases hmakes' with
        | watch _ hlists' =>
          exact Label.writes_eq (hreplies.trans hreplies'.symm) hcalls hcalls'
            (replay_alike hhash hsame hlists hlists' (h.board.value _ _ hsame))
    · rw [hafter, hafter']
      exact h.board.watch (.mk hhash hsame)
    · rw [hcopies, hcopies', h.copies]

/-- A removal on both sides. -/
theorem Agree.remove (h : Agree target b b') (hl : Step target b l b₁)
    (hl' : Step target b' l' b₁') {clientId : UInt32} (he : l.event = .remove clientId)
    (he' : l'.event = .remove clientId) :
    l.status = l'.status ∧ l.writes = l'.writes ∧ Agree target b₁ b₁' := by
  obtain ⟨hstatus, hwrites, hunwatch, hcopies⟩ := hl.removed he
  obtain ⟨hstatus', hwrites', hunwatch', hcopies'⟩ := hl'.removed he'
  obtain ⟨-, hafter⟩ := hunwatch.inv
  obtain ⟨-, hafter'⟩ := hunwatch'.inv
  refine ⟨hstatus.trans hstatus'.symm, hwrites.trans hwrites'.symm, ?_, ?_⟩
  · rw [hafter, hafter']
    apply h.board.unwatch
    rintro _ _ ⟨-, -⟩
    rfl
  · rw [hcopies, hcopies', h.copies]

/-- **One step of both brokers** on the same plain event. -/
theorem Agree.step (h : Agree target b b') (hl : Step target b l b₁)
    (hl' : Step target b' l' b₁') (he : SameEvent l.event l'.event) :
    l.status = l'.status ∧ l.writes = l'.writes ∧ Agree target b₁ b₁' := by
  generalize hevent : l.event = e at he
  generalize hevent' : l'.event = e' at he
  cases he with
  | @packet a order order' hplain =>
      rcases hmsg : a.msg with _ | _ | ⟨topic, packetId, payload⟩ | ⟨packetId, filters⟩ | _ | _ <;>
        rw [hmsg] at hplain
      · cases hplain
      · cases hplain
      · exact h.publish hl hl' hevent hevent' hmsg hplain
      · exact h.subscribe hl hl' hevent hevent' hmsg hplain
      · cases hplain
      · cases hplain
  | remove clientId => exact h.remove hl hl' hevent hevent'

/-- **Runs of both brokers** on the same plain events. -/
theorem Agree.run {ls : List (Label UInt64)} {ls' : List (Label StdString)}
    (h : Agree target b b') (hls : Run (Step target) b ls b₁)
    (hls' : Run (Step target) b' ls' b₁')
    (he : List.Forall₂ SameEvent (ls.map Label.event) (ls'.map Label.event)) :
    ls.map Label.status = ls'.map Label.status ∧
      ls.flatMap Label.writes = ls'.flatMap Label.writes ∧ Agree target b₁ b₁' := by
  induction hls generalizing b' ls' with
  | nil =>
      cases hls' with
      | nil => exact ⟨rfl, rfl, h⟩
      | cons => cases he
  | cons hl hls ih =>
      cases hls' with
      | nil => cases he
      | cons hl' hls' =>
          rw [List.map_cons, List.map_cons, List.forall₂_cons] at he
          obtain ⟨hstatus, hwrites, h₁⟩ := h.step hl hl' he.1
          obtain ⟨hstatuses, hwrites', h'⟩ := ih h₁ hls' he.2
          refine ⟨?_, ?_, h'⟩
          · rw [List.map_cons, List.map_cons, hstatus, hstatuses]
          · rw [List.flatMap_cons, List.flatMap_cons, hwrites, hwrites']

end Broker

/-! ### Servers in agreement -/

/-- **The key types agree.**  Servers with 64-bit keys and with string keys that
start alike and get the same plain events return, answer with the same statuses
and write the same bytes in the same order on the same connections. -/
theorem keys_agree {W : Type} [ReliableNetwork W] (target : Target) {net : W}
    (hnet : ∀ socket, input socket net = []) {events : List (Event UInt64)}
    {events' : List (Event StdString)} (he : List.Forall₂ SameEvent events events') :
    ∃ statuses s s',
      processAll target (.initial UInt64 net) events = .ok (statuses, s) ∧
      processAll target (.initial StdString net) events' = .ok (statuses, s') ∧
      s.machine.written = s'.machine.written := by
  have h : Simulates ({} : Broker UInt64) (.initial UInt64 net) := simulates_initial hnet
  have h' : Simulates ({} : Broker StdString) (.initial StdString net) := simulates_initial hnet
  obtain ⟨statuses, s, hok⟩ := h.exists_processAll target events fun a order ha =>
    (isPlain_of_sameEvents he a order ha).encodable target
  obtain ⟨statuses', s', hok'⟩ := h'.exists_processAll target events' fun a _ _ =>
    encodable_string target a.msg
  obtain ⟨ls, b, hrun, hevents, rfl, hwrites, -⟩ := h.processAll hok
  obtain ⟨ls', b', hrun', hevents', rfl, hwrites', -⟩ := h'.processAll hok'
  have hagree : Broker.Agree target {} {} := ⟨Board.agree_empty, rfl⟩
  obtain ⟨hstatuses, hsame, -⟩ := hagree.run hrun hrun' (by rwa [hevents, hevents'])
  refine ⟨_, s, s', hok, by rwa [hstatuses], ?_⟩
  rw [hwrites, hwrites', hsame]
  rfl

/-- The client 7 subscribes to `a`, tries `+`, and is removed after a PUBLISH to
`a` by the client 8. -/
def conversation (K : Type) [DecidableEq K] : List (Event K) :=
  [.packet subscribeToA (.asKept K), .packet subscribeToPlus (.asKept K),
    publishAs8 0x31 [0x61] [0x6F] rfl (by decide) (by decide), .remove 7]
where
  subscribeToPlus : Arrival := subscribeAs7 2 [⟨[0x2B], 0⟩] (by decide) (by decide)

theorem keys_agree_conversation :
    ∃ statuses s s',
      processAll {} (.initial UInt64 ({} : Wire)) (conversation UInt64) = .ok (statuses, s) ∧
      processAll {} (.initial StdString ({} : Wire)) (conversation StdString) =
        .ok (statuses, s') ∧
      s.machine.written = s'.machine.written := by
  apply keys_agree {} (fun _ => rfl)
  exact .cons (.packet _ _ (by decide +kernel)) (.cons (.packet _ _ (by decide +kernel))
    (.cons (.packet _ _ (by decide +kernel)) (.cons (.remove 7) .nil)))

end Gnat
