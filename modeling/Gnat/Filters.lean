/-
Gnat/Filters.lean

Which filters of a SUBSCRIBE take effect.

`topic_callback` leaves one observer, that of the last filter, and the SUBACK
has one return code.  So a SUBSCRIBE with one filter does what it is to do, for
both key types: what matches the filter and is retained is sent, and what is
published later is, until the client is removed.  With two filters or more the
acknowledgement already is not the right one.
-/
import Gnat.Delivery

namespace Gnat

open Lib Prog StreamNetwork

/-- A filter matches a topic: it is the topic, or it is a prefix of the topic
with `#` behind.  So `a/#` does not match `a`, whose bytes do not start with `a/`. -/
def Filter.Matches (f : Filter) (topic : List UInt8) : Prop :=
  hash ∉ f.topic ∧ f.topic = topic ∨ ∃ front, f.topic = front ++ [hash] ∧ front <+: topic

section

variable {K : Type} [KeyType K] {target : Target}

/-- The matcher of a filter accepts the keys of the topics it matches. -/
theorem matcher_of_matches [LawfulKeyType K] {f : Filter} {topic : List UInt8}
    {filterKey' key : K} (h : f.Matches topic) (hfilter : filterKey target f = .ok filterKey')
    (hkey : KeyType.encodeKey target topic topic.length = .ok key) :
    filterMatcher f.topic filterKey' key = true := by
  unfold filterKey at hfilter
  rcases h with ⟨hhash, rfl⟩ | ⟨front, hfront, more, rfl⟩
  · rw [filterKeyBytes, if_neg hhash, hkey] at hfilter
    rw [filterMatcher, if_neg hhash, ← Except.ok.inj hfilter]
    exact LawfulKeyType.full_iff.mpr rfl
  · -- the key of the filter is that of the prefix
    have hhash : hash ∈ f.topic := by
      rw [hfront]
      simp
    have hbytes : filterKeyBytes f.topic = front.length := by
      rw [filterKeyBytes, if_pos hhash, hfront, List.length_append, List.length_singleton,
        Nat.add_sub_cancel]
    rw [hbytes, hfront, LawfulKeyType.encodes_front] at hfilter
    rw [filterMatcher, if_pos hhash]
    exact LawfulKeyType.covers hfilter hkey

/-- The entry was sent to the client behind a connection, on a heap copy of it,
under the topic `DecodeKey` makes of its key. -/
def Delivers (conn : ClientConnection) (key : K) (entry : DataStoreEntry) (ws : List Write) :
    Prop :=
  ∃ n topic, KeyType.decodeKey key (.empty 128) = .ok topic ∧
    publication (heapCopy conn n) topic.bytes entry.data <:+: ws

/-- The entry was sent, and under its own topic wherever topics like it are read back
from their keys. -/
structure DeliversTopic (target : Target) (conn : ClientConnection) (topic : List UInt8)
    (key : K) (entry : DataStoreEntry) (ws : List Write) : Prop where
  delivers : Delivers conn key entry ws
  faithful : ∀ Topic, Faithful K target Topic → Topic topic → topic.length ≤ 128 →
    ∃ n, publication (heapCopy conn n) topic entry.data <:+: ws

/-- What was sent for the key of a topic. -/
theorem Delivers.topic {conn : ClientConnection} {topic : List UInt8} {key : K}
    {entry : DataStoreEntry} {ws : List Write} (h : Delivers conn key entry ws)
    (hkey : KeyType.encodeKey target topic topic.length = .ok key) :
    DeliversTopic target conn topic key entry ws := by
  refine ⟨h, fun Topic hF hTopic hlength => ?_⟩
  obtain ⟨n, decoded, hdecode, hsent⟩ := h
  obtain ⟨decoded', hdecode', hbytes⟩ := hF.decodes ⟨hTopic, hlength, hkey⟩
  obtain rfl : decoded = decoded' := Except.ok.inj (hdecode.symm.trans hdecode')
  exact ⟨n, hbytes ▸ hsent⟩

/-- A call to a subscription that accepts the key is delivered. -/
theorem delivers_of_mem {conn : ClientConnection} {filter : List UInt8} {filterKey' key : K}
    {n : Nat} {entry : DataStoreEntry} {replies : List Write}
    {calls : List (Board.Call K DataStoreEntry (Subscription K))}
    (hcall : ⟨subscriptionTo conn filter filterKey' n, key, entry⟩ ∈ calls)
    (hmatcher : filterMatcher filter filterKey' key = true)
    (hdeliverable : Broker.Deliverable key entry) :
    Delivers conn key entry (replies ++ calls.flatMap deliver) := by
  obtain ⟨topic, hdecode, -⟩ := hdeliverable
  refine ⟨n, topic, hdecode, ?_⟩
  obtain ⟨front, back, rfl⟩ := List.append_of_mem hcall
  have hdeliver : deliver ⟨subscriptionTo conn filter filterKey' n, key, entry⟩ =
      publication (heapCopy conn n) topic.bytes entry.data := by
    rw [deliver, hdecode]
    exact if_pos hmatcher
  refine ⟨replies ++ front.flatMap deliver, back.flatMap deliver, ?_⟩
  rw [List.flatMap_append, List.flatMap_cons, hdeliver]
  simp only [List.append_assoc]

/-- On a connection that no call goes to there is the reply alone. -/
theorem bytes_direct {conn : ClientConnection} {reply : List UInt8}
    {calls : List (Board.Call K DataStoreEntry (Subscription K))}
    (hcalls : ∀ c ∈ calls, c.watcher.conn ≠ conn) :
    ((⟨conn, reply, true⟩ :: calls.flatMap deliver).filter fun w => w.via = conn).flatMap
      Write.bytes = reply := by
  have hdelivered : (calls.flatMap deliver).filter (fun w => w.via = conn) = [] := by
    apply List.filter_eq_nil_iff.mpr
    intro w hw hvia
    obtain ⟨c, hc, hw⟩ := List.mem_flatMap.mp hw
    apply hcalls c hc
    rw [← (deliver_via hw).1]
    exact of_decide_eq_true hvia
  rw [List.filter_cons, if_pos (decide_eq_true rfl), hdelivered]
  exact List.append_nil reply

omit [KeyType K] in
theorem heapCopy_ne {conn : ClientConnection} (howned : conn.copy = none) (n : Nat) :
    heapCopy conn n ≠ conn := by
  intro heq
  have hcopy := congrArg ClientConnection.copy heq
  rw [howned] at hcopy
  cases hcopy

variable [DecidableEq K] {b b' : Broker K} {ls : List (Broker.Label K)}

/-- A subscription stays until its client is removed. -/
theorem watcher_stays {w : Subscription K} (h : Run (Broker.Step target) b ls b')
    (hls : ∀ l ∈ ls, l.event ≠ .remove w.conn.id) (hw : w ∈ b.board.watchers) :
    w ∈ b'.board.watchers := by
  refine h.invariant_of (L := fun l => l.event ≠ .remove w.conn.id)
    (I := fun b => w ∈ b.board.watchers) (fun b l b' hl hstep hw => ?_) hls hw
  cases hstep with
  | publish _ _ _ hstep =>
      obtain ⟨-, rfl⟩ := hstep.inv
      exact hw
  | subscribe _ _ _ _ hstep =>
      obtain ⟨-, rfl⟩ := hstep.inv
      exact List.mem_append_left _ hw
  | reject | other => exact hw
  | @remove clientId _ hstep =>
      obtain ⟨-, rfl⟩ := hstep.inv
      refine List.mem_filter.mpr ⟨hw, ?_⟩
      have hne : ¬ w.conn.id = clientId := fun heq => hl (by rw [heq])
      rw [Subscription.isOf, decide_eq_false hne]
      rfl

end

/-- What a SUBSCRIBE with the given filters is to do between two states. -/
structure TakesEffect {K W : Type} [DecidableEq K] [KeyType K] [ReliableNetwork W]
    (target : Target) (s₁ : ServerState K W) (conn : ClientConnection) (packetId : UInt16)
    (filters : List Filter) (s₂ : ServerState K W) : Prop where
  /-- The client gets a SUBACK with one return code for each filter. -/
  acknowledged : ∃ now codes, s₂.machine.written = s₁.machine.written ++ now ∧
    codes.length = filters.length ∧
    (now.filter fun w => w.via = conn).flatMap Write.bytes = subackFrame packetId codes
  /-- What is retained and matches one of the filters is delivered. -/
  retained : ∀ topic (key : K) entry, KeyType.encodeKey target topic topic.length = .ok key →
    s₁.store.get key = some entry → (∃ f ∈ filters, f.Matches topic) →
    ∃ now, s₂.machine.written = s₁.machine.written ++ now ∧
      DeliversTopic target conn topic key entry now
  /-- A later PUBLISH that matches one of the filters is delivered, unless the
  client was removed. -/
  published : ∀ events statuses (s₃ : ServerState K W) (a : Arrival) order topic packetId payload
      status (s₄ : ServerState K W),
    processAll target s₂ events = .ok (statuses, s₃) → .remove conn.id ∉ events →
    a.msg = .publish topic packetId payload → (∃ f ∈ filters, f.Matches topic) →
    (Event.packet a order).process target s₃ = .ok (status, s₄) →
    ∃ (key : K) (now : List Write), KeyType.encodeKey target topic topic.length = .ok key ∧
      s₄.machine.written = s₃.machine.written ++ now ∧
      DeliversTopic target conn topic key (a.entry payload) now

/-- **The filters of a SUBSCRIBE.**  After any run, a SUBSCRIBE without `+` that is
answered `Ok` takes effect exactly if it has one filter. -/
theorem subscribe_takes_effect_iff {K W : Type} [DecidableEq K] [KeyType K] [LawfulKeyType K]
    [ReliableNetwork W] {target : Target} {net : W} (hnet : ∀ socket, input socket net = [])
    {before : List (Event K)} {statuses : List (Option Status)} {s₁ s₂ : ServerState K W}
    (hbefore : processAll target (.initial K net) before = .ok (statuses, s₁))
    {a : Arrival} {order : IterationOrder K} {packetId : UInt16} {filters : List Filter}
    (hmsg : a.msg = .subscribe packetId filters) (hplus : ∀ f ∈ filters, plus ∉ f.topic)
    (hok : (Event.packet a order).process target s₁ = .ok (some .ok, s₂)) :
    TakesEffect target s₁ a.conn packetId filters s₂ ↔ filters.length = 1 := by
  obtain ⟨_, b₁, -, -, -, -, h₁⟩ := (simulates_initial hnet).processAll hbefore
  obtain ⟨l, b₂, hstep, hevent, -, hwrites, h₂⟩ := (h₁.process target _).1 _ _ hok
  have hwf : (Message.subscribe packetId filters).WellFormed := hmsg ▸ a.wellFormed
  obtain ⟨filters, f, rfl⟩ : ∃ init f, filters = init ++ [f] :=
    ⟨_, _, (List.dropLast_append_getLast hwf.1).symm⟩
  obtain ⟨key, calls, hkey, -, hreplies, hcalls, hwatch, -⟩ :=
    hstep.subscribed hevent hmsg hplus
  obtain ⟨hwatching, htold, hwatcher⟩ := hwatch.tells_watcher
  -- on the client's own connection there is the SUBACK with one code
  have hdirect : (l.writes.filter fun w => w.via = a.conn).flatMap Write.bytes =
      subackFrame packetId [0] := by
    rw [Broker.Label.writes, hreplies, hcalls, List.singleton_append]
    refine bytes_direct fun c hc => ?_
    rw [hwatcher c hc]
    exact heapCopy_ne a.owned _
  constructor
  · rintro ⟨⟨now, codes, hnow, hlength, hbytes⟩, -, -⟩
    obtain rfl : now = l.writes := List.append_cancel_left (hnow.symm.trans hwrites)
    rw [hdirect] at hbytes
    -- the remaining lengths of the two frames are the same
    obtain ⟨hsize, -⟩ := VarInt.encode_append_inj (List.cons.inj hbytes).2
    simp only [Message.body, List.length_append, List.length_singleton] at hsize
    omega
  · intro hone
    obtain rfl : filters = [] := by
      rw [List.length_append, List.length_singleton] at hone
      exact List.length_eq_zero_iff.mp (by omega)
    have hmatcher : ∀ {topic : List UInt8} {key' : K},
        (∃ g ∈ [] ++ [f], Filter.Matches g topic) →
        KeyType.encodeKey target topic topic.length = .ok key' →
        filterMatcher f.topic key key' = true := by
      rintro topic key' ⟨g, hg, hmatches⟩ hkey'
      obtain rfl : g = f := by simpa using hg
      exact matcher_of_matches hmatches hkey hkey'
    refine ⟨⟨l.writes, [0], hwrites, rfl, hdirect⟩, ?_, ?_⟩
    · intro topic key' entry hkey' hget hmatches
      refine ⟨l.writes, hwrites, ?_⟩
      have hvalue : b₁.board.value key' = some entry :=
        (h₁.represents.entries key').symm.trans hget
      rw [Broker.Label.writes, hcalls]
      exact (delivers_of_mem (htold key' entry hvalue) (hmatcher hmatches hkey')
        (h₁.wellFormed.deliverable key' entry hvalue)).topic hkey'
    · intro events statuses' s₃ a' order' topic packetId' payload status s₄ hevents hremove
        hmsg' hmatches hprocess
      obtain ⟨ls, b₃, hrun, hmap, -, -, h₃⟩ := h₂.processAll hevents
      obtain ⟨l', b₄, hstep', hevent', -, hwrites', h₄⟩ :=
        (h₃.process target _).1 _ _ hprocess
      obtain ⟨key', calls', hkey', -, -, hcalls', hset, -⟩ := hstep'.published hevent' hmsg'
      refine ⟨key', l'.writes, hkey', hwrites', ?_⟩
      have hnotRemoved : ∀ l ∈ ls, l.event ≠ .remove a.conn.id := by
        intro l hl heq
        apply hremove
        rw [← hmap, ← heq]
        exact List.mem_map_of_mem hl
      have hstays := watcher_stays hrun hnotRemoved hwatching
      obtain ⟨hvalue, htold'⟩ := hset.tells_all
      rw [Broker.Label.writes, hcalls']
      exact (delivers_of_mem (htold' _ hstays) (hmatcher hmatches hkey')
        (h₄.wellFormed.deliverable key' _ hvalue)).topic hkey'

theorem subscribe_takes_effect_iff_a :
    ∃ s₂ : ServerState StdString Wire,
      (Event.packet subscribeToA (.asKept StdString)).process {} (.initial StdString {}) =
        .ok (some .ok, s₂) ∧
      TakesEffect {} (.initial StdString {}) subscribeToA.conn 1 [⟨[0x61], 0⟩] s₂ := by
  obtain ⟨status, s₂, hok, rfl⟩ := exists_ok_of_map
    (t := (Event.packet subscribeToA (.asKept StdString)).process {}
      (.initial StdString ({} : Wire)))
    (g := fun r => r.1) (c := some .ok) (by decide +kernel)
  refine ⟨s₂, hok, ?_⟩
  have hnet : ∀ socket, input socket ({} : Wire) = [] := fun _ => rfl
  have hbefore : processAll {} (.initial StdString ({} : Wire)) [] =
      .ok ([], .initial StdString {}) := rfl
  exact (subscribe_takes_effect_iff hnet hbefore rfl (by decide) hok).mpr rfl

/-! ### Two filters -/

/-- The client 7 subscribes to `a` and to `b` with one SUBSCRIBE. -/
def subscribeToAB : Arrival :=
  subscribeAs7 1 [⟨[0x61], 0⟩, ⟨[0x62], 0⟩] (by decide) (by decide)

/-- The SUBSCRIBE with two filters is answered with one return code, and what is
published to the first of them afterwards is not delivered. -/
theorem two_filters_one_observer :
    ∃ s₂ s₃ : ServerState StdString Wire,
      (Event.packet subscribeToAB (.asKept StdString)).process {} (.initial StdString {}) =
        .ok (some .ok, s₂) ∧
      s₂.machine.written = [⟨subscribeToAB.conn, [0x90, 3, 0, 1, 0], true⟩] ∧
      (publishAs8 0x30 [0x61] [0x68, 0x69] rfl (by decide) (by decide)).process {} s₂ =
        .ok (some .ok, s₃) ∧
      s₃.machine.written = s₂.machine.written ∧
      ¬ TakesEffect {} (.initial StdString {}) subscribeToAB.conn 1
        [⟨[0x61], 0⟩, ⟨[0x62], 0⟩] s₂ := by
  have conversation :
      ((do
        let (status₂, s₂) ← (Event.packet subscribeToAB (.asKept StdString)).process {}
          (.initial StdString ({} : Wire))
        let (status₃, s₃) ←
          (publishAs8 0x30 [0x61] [0x68, 0x69] rfl (by decide) (by decide)).process {} s₂
        return (status₂, status₃,
          decide (s₂.machine.written = [⟨subscribeToAB.conn, [0x90, 3, 0, 1, 0], true⟩] ∧
            s₃.machine.written = s₂.machine.written))) : Except Fault _) =
        .ok (some .ok, some .ok, true) := by
    decide +kernel
  obtain ⟨status₂, s₂, h₂, h⟩ := exists_ok_of_bind conversation
  obtain ⟨status₃, s₃, h₃, h⟩ := exists_ok_of_bind h
  simp only [pure, Except.pure, Except.ok.injEq, Prod.mk.injEq, decide_eq_true_eq] at h
  obtain ⟨rfl, rfl, hack, hquiet⟩ := h
  refine ⟨s₂, s₃, h₂, hack, h₃, hquiet, ?_⟩
  rintro ⟨⟨now, codes, hnow, hlength, hbytes⟩, -, -⟩
  -- nothing was written before, so the SUBACK is all there is
  obtain rfl : now = [⟨subscribeToAB.conn, [0x90, 3, 0, 1, 0], true⟩] := by
    rw [hack] at hnow
    exact hnow.symm
  have hsize := congrArg List.length hbytes
  rw [subackFrame, framed, List.length_cons, List.length_append] at hsize
  simp only [Message.body, List.length_append, wireBytes, List.length_cons, List.length_nil,
    hlength, VarInt.encode_of_lt (show 0 + 1 + 1 + (0 + 1 + 1) < 128 by decide)] at hsize
  exact absurd hsize (by decide)

end Gnat
