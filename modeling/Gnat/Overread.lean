/-
Gnat/Overread.lean

When `DecodeKey` reads behind a key.

For a `DataStore<uint64_t>` it runs `strlen` on the eight bytes of the key.  A key
none of whose bytes is 0 has no end there, and the result does not depend on what
is behind it, but a build that stops at reads outside an object stops.  The keys of
that build are `CheckedKey`s.

A key that overreads decodes to eight characters (`overreads_iff`), and it is decoded
where an observer matches it: for a PUBLISH of its topic that somebody subscribed to,
or for a SUBSCRIBE that matches what is retained under it.  `overread_iff` says that
`HandleMessage` stops there and that it goes outside of no array otherwise.
-/
import Gnat.Bounds
import Gnat.Codec

namespace Gnat

open Lib Prog

/-! ### Keys without an end -/

namespace Key

/-- A key overreads if it decodes to eight characters. -/
theorem overreads_iff (key : UInt64) : Overreads key ↔ decodedSize key = 8 := by
  rw [decodedSize_eq, ← length_memory key]
  constructor
  · intro hnonzero
    congr 1
    rw [List.takeWhile_eq_self_iff]
    intro c hc
    exact decide_eq_true fun hzero => hnonzero (hzero ▸ hc)
  · intro hlength hzero
    have hwhole : (memory key).takeWhile (· ≠ 0) = memory key :=
      (List.takeWhile_prefix _).eq_of_length hlength
    exact of_decide_eq_true (List.takeWhile_eq_self_iff.mp hwhole 0 hzero) rfl

/-- The key of a plain topic overreads if the topic has eight characters. -/
theorem overreads_plain_iff {target : Target} {topic : List UInt8} {key : UInt64}
    (h : Plain topic) (hkey : encodeString target topic topic.length = .ok key) :
    Overreads key ↔ topic.length = 8 := by
  obtain ⟨key', hkey', -, hsize⟩ := decode_encode target h
  obtain rfl : key' = key := Except.ok.inj (hkey'.symm.trans hkey)
  rw [overreads_iff, hsize]

end Key

/-! ### Observers -/

variable {W : Type} [Network W]

/-- A topic that fits is sent, or the connection refuses it. -/
theorem Publish.sendOn_returns {publish : Publish} {payload : List UInt8}
    (htopic : publish.topic.length ≤ 128) (hpayload : payload.length = publish.payloadBytes)
    (conn : ClientConnection) (m : Machine W) :
    ∃ r, (publish.sendOn conn payload : ServerM W Bool) m = .ok r := by
  suffices h : wp (publish.sendOn conn payload) (fun _ _ => True) (fun _ => False) m by
    obtain ⟨a, m', hok, -⟩ := h.exists_ok
    exact ⟨_, hok⟩
  rw [sendOn_eq htopic hpayload, wp_bind, wp_writePartial, wp_ite]
  split <;> trivial

theorem observer_stopsIff (matcher : CheckedKey → Bool) (conn : ClientConnection)
    (key : CheckedKey) (entry : DataStoreEntry) :
    StopsIff (observer matcher conn key entry : ServerM W Bool) .outOfBounds
      (matcher key = true ∧ Key.Overreads key.key) := by
  intro m
  unfold observer
  by_cases hmatcher : matcher key = true
  · rw [if_pos hmatcher]
    by_cases hover : Key.Overreads key.key
    · have hdecode : KeyType.decodeKey key (.empty 128) = .error .outOfBounds := if_pos hover
      rw [hdecode]
      exact ⟨fun _ => rfl, fun h => absurd ⟨hmatcher, hover⟩ h⟩
    · obtain ⟨topic, hdecode, htopic⟩ : ∃ topic,
          KeyType.decodeKey key (.empty 128) = .ok topic ∧ topic.length ≤ 8 :=
        ⟨_, if_neg hover, Key.decodedSize_le key.key⟩
      rw [bind_of_ok (ofExcept_of_ok hdecode)]
      refine ⟨fun h => absurd h.2 hover, fun _ => ?_⟩
      -- the topic fits, so `SendOn` returns
      let publish : Publish := ⟨topic, entry.length⟩
      have htopic : publish.topic.length ≤ 128 := Nat.le_trans htopic (by decide)
      obtain ⟨⟨accepted, m'⟩, hsend⟩ :=
        Publish.sendOn_returns htopic entry.data_length conn m
      rw [bind_of_ok hsend]
      cases accepted <;> exact ⟨_, rfl⟩
  · rw [if_neg hmatcher]
    exact ⟨fun h => absurd h.1 hmatcher, fun _ => ⟨_, rfl⟩⟩

section

variable {store : Store CheckedKey W} {subs : List (Subscription CheckedKey)}

/-- `Set` stops if somebody subscribed to a key that overreads. -/
theorem set_stopsIff (hs : ServedBy store subs) (key : CheckedKey) (entry : DataStoreEntry) :
    StopsIff (store.set key entry) .outOfBounds
      (∃ s ∈ subs, s.matcher key = true ∧ Key.Overreads key.key) := by
  rw [DataStore.set_eq, hs, DataStore.notifyAll, List.forM_map]
  refine (StopsIff.forM fun s => ?_).bind_pure _
  exact (observer_stopsIff s.matcher s.conn key entry).bind_pure _

omit [Network W] in
theorem exists_visit_iff (order : IterationOrder CheckedKey) (P : CheckedKey → Prop) :
    (∃ e ∈ order.visit store.entries, P e.1) ↔ ∃ key ∈ store.entries, P key := by
  constructor
  · rintro ⟨e, he, hP⟩
    have hmem : e ∈ store.entries.entries := (order.visit_perm store.entries).mem_iff.mp he
    exact ⟨e.1, AList.mem_keys.mp (List.mem_map_of_mem hmem), hP⟩
  · rintro ⟨key, hkey, hP⟩
    obtain ⟨e, he, rfl⟩ := List.mem_map.mp (AList.mem_keys.mpr hkey)
    exact ⟨e, (order.visit_perm store.entries).mem_iff.mpr he, hP⟩

/-- `AddObserver` stops if the observer matches retained data whose key overreads. -/
theorem addObserver_stopsIff (order : IterationOrder CheckedKey) (clientId : UInt32)
    (s : Subscription CheckedKey) :
    StopsIff (store.addObserver order ⟨clientId, s.entry.handler⟩) .outOfBounds
      (∃ key ∈ store.entries, s.matcher key = true ∧ Key.Overreads key.key) := by
  rw [← exists_visit_iff order]
  refine (StopsIff.forM fun e => ?_).bind_pure _
  exact (observer_stopsIff s.matcher s.conn e.1 e.2).bind_pure _

end

/-! ### Handlers -/

omit [Network W] in
theorem StaysInBounds.ne_error {α : Type} {x : ServerM W α} {m : Machine W}
    (h : StaysInBounds x) : x m ≠ .error .outOfBounds :=
  StopsOnly.ne_error h (not_not_intro (.inl rfl))

/-- `HandleMessage` gets to decode a key that overreads: that of a PUBLISH, for somebody
who subscribed to it, or one of retained data, for the new observer. -/
inductive OverreadAt (env : Env CheckedKey) (store : Store CheckedKey W)
    (subs : List (Subscription CheckedKey)) (p : Packet) (m : Machine W) : Prop
  | publish {publish : Publish} {data : List.Vector UInt8 publish.payloadBytes}
      {p₁ p₂ : Packet} {m₁ m₂ : Machine W} {key : CheckedKey} {s : Subscription CheckedKey} :
      p.type = .publish →
      Publish.readFrom p p.typeFlags m = .ok ((some publish, p₁), m₁) →
      p₁.read publish.payloadBytes m₁ = .ok ((some data, p₂), m₂) →
      KeyType.encodeKey env.target publish.topic.bytes publish.topic.length = .ok key →
      s ∈ subs → s.matcher key = true → Key.Overreads key.key →
      OverreadAt env store subs p m
  | subscribe {subscribe : Subscribe} {p₁ : Packet} {m₁ m₂ : Machine W} {key : CheckedKey}
      {s : Subscription CheckedKey} :
      p.type = .subscribe →
      Subscribe.readFrom (topicCallback env.target p.connection) none p m =
        .ok ((some subscribe, some s.entry.handler, p₁), m₁) →
      SubscribeAck.sendOn { subscribePacketId := subscribe.packetId, responsesCount := 1 }
        p₁.connection m₁ = .ok (true, m₂) →
      key ∈ store.entries → s.matcher key = true → Key.Overreads key.key →
      OverreadAt env store subs p m

section

variable {env : Env CheckedKey} {store : Store CheckedKey W}
variable {subs : List (Subscription CheckedKey)} {p : Packet} {m : Machine W}

theorem handlePublish_overread_iff (hs : ServedBy store subs) (hp : p.type = .publish) :
    handlePublish env store p m = .error .outOfBounds ↔ OverreadAt env store subs p m := by
  have hread : StaysInBounds (Publish.readFrom p p.typeFlags : ServerM W _) :=
    Publish.stays_readFrom p p.typeFlags
  constructor
  · intro herror
    obtain ⟨⟨- | publish, p₁⟩, m₁, hpublish, herror⟩ := (bind_error_iff hread.ne_error).mp herror
    · cases herror
    have hpayload : StaysInBounds (p₁.read publish.payloadBytes : ServerM W _) :=
      stops_client_read not_overruns_read p₁ publish.payloadBytes
    obtain ⟨⟨- | data, p₂⟩, m₂, hdata, herror⟩ := (bind_error_iff hpayload.ne_error).mp herror
    · cases herror
    rcases hkey : (KeyType.encodeKey env.target publish.topic.bytes publish.topic.length :
        Except Fault CheckedKey) with e | key
    · have herror := (bind_of_error (ofExcept_of_error hkey)).symm.trans herror
      cases KeyType.encodeKey_fault hkey
      cases herror
    · have herror := (bind_of_ok (ofExcept_of_ok hkey)).symm.trans herror
      obtain ⟨s, hmem, hmatcher, hover⟩ :=
        ((set_stopsIff hs key _).bind_pure _).error_iff.mp herror
      exact .publish hp hpublish hdata hkey hmem hmatcher hover
  · intro h
    cases h with
    | publish _ hpublish hdata hkey hmem hmatcher hover =>
        refine (bind_of_ok hpublish).trans ((bind_of_ok hdata).trans ?_)
        refine (bind_of_ok (ofExcept_of_ok hkey)).trans ?_
        exact ((set_stopsIff hs _ _).bind_pure _).error_iff.mpr ⟨_, hmem, hmatcher, hover⟩
    | subscribe hsubscribe => exact absurd (hp.symm.trans hsubscribe) (by decide)

theorem handleSubscribe_overread_iff (hp : p.type = .subscribe) :
    handleSubscribe env store p m = .error .outOfBounds ↔ OverreadAt env store subs p m := by
  have hread : StaysInBounds (Subscribe.readFrom
      (topicCallback (K := CheckedKey) (W := W) env.target p.connection) none p) :=
    Subscribe.stays_readFrom (stays_topicCallback env.target p.connection) none p
  have hcaptures := Subscribe.readFrom_reads (topicCallback_quiet (K := CheckedKey) env.target
    p.connection) none p m (by rintro _ ⟨⟩)
  constructor
  · intro herror
    obtain ⟨⟨- | subscribe, captured, p₁⟩, m₁, hsubscribe, herror⟩ :=
      (bind_error_iff hread.ne_error).mp herror
    · cases herror
    obtain ⟨- | -, m₂, hack, herror⟩ :=
      (bind_error_iff (stays_subscribeAck _ _).ne_error).mp herror
    · cases herror
    rcases captured with - | handler
    · cases herror
    -- the observer that was captured is that of a subscription
    obtain ⟨filter, key, n, -, -, rfl⟩ := (hcaptures.ok hsubscribe).1 handler rfl
    obtain ⟨key', hmem, hmatcher, hover⟩ := ((addObserver_stopsIff env.order _
      (subscriptionTo p.connection filter key n)).bind_pure _).error_iff.mp herror
    exact .subscribe hp hsubscribe hack hmem hmatcher hover
  · intro h
    cases h with
    | publish hpublish => exact absurd (hp.symm.trans hpublish) (by decide)
    | subscribe _ hsubscribe hack hmem hmatcher hover =>
        refine (bind_of_ok hsubscribe).trans ((bind_of_ok hack).trans ?_)
        exact ((addObserver_stopsIff _ _ _).bind_pure _).error_iff.mpr ⟨_, hmem, hmatcher, hover⟩

theorem OverreadAt.type (h : OverreadAt env store subs p m) :
    p.type = .publish ∨ p.type = .subscribe := by
  cases h with
  | publish hp => exact .inl hp
  | subscribe hp => exact .inr hp

theorem handleMessage_overread_iff (hs : ServedBy store subs) :
    handleMessage env store p m = .error .outOfBounds ↔ OverreadAt env store subs p m := by
  by_cases hpublish : p.type = .publish
  · rw [← handlePublish_overread_iff hs hpublish, handleMessage, hpublish]
  by_cases hsubscribe : p.type = .subscribe
  · rw [← handleSubscribe_overread_iff hsubscribe, handleMessage, hsubscribe]
  -- the other packets are handled without a key
  refine iff_of_false (StaysInBounds.ne_error ?_) fun h => h.type.elim hpublish hsubscribe
  unfold handleMessage
  split
  · exact (stays_handleConnect env.target p).bind fun _ => stopsOnly_pure
  · next hp => exact absurd hp hpublish
  · next hp => exact absurd hp hsubscribe
  · refine (stays_write _ _).bind ?_
    rintro (- | -) <;> exact stopsOnly_pure
  · have hclose : StaysInBounds (p.connection.close : ServerM W Unit) := fun _ => trivial
    exact hclose.bind fun _ => stopsOnly_pure
  · exact stopsOnly_pure

end

/-- **The read behind a key.**  In every state a server reaches `HandleMessage` goes
outside an object exactly if it gets to decode a key that overreads.  Of the plain topics
the keys of those with eight characters do. -/
theorem overread_iff {target : Target} {net : W} {ls : List Label}
    {s : ServerState CheckedKey W} (hrun : Run (Step target) (.initial CheckedKey net) ls s)
    (env : Env CheckedKey) (p : Packet) (m : Machine W) :
    (∃ subs, ServedBy s.store subs ∧
      (handleMessage env s.store p m = .error .outOfBounds ↔ OverreadAt env s.store subs p m)) ∧
    ∀ topic (key : CheckedKey), Key.Plain topic →
      KeyType.encodeKey target topic topic.length = .ok key →
      (Key.Overreads key.key ↔ topic.length = 8) := by
  obtain ⟨subs, hs⟩ := run_served hrun (served_initial net)
  refine ⟨⟨subs, hs, handleMessage_overread_iff hs⟩, fun topic key hplain hkey => ?_⟩
  obtain ⟨key', hencode, -⟩ := Key.decode_encode target hplain
  have hmade : KeyType.encodeKey target topic topic.length = .ok (CheckedKey.mk key') :=
    congrArg (Except.map CheckedKey.mk) hencode
  obtain rfl : CheckedKey.mk key' = key := Except.ok.inj (hmade.symm.trans hkey)
  exact Key.overreads_plain_iff hplain hencode

/-- The client 7 subscribes to `temperat` and publishes `!` to it. -/
def temperatWire : Wire :=
  ⟨fun _ => [0, 1, 0, 8, 0x74, 0x65, 0x6D, 0x70, 0x65, 0x72, 0x61, 0x74, 0] ++
    [0, 8, 0x74, 0x65, 0x6D, 0x70, 0x65, 0x72, 0x61, 0x74, 0x21]⟩

/-- The second packet stops a build that stops at reads outside an object. -/
theorem overread_iff_temperat :
    ∃ ls subs, ∃ s : ServerState CheckedKey Wire,
      Run (Step {}) (.initial CheckedKey temperatWire) ls s ∧ ServedBy s.store subs ∧
      OverreadAt ⟨{}, 0, .asKept CheckedKey⟩ s.store subs ⟨0x30, 11, { socket := 1, id := 7 }⟩
        s.machine := by
  obtain ⟨⟨status, p', store'⟩, m', h, -⟩ := exists_ok_of_map
    (t := handleMessage ⟨{}, 0, .asKept CheckedKey⟩ {} ⟨0x82, 13, { socket := 1, id := 7 }⟩
      { net := temperatWire }) (g := fun r => r.1.1) (c := .ok) (by decide +kernel)
  have hrun : Run (Step {}) (.initial CheckedKey temperatWire)
      [.handled ⟨0x82, 13, { socket := 1, id := 7 }⟩ status] ⟨store', m'⟩ :=
    .cons (.handle rfl rfl h) .nil
  have hstops : (handleMessage ⟨{}, 0, .asKept CheckedKey⟩ {}
      ⟨0x82, 13, { socket := 1, id := 7 }⟩ { net := temperatWire } >>= fun r =>
      (handleMessage ⟨{}, 0, .asKept CheckedKey⟩ r.1.2.2 ⟨0x30, 11, { socket := 1, id := 7 }⟩
        r.2).map fun r' => r'.1.1) = .error .outOfBounds := by
    decide +kernel
  rw [h] at hstops
  obtain ⟨⟨subs, hs, hiff⟩, -⟩ := overread_iff hrun ⟨{}, 0, .asKept CheckedKey⟩
    ⟨0x30, 11, { socket := 1, id := 7 }⟩ m'
  exact ⟨_, subs, _, hrun, hs, hiff.mp (error_of_map hstops)⟩

end Gnat
