/-
Gnat/Bounds.lean

Why `DecodeKey` and `Publish::SendOn` stay within their arrays.

Neither checks a length.  What protects them is an invariant of the whole server:
the keys in the store were made from topics that `ReadString` accepted, and these
have at most 128 bytes (`run_keysDecode`).  So an observer, which only ever sees
keys of the store, decodes them into the topic buffer; and a topic of that size
leaves the 8-bit cursor of `SendOn` far from its end.

`StaysInBounds` says that no store goes outside an array and that the assertion
of `SendOn` holds.  All readers and encoders have it anyway, the handlers where
the keys of the store do.
-/
import Gnat.Connecting
import Gnat.Disconnect
import Gnat.KeyLaws

namespace Gnat

open Lib Prog

variable {W : Type} [Network W]

/-- A store outside an array, or an assertion that warns of it. -/
def Fault.Overruns (e : Fault) : Prop :=
  e = .outOfBounds ∨ e = .publishBufferAssert

instance (e : Fault) : Decidable e.Overruns := by
  unfold Fault.Overruns; infer_instance

/-- The program never goes outside an array. -/
abbrev StaysInBounds {α : Type} (x : ServerM W α) : Prop :=
  StopsOnly x fun e => ¬ e.Overruns

/-! ### Readers -/

section

variable {E : Fault → Prop}

/-- The only fault of a read is the assertion of `Packet::Read`. -/
theorem stops_client_read (hE : E .packetReadAssert) (p : Packet) (size : Nat) :
    StopsOnly (Client.read p size : ServerM W _) E := by
  have hread : StopsOnly (p.connection.read size : ServerM W _) E := fun _ => trivial
  show StopsOnly (p.read size) E
  unfold Packet.read
  refine (stopsOnly_check hE).bind fun _ => hread.bind ?_
  rintro (- | bytes) <;> exact stopsOnly_pure

theorem stops_readString (hE : E .packetReadAssert) {size : Nat} (out : StringBuffer size)
    (p : Packet) : StopsOnly (readString out p : ServerM W _) E := by
  apply (stops_client_read hE p 2).bind
  rintro ⟨- | lengthRaw, p₁⟩
  · exact stopsOnly_pure
  refine StopsOnly.ite (fun _ => stopsOnly_pure) fun _ => ?_
  apply (stops_client_read hE p₁ _).bind
  rintro ⟨- | src, p₂⟩ <;> exact stopsOnly_pure

theorem stops_readBytesLoop (hE : E .packetReadAssert) (count : Nat) (out : List UInt8)
    (p : Packet) : StopsOnly (readBytesLoop count out p : ServerM W _) E := by
  induction count generalizing out p with
  | zero => exact stopsOnly_pure
  | succ i ih => exact (stops_client_read hE p 1).bind fun r => ih _ r.2

theorem stops_readUInt8 (hE : E .packetReadAssert) (out : UInt8) (p : Packet) :
    StopsOnly (readUInt8 out p : ServerM W _) E :=
  ((stops_readBytesLoop hE 1 _ p).bind fun _ => stopsOnly_pure).bind fun _ => stopsOnly_pure

theorem stops_readUInt16 (hE : E .packetReadAssert) (out : UInt16) (p : Packet) :
    StopsOnly (readUInt16 out p : ServerM W _) E :=
  ((stops_readBytesLoop hE 2 _ p).bind fun _ => stopsOnly_pure).bind fun _ => stopsOnly_pure

end

/-- The assertion of `Packet::Read` is none of the two. -/
theorem not_overruns_read : ¬ Fault.packetReadAssert.Overruns := by decide

theorem Connect.stays_readFrom (target : Target) (p : Packet) :
    StaysInBounds (Connect.readFrom target p : ServerM W _) := by
  apply (stops_readString not_overruns_read _ p).bind
  rintro ⟨- | -, name, p₁⟩
  · exact stopsOnly_pure
  apply (stops_readUInt8 not_overruns_read _ p₁).bind
  rintro ⟨- | -, level, p₂⟩
  · exact stopsOnly_pure
  apply (stops_readUInt8 not_overruns_read _ p₂).bind
  rintro ⟨- | -, flags, p₃⟩
  · exact stopsOnly_pure
  apply (stops_readUInt16 not_overruns_read _ p₃).bind
  rintro ⟨- | -, keepAlive, p₄⟩ <;> exact stopsOnly_pure

theorem Publish.stays_readFrom (p : Packet) (flags : UInt8) :
    StaysInBounds (Publish.readFrom p flags : ServerM W _) := by
  apply (stops_readString not_overruns_read _ p).bind
  rintro ⟨- | -, topic, p₁⟩
  · exact stopsOnly_pure
  refine StopsOnly.ite (fun _ => StopsOnly.ite (fun _ => ?_) fun _ => stopsOnly_pure)
    fun _ => stopsOnly_pure
  apply (stops_readUInt16 not_overruns_read _ p₁).bind
  rintro ⟨- | -, id, p₂⟩ <;> exact stopsOnly_pure

section

variable {γ : Type} {callback : γ → List UInt8 → ServerM W (Bool × γ)}

theorem Subscribe.stays_readTopics (hcb : ∀ captured topic, StaysInBounds (callback captured topic))
    (fuel : Nat) (topic : StringBuffer 128) (captured : γ) (p : Packet) :
    StaysInBounds (readTopics callback fuel topic captured p) := by
  induction fuel generalizing topic captured p with
  | zero =>
      rw [readTopics]
      exact StopsOnly.ite (fun _ => stopsOnly_throw (by decide)) fun _ => stopsOnly_pure
  | succ fuel ih =>
      rw [readTopics]
      refine StopsOnly.ite (fun _ => ?_) fun _ => stopsOnly_pure
      apply (stops_readString not_overruns_read topic p).bind
      rintro ⟨- | -, topic₁, p₁⟩
      · exact stopsOnly_pure
      apply (hcb captured topic₁.bytes).bind
      rintro ⟨- | -, captured₂⟩
      · exact stopsOnly_pure
      apply (stops_readUInt8 not_overruns_read _ p₁).bind
      rintro ⟨- | -, flags, p₃⟩
      · exact stopsOnly_pure
      · exact ih topic₁ captured₂ p₃

theorem Subscribe.stays_readFrom (hcb : ∀ captured topic, StaysInBounds (callback captured topic))
    (captured : γ) (p : Packet) : StaysInBounds (readFrom callback captured p) := by
  apply (stops_readUInt16 not_overruns_read _ p).bind
  rintro ⟨- | -, packetId, p₁⟩
  · exact stopsOnly_pure
  apply (stays_readTopics hcb _ _ captured p₁).bind
  rintro ⟨- | -, captured₂, p₂⟩ <;> exact stopsOnly_pure

end

/-! ### Keys that decode -/

section

variable {K : Type} [KeyType K]

/-- `DecodeKey` writes within a topic buffer. -/
def Decodes (key : K) : Prop :=
  ∃ topic, KeyType.decodeKey key (.empty 128) = .ok topic ∧ topic.length ≤ 128

/-- Every key in the store decodes. -/
def KeysDecode [DecidableEq K] (store : Store K W) : Prop :=
  ∀ key ∈ store.entries, Decodes key

theorem stays_topicCallback (target : Target) (conn : ClientConnection)
    (captured : Captured K W) (topic : List UInt8) :
    StaysInBounds (topicCallback target conn captured topic) := by
  have hcopy : StaysInBounds (conn.createHeapCopy : ServerM W _) := fun _ => trivial
  refine hcopy.bind fun connectionHeap => ?_
  refine StopsOnly.ite (fun _ => stopsOnly_pure) fun _ => ?_
  refine (stopsOnly_ofExcept fun e he => ?_).bind fun _ => stopsOnly_pure
  rw [KeyType.encodeKey_fault he]
  decide

/-- A topic that fits is sent within the buffer. -/
theorem Publish.stays_sendOn {publish : Publish} {payload : List UInt8}
    (htopic : publish.topic.length ≤ 128) (hpayload : payload.length = publish.payloadBytes)
    (conn : ClientConnection) :
    StaysInBounds (publish.sendOn conn payload : ServerM W Bool) := by
  have hpartial : StaysInBounds (conn.writePartial publish.sentHeader : ServerM W Bool) :=
    fun _ => trivial
  have hwrite : StaysInBounds (conn.write payload : ServerM W Bool) := fun _ => trivial
  rw [sendOn_eq htopic hpayload]
  exact hpartial.bind fun _ => StopsOnly.ite (fun _ => hwrite) fun _ => stopsOnly_pure

theorem stays_observer {key : K} (hkey : Decodes key) (matcher : K → Bool)
    (conn : ClientConnection) (entry : DataStoreEntry) :
    StaysInBounds (observer matcher conn key entry : ServerM W Bool) := by
  obtain ⟨topic, hdecode, hlength⟩ := hkey
  refine StopsOnly.ite (fun _ => ?_) fun _ => stopsOnly_pure
  rw [hdecode]
  have htopic : StaysInBounds (Prog.ofExcept (.ok topic) : ServerM W _) := fun _ => trivial
  refine htopic.bind_of (P := (· = topic)) (fun _ => rfl) ?_
  rintro _ rfl
  refine (Publish.stays_sendOn hlength entry.data_length conn).bind ?_
  rintro (- | -) <;> exact stopsOnly_pure

variable [DecidableEq K]

theorem stays_set {store : Store K W} {subs : List (Subscription K)} (hs : ServedBy store subs)
    {key : K} (hkey : Decodes key) (entry : DataStoreEntry) :
    StaysInBounds (store.set key entry) := by
  rw [DataStore.set_eq, hs]
  refine (StopsOnly.forM fun o ho => ?_).bind fun _ => stopsOnly_pure
  obtain ⟨s, -, rfl⟩ := List.mem_map.mp ho
  exact (stays_observer hkey s.matcher s.conn entry).bind fun _ => stopsOnly_pure

omit [Network W] in
theorem KeysDecode.of_visit {store : Store K W} (hkeys : KeysDecode store)
    (order : IterationOrder K) : ∀ e ∈ order.visit store.entries, Decodes e.1 := by
  intro e he
  have hmem : e ∈ store.entries.entries := (order.visit_perm store.entries).mem_iff.mp he
  exact hkeys e.1 (AList.mem_keys.mp (List.mem_map_of_mem hmem))

theorem stays_addObserver {store : Store K W} (hkeys : KeysDecode store)
    (order : IterationOrder K) (s : Subscription K) :
    StaysInBounds (store.addObserver order s.entry) := by
  unfold DataStore.addObserver
  refine (StopsOnly.forM fun e he => ?_).bind fun _ => stopsOnly_pure
  exact (stays_observer (hkeys.of_visit order e he) s.matcher s.conn e.2).bind fun _ =>
    stopsOnly_pure

/-! ### The handlers -/

section

variable {env : Env K} {store : Store K W} {p : Packet}

omit [DecidableEq K] [KeyType K] in
theorem stays_write (conn : ClientConnection) (bytes : List UInt8) :
    StaysInBounds (conn.write bytes : ServerM W Bool) := fun _ => trivial

omit [DecidableEq K] [KeyType K] in
theorem stays_handleConnect (target : Target) (p : Packet) :
    StaysInBounds (handleConnect target p : ServerM W _) := by
  apply (Connect.stays_readFrom target p).bind
  rintro ⟨connect, p₁⟩
  refine (stopsOnly_ofExcept fun e he => ?_).bind fun level => ?_
  · cases connect with
    | some connect => cases he
    | none =>
        rw [protocolLevelOf] at he
        split at he
        · cases he
          decide
        · cases he
  · refine StopsOnly.bind ?_ ?_
    · rw [ConnectAck.sendOn_eq]
      exact stays_write _ _
    · rintro (- | -) <;> exact stopsOnly_pure

omit [DecidableEq K] in
/-- The key of a topic that was read decodes. -/
theorem decodes_of_read [LawfulKeyType K] {target : Target} {topic : StringBuffer 128}
    (hlength : topic.length ≤ 128) {key : K}
    (hkey : KeyType.encodeKey target topic.bytes topic.length = .ok key) : Decodes key := by
  rw [← StringBuffer.length_bytes hlength] at hkey
  exact LawfulKeyType.decodes (by rwa [StringBuffer.length_bytes hlength]) hkey

theorem stays_handlePublish [LawfulKeyType K] (hs : Served store) :
    StaysInBounds (handlePublish env store p) := by
  obtain ⟨subs, hs⟩ := hs
  apply (Publish.stays_readFrom p p.typeFlags).bind_of (P := fun r =>
    ∀ publish, r.1 = some publish → publish.topic.length ≤ 128)
  · intro m
    exact wp_imp (Publish.readFrom_reads p p.typeFlags m) fun r _ h publish hr =>
      (h.2 publish hr).1
  rintro ⟨- | publish, p₁⟩ htopic
  · exact stopsOnly_pure
  apply (stops_client_read not_overruns_read p₁ publish.payloadBytes).bind
  rintro ⟨- | data, p₂⟩
  · exact stopsOnly_pure
  -- the key the observers get is that of the topic that was read
  apply StopsOnly.bind_of (P := fun key =>
    KeyType.encodeKey env.target publish.topic.bytes publish.topic.length = .ok key)
  · refine stopsOnly_ofExcept fun e he => ?_
    rw [KeyType.encodeKey_fault he]
    decide
  · intro m
    rw [wp_ofExcept]
    split
    · assumption
    · trivial
  · intro key hkey
    exact (stays_set hs (decodes_of_read (htopic publish rfl) hkey) _).bind fun _ =>
      stopsOnly_pure

omit [DecidableEq K] [KeyType K] in
/-- The acknowledgement with one response is sent within the buffer. -/
theorem stays_subscribeAck (packetId : UInt16) (conn : ClientConnection) :
    StaysInBounds (SubscribeAck.sendOn
      { subscribePacketId := packetId, responsesCount := 1 } conn : ServerM W Bool) := by
  obtain ⟨c, size, hc, -⟩ := SubscribeAck.frame_sent
    { subscribePacketId := packetId, responsesCount := 1 } (List.Vector.replicate 32 0)
    (show (1 : UInt8).toNat ≤ 28 by decide)
  rw [SubscribeAck.sendOn, hc]
  exact stays_write _ _

theorem stays_handleSubscribe (hkeys : KeysDecode store) :
    StaysInBounds (handleSubscribe env store p) := by
  apply (Subscribe.stays_readFrom (stays_topicCallback env.target p.connection) none p).bind_of
    (P := fun r => CapturesSubscription env.target p.connection r.2.1 ∧
      r.2.2.connection = p.connection)
  · intro m
    exact wp_imp (Subscribe.readFrom_reads (topicCallback_quiet env.target p.connection)
      none p m (by rintro _ ⟨⟩)) fun r _ h => ⟨h.1, h.2.sameOutput.connection⟩
  rintro ⟨- | subscribe, captured, p₁⟩ ⟨hcaptured, hconnection⟩
  · exact stopsOnly_pure
  apply (stays_subscribeAck subscribe.packetId p₁.connection).bind
  rintro (- | -)
  · exact stopsOnly_pure
  -- without a filter that was accepted there is no observer
  rcases captured with - | handler
  · exact stopsOnly_pure
  obtain ⟨filter, key, n, -, -, rfl⟩ := hcaptured handler rfl
  have hconnection : p₁.connection = p.connection := hconnection
  rw [if_pos rfl, hconnection]
  exact (stays_addObserver hkeys env.order (subscriptionTo p.connection filter key n)).bind
    fun _ => stopsOnly_pure

/-- **No packet takes `HandleMessage` outside an array**, where the observers are
those of subscriptions and the keys decode. -/
theorem stays_handleMessage [LawfulKeyType K] (env : Env K) (p : Packet)
    (hs : Served store) (hkeys : KeysDecode store) :
    StaysInBounds (handleMessage env store p) := by
  unfold handleMessage
  split
  · exact (stays_handleConnect env.target p).bind fun _ => stopsOnly_pure
  · exact stays_handlePublish hs
  · exact stays_handleSubscribe hkeys
  · refine (stays_write _ _).bind ?_
    rintro (- | -) <;> exact stopsOnly_pure
  · have hclose : StaysInBounds (p.connection.close : ServerM W Unit) := fun _ => trivial
    exact hclose.bind fun _ => stopsOnly_pure
  · exact stopsOnly_pure

end

/-! ### The invariant -/

section

variable [LawfulKeyType K] {target : Target} {s s' : ServerState K W} {l : Label}
variable {ls : List Label}

omit [Network W] [LawfulKeyType K] in
theorem KeysDecode.stored {store : Store K W} (hkeys : KeysDecode store) {key : K}
    (hkey : Decodes key) (entry : DataStoreEntry) :
    KeysDecode { store with entries := DataStore.stored store.entries key entry } := by
  intro key' hkey'
  rcases eq_or_ne key' key with rfl | hne
  · exact hkey
  · have hmem : key' ∈ store.entries := by
      have hlookup : (DataStore.stored store.entries key entry).lookup key' =
          store.entries.lookup key' := DataStore.lookup_stored_of_ne hne
      rw [← AList.lookup_isSome, ← hlookup]
      exact AList.lookup_isSome.mpr hkey'
    exact hkeys key' hmem

/-- A step adds at most the key of a topic that was read. -/
theorem Step.keysDecode (h : Step target s l s') (hkeys : KeysDecode s.store) :
    KeysDecode s'.store := by
  cases h with
  | handle _ _ hok =>
      cases handled_of_ok hok with
      | failed | replied | closed => exact hkeys
      | published _ _ hlength hkey _ hset =>
          rw [(set_ok hset).1]
          exact hkeys.stored (decodes_of_read hlength hkey) _
      | subscribed _ _ _ _ _ hadd =>
          rw [(addObserver_ok hadd).1]
          exact hkeys
  | remove | network => exact hkeys

theorem run_keysDecode (h : Run (Step target) s ls s') (hkeys : KeysDecode s.store) :
    KeysDecode s'.store :=
  h.invariant (I := fun t => KeysDecode t.store) (fun _ _ _ => Step.keysDecode) hkeys

end

omit [Network W] in
theorem keysDecode_initial (net : W) :
    KeysDecode (ServerState.initial K net).store := fun key hkey =>
  absurd hkey (AList.notMem_empty key)

end

/-! ### String keys -/

theorem decodes_string_iff (key : StdString) : Decodes key ↔ key.bytes.length ≤ 128 := by
  constructor
  · rintro ⟨topic, hdecode, -⟩
    by_contra hlong
    have hfault : KeyType.decodeKey key (.empty 128) = .error .outOfBounds :=
      if_pos (Nat.lt_of_not_le hlong)
    cases hfault.symm.trans hdecode
  · intro hlength
    obtain ⟨topic, hdecode, -, hsize⟩ := decodeKey_string hlength
    exact ⟨topic, hdecode, hsize ▸ hlength⟩

/-- What becomes of a key in an observer, for whatever payload: `DecodeKey` copies
it, at most 128 bytes, and the header of the PUBLISH holds the remaining length in at
most five bytes, the length of the key in one byte and the key.  It ends within the
buffer. -/
structure SentWithin (key : StdString) : Prop where
  size : key.bytes.length ≤ 128
  decoded : ∃ topic, KeyType.decodeKey key (.empty 128) = .ok topic ∧
    topic.bytes = key.bytes ∧ topic.length = key.bytes.length
  sent : ∀ topic payloadBytes buffer, KeyType.decodeKey key (.empty 128) = .ok topic →
    ∃ c digits, Publish.header ⟨topic, payloadBytes⟩ buffer = some c ∧
      digits = lengthDigits (Publish.remainingLength ⟨topic, payloadBytes⟩) ∧
      digits.length ≤ 5 ∧
      c.sent = 0x30 :: (digits ++ 0 :: UInt8.ofNat topic.length :: key.bytes) ∧
      (UInt8.ofNat topic.length).toNat = key.bytes.length ∧
      c.current = c.sent.length ∧ c.current ≤ 136

theorem sentWithin_of_length {key : StdString} (h : key.bytes.length ≤ 128) :
    SentWithin key := by
  obtain ⟨topic, hdecode, hbytes, hsize⟩ := decodeKey_string h
  refine ⟨h, ⟨topic, hdecode, hbytes, hsize⟩, ?_⟩
  intro topic' payloadBytes buffer hdecode'
  obtain rfl : topic = topic' := Except.ok.inj (hdecode.symm.trans hdecode')
  obtain ⟨c, hc, hholds⟩ :=
    Publish.header_sent ⟨topic, payloadBytes⟩ buffer (hsize.trans_le h)
  have hroom : (Publish.sentHeader ⟨topic, payloadBytes⟩).length ≤ 136 :=
    Publish.length_sentHeader_le (hsize.trans_le h)
  refine ⟨c, _, hc, rfl, ?_, ?_, ?_, ?_, ?_⟩
  · exact length_lengthDigits_le (Publish.remainingLength_lt ⟨topic, payloadBytes⟩)
  · rw [hholds.sent_eq, Publish.sentHeader, hbytes]
  · rw [VarInt.toNat_ofNat_of_lt (by omega), hsize]
  · rw [hholds.sent_eq]
    exact hholds.current_eq
  · rw [hholds.current_eq]
    exact hroom

/-- **The bound on topics**: in every state a server with string keys can reach,
whatever the network does and whatever arrives, every key in the store is one that
observers send within their buffers, and no call of `HandleMessage` on any packet
goes outside an array. -/
theorem topics_bounded {target : Target} {net : W} {ls : List Label}
    {s : ServerState StdString W} (h : Run (Step target) (.initial StdString net) ls s) :
    (∀ key ∈ s.store.entries, SentWithin key) ∧
      ∀ (env : Env StdString) (p : Packet) (e : Fault),
        handleMessage env s.store p s.machine = .error e → ¬ e.Overruns := by
  have hkeys := run_keysDecode h (keysDecode_initial net)
  have hserved := run_served h (served_initial net)
  constructor
  · intro key hkey
    exact sentWithin_of_length ((decodes_string_iff key).mp (hkeys key hkey))
  · intro env p e herror
    have hstays := stays_handleMessage env p hserved hkeys s.machine
    rwa [wp, herror] at hstays

/-- The client 7 subscribes to `a`, and the client 8 publishes to it. -/
theorem topics_bounded_conversation :
    ∃ s : ServerState StdString Wire,
      Run (Step {}) (.initial StdString conversationWire)
        [.handled subscribeA .ok, .handled publishHi .ok] s ∧
      s.store.entries.keys = [⟨[0x61]⟩] ∧
      (∀ key ∈ s.store.entries, SentWithin key) ∧
      ∀ (env : Env StdString) (p : Packet) (e : Fault),
        handleMessage env s.store p s.machine = .error e → ¬ e.Overruns := by
  obtain ⟨ls, s, h, hview⟩ := exists_ok_of_map
    (t := play (.initial StdString conversationWire)
      [handlePlain subscribeA rfl, handlePlain publishHi rfl])
    (g := fun r => (r.1, r.2.store.entries.keys))
    (c := ([.handled subscribeA .ok, .handled publishHi .ok], [⟨[0x61]⟩])) (by decide +kernel)
  obtain ⟨rfl, hkeys⟩ := Prod.mk.inj hview
  have hbounded := topics_bounded (play_run h)
  exact ⟨s, play_run h, hkeys, hbounded.1, hbounded.2⟩

end Gnat
