/-
Gnat/Handled.lean

Everything a call of `HandleMessage` can do, whatever the network does.

`Handled` lists the ways a call that returns can go: it fails while it reads
the packet, it replies on the packet's connection, it closes the connection,
it stores a publication, or it acknowledges a subscription and adds its
observer.  `handleMessage_handled` is the only place where the handlers are
unfolded for arbitrary networks; invariants of the server are case analyses
on `Handled`.
-/
import Gnat.Reads
import Gnat.Server

namespace Gnat

open Lib Prog

variable {W : Type} [Network W] {K : Type} [DecidableEq K] [KeyType K]

/-! ### Subscriptions -/

/-- A subscription that took effect: the filter it was made for, the matcher
of its keys, and the heap copy of the connection its observer owns. -/
structure Subscription (K : Type) where
  filter : List UInt8
  matcher : K → Bool
  conn : ClientConnection
  heap_copy : conn.copy.isSome

/-- The entry of the observer list for a subscription. -/
def Subscription.entry (s : Subscription K) : ObserverEntry K (ServerM W) :=
  ⟨s.conn.id, observer s.matcher s.conn⟩

/-- The heap copy `topic_callback` makes of a connection. -/
def heapCopy (conn : ClientConnection) (n : Nat) : ClientConnection :=
  { conn with copy := some n, connectionType := .unknown }

/-- The subscription to `filter` over the `n`-th heap copy of `conn`. -/
def subscriptionTo (conn : ClientConnection) (filter : List UInt8) (key : K) (n : Nat) :
    Subscription K :=
  ⟨filter, filterMatcher filter key, heapCopy conn n, rfl⟩

/-- The handler in `captured`, if there is one, is the observer of a filter
that `topic_callback` accepts. -/
def CapturesSubscription (target : Target) (conn : ClientConnection)
    (captured : Captured K W) : Prop :=
  ∀ handler, captured = some handler → ∃ filter key n,
    plus ∉ filter ∧
    KeyType.encodeKey target filter (filterKeyBytes filter) = .ok key ∧
    handler = (subscriptionTo conn filter key n).entry.handler

omit [DecidableEq K] in
theorem topicCallback_quiet (target : Target) (conn : ClientConnection) :
    Quiet (topicCallback (K := K) (W := W) target conn)
      (CapturesSubscription target conn) := by
  intro captured topic m hI
  simp only [topicCallback, wp_bind, wp_createHeapCopy, wp_ite, wp_pure, wp_ofExcept]
  split
  · exact ⟨hI, _, rfl⟩
  · next hplus =>
    split
    · next key hkey =>
      refine ⟨?_, _, rfl⟩
      rintro handler ⟨⟩
      exact ⟨topic, key, m.heapCopies, hplus, hkey, rfl⟩
    · trivial

/-! ### The operations of the store -/

omit [Network W] [KeyType K] in
theorem set_ok {store store' : Store K W} {key : K} {entry : DataStoreEntry}
    {m m' : Machine W} (h : store.set key entry m = .ok (store', m')) :
    store' = { store with entries := DataStore.stored store.entries key entry } ∧
      DataStore.notifyAll store.observers key entry m = .ok ((), m') := by
  rw [DataStore.set_eq] at h
  obtain ⟨⟨⟩, m₁, hnotify, h⟩ := bind_ok h
  cases h
  exact ⟨rfl, hnotify⟩

omit [Network W] [DecidableEq K] [KeyType K] in
theorem addObserver_ok {store store' : Store K W} {order : IterationOrder K}
    {observer : ObserverEntry K (ServerM W)} {m m' : Machine W}
    (h : store.addObserver order observer m = .ok (store', m')) :
    store' = { store with observers := store.observers ++ [observer] } ∧
      DataStore.replay observer.handler (order.visit store.entries) m = .ok ((), m') := by
  unfold DataStore.addObserver at h
  obtain ⟨⟨⟩, m₁, hreplay, h⟩ := bind_ok h
  cases h
  exact ⟨rfl, hreplay⟩

/-! ### The outcomes of a call -/

/-- The status of a handler whose last act was to reply. -/
def replyStatus (accepted : Bool) : Status :=
  if accepted then .ok else .failure "Unable to send response."

/-- What a call of `HandleMessage` on the packet `p` may have done when it
returns: status, packet, store and machine after it. -/
inductive Handled (env : Env K) (store : Store K W) (p : Packet) (m : Machine W) :
    Status → Packet → Store K W → Machine W → Prop
  | failed {message : String} {p' : Packet} {m' : Machine W} :
      Reads (p, m) (p', m') → Handled env store p m (.failure message) p' store m'
  | replied {p₁ : Packet} {m₁ m' : Machine W} (type : Option ConnectionType)
      {bytes : List UInt8} {accepted : Bool} :
      p.type ≠ .publish → Reads (p, m) (p₁, m₁) →
      (setConnectionType p₁ type).connection.write bytes m₁ = .ok (accepted, m') →
      Handled env store p m (replyStatus accepted) (setConnectionType p₁ type) store m'
  | closed {m' : Machine W} :
      p.type = .disconnect → p.connection.close m = .ok ((), m') →
      Handled env store p m .ok p store m'
  | published {p₁ p' : Packet} {m₁ m₂ m' : Machine W} {publish : Publish} {key : K}
      {entry : DataStoreEntry} {store' : Store K W} :
      p.type = .publish →
      Publish.readFrom p p.typeFlags m = .ok ((some publish, p₁), m₁) →
      publish.topic.length ≤ 128 →
      KeyType.encodeKey env.target publish.topic.bytes publish.topic.length = .ok key →
      Reads (p, m) (p', m₂) →
      store.set key entry m₂ = .ok (store', m') →
      Handled env store p m .ok p' store' m'
  | subscribed {p' : Packet} {m₁ m₂ m' : Machine W} {bytes filter : List UInt8} {key : K}
      {n : Nat} {store' : Store K W} :
      p.type = .subscribe → Reads (p, m) (p', m₁) →
      p'.connection.write bytes m₁ = .ok (true, m₂) →
      plus ∉ filter →
      KeyType.encodeKey env.target filter (filterKeyBytes filter) = .ok key →
      store.addObserver env.order (subscriptionTo p.connection filter key n).entry m₂ =
        .ok (store', m') →
      Handled env store p m .ok p' store' m'

section

variable {env : Env K} {store : Store K W} {p : Packet} {m : Machine W}

theorem wp_writeFrame {cap : Nat} {conn : ClientConnection} {frame : Option (Cursor cap)}
    {Q : Bool → Machine W → Prop}
    (h : ∀ bytes accepted m', conn.write bytes m = .ok (accepted, m') → Q accepted m') :
    wp (writeFrame conn frame) Q (fun _ => True) m := by
  cases frame with
  | none => trivial
  | some c => exact wp_imp wp_returns (h c.sent)

theorem wp_subscribeAck {ack : SubscribeAck} {conn : ClientConnection}
    {Q : Bool → Machine W → Prop}
    (h : ∀ bytes accepted m', conn.write bytes m = .ok (accepted, m') → Q accepted m') :
    wp (ack.sendOn conn) Q (fun _ => True) m := by
  unfold SubscribeAck.sendOn
  split
  · trivial
  · exact wp_imp wp_returns (h _)

theorem handleConnect_handled (hp : p.type ≠ .publish) :
    wp (handleConnect env.target p)
      (fun r m' => Handled env store p m r.1 r.2 store m') (fun _ => True) m := by
  simp only [handleConnect, wp_bind, wp_ofExcept]
  refine wp_imp (Connect.readFrom_reads env.target p m) ?_
  rintro ⟨connect, p₁⟩ m₁ h₁
  split
  · refine wp_writeFrame ?_
    rintro bytes (- | -) m₂ hwrite <;> exact .replied _ hp h₁ hwrite
  · trivial

theorem handlePublish_handled (hp : p.type = .publish) :
    wp (handlePublish env store p)
      (fun r m' => Handled env store p m r.1 r.2.1 r.2.2 m') (fun _ => True) m := by
  simp only [handlePublish, wp_bind]
  refine wp_imp (wp_and (Publish.readFrom_reads p p.typeFlags m) wp_returns) ?_
  rintro ⟨- | publish, p₁⟩ m₁ ⟨⟨h₁, hpublish⟩, hread⟩
  · exact .failed h₁
  rw [wp_bind]
  refine wp_imp (p₁.read_reads publish.payloadBytes m₁) ?_
  rintro ⟨- | data, p₂⟩ m₂ h₂
  · exact .failed (h₁.trans h₂)
  simp only [wp_bind, wp_ofExcept]
  split
  · next key hkey =>
    refine wp_imp wp_returns fun store' m₃ hset => ?_
    exact .published hp hread (hpublish publish rfl).1 hkey (h₁.trans h₂) hset
  · trivial

theorem handleSubscribe_handled (hp : p.type = .subscribe) :
    wp (handleSubscribe env store p)
      (fun r m' => Handled env store p m r.1 r.2.1 r.2.2 m') (fun _ => True) m := by
  simp only [handleSubscribe, wp_bind]
  refine wp_imp (Subscribe.readFrom_reads (topicCallback_quiet env.target p.connection)
    none p m (by rintro _ ⟨⟩)) ?_
  have hne : p.type ≠ .publish := by rw [hp]; decide
  rintro ⟨- | subscribe, captured, p₁⟩ m₁ ⟨hcaptured, h₁⟩
  · exact .failed h₁
  rw [wp_bind]
  refine wp_subscribeAck ?_
  rintro bytes (- | -) m₂ hwrite
  · exact .replied none hne h₁ hwrite
  rcases captured with - | handler
  · exact .replied none hne h₁ hwrite
  obtain ⟨filter, key, n, hplus, hkey, rfl⟩ := hcaptured handler rfl
  rw [if_pos rfl, wp_bind]
  have hid : p₁.connection = p.connection := h₁.sameOutput.connection
  refine wp_imp wp_returns fun store' m₃ hadd => ?_
  rw [hid] at hadd
  exact .subscribed hp h₁ hwrite hplus hkey hadd

/-- **The outcomes of `HandleMessage`.** -/
theorem handleMessage_handled :
    wp (handleMessage env store p)
      (fun r m' => Handled env store p m r.1 r.2.1 r.2.2 m') (fun _ => True) m := by
  unfold handleMessage
  split
  · next hp =>
    rw [wp_bind]
    exact wp_imp (handleConnect_handled (by rw [hp]; decide)) fun _ _ h => h
  · next hp => exact handlePublish_handled hp
  · next hp => exact handleSubscribe_handled hp
  · next hp =>
    rw [wp_bind]
    refine wp_imp wp_returns ?_
    rintro (- | -) m₁ hwrite <;> exact .replied none (by rw [hp]; decide) .refl hwrite
  · next hp => exact .closed hp rfl
  · exact .failed .refl

theorem handled_of_ok {status : Status} {p' : Packet} {store' : Store K W}
    {m' : Machine W}
    (h : handleMessage env store p m = .ok ((status, p', store'), m')) :
    Handled env store p m status p' store' m' :=
  handleMessage_handled.ok h

end

end Gnat
