/-
Gnat/Atomicity.lean

`HandleMessage` changes the store all or nothing.

Whatever the network does: a call that returns a failure leaves entries and
observers as they were; a call that returns `Ok` changes at most one entry,
that of the topic it published, or appends at most one observer, that of the
connection that subscribed.
-/
import Gnat.Handled
import Gnat.Network

namespace Gnat

open Lib Prog

variable {W : Type} [Network W] {K : Type} [DecidableEq K] [KeyType K]
variable {env : Env K} {store store' : Store K W} {p p' : Packet} {m m' : Machine W}
variable {status : Status}

/-- The entries of a store differ at `key` at most. -/
def SameEntriesBut (key : K) (store store' : Store K W) : Prop :=
  ∀ key', key' ≠ key → store'.entries.lookup key' = store.entries.lookup key'

theorem Handled.of_failure {message : String}
    (h : Handled env store p m (.failure message) p' store' m') : store' = store := by
  generalize hs : Status.failure message = status at h
  cases h <;> first | rfl | cases hs

theorem Handled.entries (h : Handled env store p m status p' store' m')
    (hp : p.type ≠ .publish) : store'.entries = store.entries := by
  cases h with
  | failed | replied | closed => rfl
  | published hp' => exact absurd hp' hp
  | subscribed _ _ _ _ _ hadd => rw [(addObserver_ok hadd).1]

theorem Handled.observers (h : Handled env store p m status p' store' m') :
    store'.observers = store.observers ∨
      p.type = .subscribe ∧ ∃ handler,
        store'.observers = store.observers ++ [⟨p.connection.id, handler⟩] := by
  cases h with
  | failed | replied | closed => exact .inl rfl
  | published _ _ _ _ _ hset => exact .inl (by rw [(set_ok hset).1])
  | subscribed hp _ _ _ _ hadd => exact .inr ⟨hp, _, by rw [(addObserver_ok hadd).1]; rfl⟩

theorem Handled.published_key (h : Handled env store p m status p' store' m')
    (hok : status = .ok) (hp : p.type = .publish) :
    ∃ publish p₁ m₁ key,
      Publish.readFrom p p.typeFlags m = .ok ((some publish, p₁), m₁) ∧
      KeyType.encodeKey env.target publish.topic.bytes publish.topic.length = .ok key ∧
      SameEntriesBut key store store' := by
  cases h with
  | failed => cases hok
  | replied _ hp' => exact absurd hp hp'
  | closed hp' => exact absurd (hp'.symm.trans hp) (by decide)
  | published _ hread _ hkey _ hset =>
      refine ⟨_, _, _, _, hread, hkey, fun key' hne => ?_⟩
      rw [(set_ok hset).1]
      exact DataStore.lookup_stored_of_ne hne
  | subscribed hp' => exact absurd (hp'.symm.trans hp) (by decide)

/-- **Failure atomicity.**  A failed call leaves the store exactly as it was.  A
call that succeeds changes the entries for a PUBLISH only, and there only at
the key of the topic it read, and the observers for a SUBSCRIBE only, by one
observer with the connection's id at the end. -/
theorem handleMessage_atomic
    (h : handleMessage env store p m = .ok ((status, p', store'), m')) :
    (status ≠ .ok → store'.entries = store.entries ∧ store'.observers = store.observers) ∧
    (status = .ok →
      (p.type ≠ .publish → store'.entries = store.entries) ∧
      (p.type = .publish → ∃ publish p₁ m₁ key,
        Publish.readFrom p p.typeFlags m = .ok ((some publish, p₁), m₁) ∧
        KeyType.encodeKey env.target publish.topic.bytes publish.topic.length = .ok key ∧
        SameEntriesBut key store store') ∧
      (p.type ≠ .subscribe → store'.observers = store.observers) ∧
      (p.type = .subscribe → store'.observers = store.observers ∨ ∃ handler,
        store'.observers = store.observers ++ [⟨p.connection.id, handler⟩])) := by
  have hh := handled_of_ok h
  refine ⟨fun hfail => ?_, fun hok => ⟨hh.entries, hh.published_key hok, fun hp => ?_, fun _ => ?_⟩⟩
  · cases status with
    | ok => exact absurd rfl hfail
    | failure message =>
        rw [hh.of_failure]
        exact ⟨rfl, rfl⟩
  · exact hh.observers.resolve_right fun hs => hp hs.1
  · exact hh.observers.imp id And.right

/-- The client 7 subscribes to `a` and publishes `hi` to it.  Of what it publishes to `b`
the last byte does not arrive. -/
def lateByteWire : Wire :=
  ⟨fun _ => [0, 1, 0, 1, 0x61, 0] ++ [0, 1, 0x61, 0x68, 0x69] ++ [0, 1, 0x62, 0x68]⟩

/-- The third call fails on a store with an entry and an observer. -/
theorem handleMessage_atomic_publish :
    ∃ p₁ store₁ m₁ p₂ store₂ m₂ p₃ store₃ m₃,
      handleMessage ⟨{}, 0, .asKept StdString⟩ {} ⟨0x82, 6, { socket := 1, id := 7 }⟩
        { net := lateByteWire } = .ok ((.ok, p₁, store₁), m₁) ∧
      handleMessage ⟨{}, 0, .asKept StdString⟩ store₁ ⟨0x30, 5, { socket := 1, id := 7 }⟩ m₁ =
        .ok ((.ok, p₂, store₂), m₂) ∧
      handleMessage ⟨{}, 0, .asKept StdString⟩ store₂ ⟨0x30, 5, { socket := 1, id := 7 }⟩ m₂ =
        .ok ((.failure "Unable to complete read.", p₃, store₃), m₃) ∧
      store₂.entries.keys = [⟨[0x61]⟩] ∧ store₂.observers.map ObserverEntry.clientId = [7] ∧
      store₂.observers = store₁.observers ∧
      store₃.entries = store₂.entries ∧ store₃.observers = store₂.observers := by
  obtain ⟨_, _, h, hresult⟩ := exists_ok_of_map
    (t := handleMessage ⟨{}, 0, .asKept StdString⟩ {} ⟨0x82, 6, { socket := 1, id := 7 }⟩
        { net := lateByteWire } >>= fun r =>
      handleMessage ⟨{}, 0, .asKept StdString⟩ r.1.2.2 ⟨0x30, 5, { socket := 1, id := 7 }⟩
        r.2 >>= fun r' =>
      handleMessage ⟨{}, 0, .asKept StdString⟩ r'.1.2.2 ⟨0x30, 5, { socket := 1, id := 7 }⟩
        r'.2 >>= fun r'' => pure ((r.1.1, r'.1, r''.1.1), r''.2))
    (g := fun r => (r.1.1, r.1.2.1.1, r.1.2.2, r.1.2.1.2.2.entries.keys,
      r.1.2.1.2.2.observers.map ObserverEntry.clientId))
    (c := (.ok, .ok, .failure "Unable to complete read.", [⟨[0x61]⟩], [7])) (by decide +kernel)
  obtain ⟨⟨status₁, p₁, store₁⟩, m₁, h₁, h⟩ := exists_ok_of_bind h
  obtain ⟨⟨status₂, p₂, store₂⟩, m₂, h₂, h⟩ := exists_ok_of_bind h
  obtain ⟨⟨status₃, p₃, store₃⟩, m₃, h₃, h⟩ := exists_ok_of_bind h
  cases h
  obtain ⟨rfl, rfl, rfl, hkeys, hids⟩ : status₁ = .ok ∧ status₂ = .ok ∧
      status₃ = .failure "Unable to complete read." ∧ store₂.entries.keys = [⟨[0x61]⟩] ∧
      store₂.observers.map ObserverEntry.clientId = [7] := by
    simpa using hresult
  have hsame := ((handleMessage_atomic h₂).2 rfl).2.2.1 (by decide)
  have hfailed := (handleMessage_atomic h₃).1 (by decide)
  exact ⟨p₁, store₁, m₁, p₂, store₂, m₂, p₃, store₃, m₃, h₁, h₂, h₃, hkeys, hids, hsame, hfailed⟩

end Gnat
