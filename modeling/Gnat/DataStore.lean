/-
Gnat/DataStore.lean

`datastore.h`: the retained entries and the observers of them.

The store is generic in its keys, as the template is, and in the monad `m` the
handlers run in: a handler does something and returns a boolean, and has no
access to the store.

`entries_` is an `unordered_map`, so the order in which `AddObserver` visits
the entries is not specified.  An `IterationOrder` is one such order; it is an
argument of `addObserver`, so each call may have its own.
-/
import Mathlib

namespace Gnat

/-- `DataStoreEntry`: a byte array and its length. -/
structure DataStoreEntry where
  data : List UInt8 := []
  length : Nat := 0
  timestamp : UInt32 := 0
  data_length : data.length = length := by rfl
  deriving DecidableEq

/-- `std::unordered_map<KeyType, DataStoreEntry>`. -/
abbrev EntryMap (K : Type) := AList fun _ : K => DataStoreEntry

/-- An order in which a loop over an `unordered_map` may visit its entries. -/
structure IterationOrder (K : Type) where
  visit : EntryMap K → List (Sigma fun _ : K => DataStoreEntry)
  visit_perm (entries : EntryMap K) : (visit entries).Perm entries.entries

/-- The order in which the model keeps the entries. -/
def IterationOrder.asKept (K : Type) : IterationOrder K :=
  ⟨fun entries => entries.entries, fun _ => List.Perm.refl _⟩

/-- `ObserverEntry`. -/
structure ObserverEntry (K : Type) (m : Type → Type) where
  clientId : UInt32
  handler : K → DataStoreEntry → m Bool

/-- `DataStore<KeyType>`. -/
structure DataStore (K : Type) (m : Type → Type) where
  entries : EntryMap K := ∅
  observers : List (ObserverEntry K m) := []

namespace DataStore

variable {K : Type} [DecidableEq K] {m : Type → Type} [Monad m]

/-- `entries_.emplace(key, entry)`: nothing happens if the key is present. -/
def emplace (entries : EntryMap K) (key : K) (entry : DataStoreEntry) : EntryMap K :=
  if key ∈ entries then entries else entries.insert key entry

/-- `entries_[key]`: the value, default-constructed first if there is none. -/
def index (entries : EntryMap K) (key : K) : DataStoreEntry × EntryMap K :=
  match entries.lookup key with
  | some entry => (entry, entries)
  | none => ({}, entries.insert key {})

omit [DecidableEq K] in
/-- The loop of `NotifyObservers`; what a handler returns is not looked at. -/
def notifyAll (observers : List (ObserverEntry K m)) (key : K)
    (value : DataStoreEntry) : m Unit :=
  forM observers fun observer => do
    let _ ← observer.handler key value

omit [DecidableEq K] in
/-- The loop of `AddObserver` over the entries. -/
def replay (handler : K → DataStoreEntry → m Bool)
    (entries : List (Sigma fun _ : K => DataStoreEntry)) : m Unit :=
  forM entries fun entry => do
    let _ ← handler entry.1 entry.2

/-- `NotifyObservers`. -/
def notifyObservers (store : DataStore K m) (key : K) : m (DataStore K m) := do
  let (value, entries) := index store.entries key
  notifyAll store.observers key value
  return { store with entries }

/-- `Set`. -/
def set (store : DataStore K m) (key : K) (entry : DataStoreEntry) :
    m (DataStore K m) :=
  notifyObservers
    { store with entries := emplace (store.entries.erase key) key entry } key

omit [Monad m] in
/-- `Get`; `none` where `at` throws. -/
def get (store : DataStore K m) (key : K) : Option DataStoreEntry :=
  store.entries.lookup key

omit [DecidableEq K] [Monad m] in
/-- `RemoveObserversForClient`. -/
def removeObserversForClient (store : DataStore K m) (clientId : UInt32) :
    DataStore K m :=
  { store with
    observers := store.observers.filter fun observer => observer.clientId ≠ clientId }

omit [DecidableEq K] in
/-- `AddObserver`: the observer is sent all existing data. -/
def addObserver (store : DataStore K m) (order : IterationOrder K)
    (observer : ObserverEntry K m) : m (DataStore K m) := do
  let store := { store with observers := store.observers ++ [observer] }
  replay observer.handler (order.visit store.entries)
  return store

/-! ### The entries after a `Set` -/

omit [Monad m] in
/-- The entries `Set` leaves. -/
def stored (entries : EntryMap K) (key : K) (entry : DataStoreEntry) : EntryMap K :=
  (entries.erase key).insert key entry

theorem emplace_erase (entries : EntryMap K) (key : K) (entry : DataStoreEntry) :
    emplace (entries.erase key) key entry = stored entries key entry := by
  unfold emplace stored
  rw [if_neg (by simp [AList.mem_erase])]

@[simp] theorem lookup_stored_self (entries : EntryMap K) (key : K)
    (entry : DataStoreEntry) : (stored entries key entry).lookup key = some entry :=
  AList.lookup_insert _

theorem lookup_stored_of_ne {entries : EntryMap K} {key key' : K}
    {entry : DataStoreEntry} (h : key' ≠ key) :
    (stored entries key entry).lookup key' = entries.lookup key' := by
  rw [stored, AList.lookup_insert_ne h, AList.lookup_erase_ne h]

/-- `Set` stores the entry and notifies each observer of it. -/
theorem set_eq (store : DataStore K m) (key : K) (entry : DataStoreEntry) :
    store.set key entry = (do
      notifyAll store.observers key entry
      return { store with entries := stored store.entries key entry }) := by
  simp only [set, notifyObservers, index, emplace_erase, lookup_stored_self]

end DataStore

end Gnat
