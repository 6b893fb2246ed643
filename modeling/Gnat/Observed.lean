/-
Gnat/Observed.lean

A `DataStore` is a board with watchers.

`Represents entry b store` says that the board `b` holds the entries of the
store and that the store's observers are those of the watchers of `b`, in
order; `entry` gives the observer of a watcher.  Each operation of the store
makes exactly the calls the board makes, in the same order, and nothing else
happens in the monad of the handlers: what a handler returns is not looked at.
-/
import Gnat.DataStore
import Gnat.Lib.Board

namespace Gnat

open Lib

variable {K ω : Type} {m : Type → Type}

/-- The board holds the entries and the observers of the store. -/
structure Represents [DecidableEq K] (entry : ω → ObserverEntry K m)
    (b : Board K DataStoreEntry ω) (store : DataStore K m) : Prop where
  entries : ∀ key, store.entries.lookup key = b.value key
  observers : store.observers = b.watchers.map entry

/-- The calls of a board as calls of the watchers' handlers. -/
def perform [Monad m] (entry : ω → ObserverEntry K m)
    (calls : List (Board.Call K DataStoreEntry ω)) : m Unit :=
  forM calls fun c => do
    let _ ← (entry c.watcher).handler c.key c.value

/-- The watchers with the observers of a client leave. -/
def leavesWith (entry : ω → ObserverEntry K m) (clientId : UInt32) (w : ω) : Bool :=
  (entry w).clientId = clientId

variable [Monad m] [LawfulMonad m] {entry : ω → ObserverEntry K m}

omit [LawfulMonad m] in
theorem forM_map {α β : Type} (f : α → β) (g : β → m PUnit) (l : List α) :
    forM (l.map f) g = forM l fun a => g (f a) := by
  induction l with
  | nil => rfl
  | cons a l ih => rw [List.map_cons, List.forM_cons, List.forM_cons, ih]

theorem perform_append (calls calls' : List (Board.Call K DataStoreEntry ω)) :
    perform entry (calls ++ calls') = (do
      perform entry calls
      perform entry calls') := by
  simp only [perform, List.forM_append]

variable [DecidableEq K] {b : Board K DataStoreEntry ω} {store : DataStore K m}

omit [Monad m] [LawfulMonad m] in
theorem represents_empty : Represents entry ({} : Board K DataStoreEntry ω) {} :=
  ⟨fun _ => rfl, rfl⟩

omit [LawfulMonad m] in
/-- `Set` tells all watchers. -/
theorem Represents.set (h : Represents entry b store) (key : K) (value : DataStoreEntry) :
    ∃ calls store', b.Makes (.set key value) calls ∧
      Represents entry (b.after (.set key value)) store' ∧
      store.set key value = (do
        perform entry calls
        return store') := by
  refine ⟨_, { store with entries := DataStore.stored store.entries key value },
    .set key value, ⟨fun key' => ?_, h.observers⟩, ?_⟩
  · rcases eq_or_ne key' key with rfl | hne
    · simp [Board.after]
    · rw [DataStore.lookup_stored_of_ne hne, h.entries]
      exact (Function.update_of_ne hne _ _).symm
  · rw [DataStore.set_eq, DataStore.notifyAll, h.observers, perform, forM_map, forM_map]

omit [Monad m] [LawfulMonad m] in
/-- A loop over the entries visits what is on the board, each key once. -/
theorem Represents.lists_visit (h : Represents entry b store) (order : IterationOrder K) :
    Board.Lists b.value
      ((order.visit store.entries).map fun e => (e.1, e.2)) := by
  have hperm := order.visit_perm store.entries
  refine ⟨?_, fun key value => ?_⟩
  · have hkeys : ((order.visit store.entries).map Sigma.fst).Nodup :=
      (hperm.map Sigma.fst).nodup_iff.mpr store.entries.nodupKeys
    simpa [List.map_map, Function.comp_def] using hkeys
  · rw [← h.entries key]
    refine Iff.trans ?_ (hperm.mem_iff.trans AList.mem_lookup_iff.symm)
    constructor
    · intro hmem
      obtain ⟨⟨key', value'⟩, he, heq⟩ := List.mem_map.mp hmem
      obtain ⟨rfl, rfl⟩ := Prod.mk.inj heq
      exact he
    · exact fun hmem => List.mem_map.mpr ⟨⟨key, value⟩, hmem, rfl⟩

omit [LawfulMonad m] in
/-- `AddObserver` tells the new watcher everything on the board. -/
theorem Represents.addObserver (h : Represents entry b store) (order : IterationOrder K)
    (w : ω) :
    ∃ calls store', b.Makes (.watch w) calls ∧
      Represents entry (b.after (.watch w)) store' ∧
      store.addObserver order (entry w) = (do
        perform entry calls
        return store') := by
  refine ⟨_, { store with observers := store.observers ++ [entry w] },
    .watch w (h.lists_visit order), ⟨h.entries, ?_⟩, ?_⟩
  · rw [h.observers, Board.after, List.map_append]
    rfl
  · rw [DataStore.addObserver, DataStore.replay, perform, forM_map, forM_map]

omit [Monad m] [LawfulMonad m] in
/-- `RemoveObserversForClient` makes the watchers of the client leave. -/
theorem Represents.remove (h : Represents entry b store) (clientId : UInt32) :
    b.Makes (.unwatch (leavesWith entry clientId)) [] ∧
      Represents entry (b.after (.unwatch (leavesWith entry clientId)))
        (store.removeObserversForClient clientId) := by
  refine ⟨.unwatch _, h.entries, ?_⟩
  simp only [DataStore.removeObserversForClient, h.observers, List.filter_map, Board.after]
  congr 2
  funext w
  simp [leavesWith]

end Gnat
