/-
Gnat/History.lean

The contract of `DataStore` with its observers.

A history is a list of calls of `Set`, `AddObserver` and
`RemoveObserversForClient`, with handlers in any lawful monad.  Executing it
is the same program as making a certain list of calls of the handlers, and the
contract says which: at `AddObserver` one for each key set so far, with its
latest value; then one for each `Set` until the observer is removed.
-/
import Gnat.Observed

namespace Gnat

open Lib

variable {K : Type} {m : Type → Type}

/-- A call on a store. -/
inductive StoreOp (K : Type) (m : Type → Type)
  | set (key : K) (entry : DataStoreEntry)
  | addObserver (order : IterationOrder K) (observer : ObserverEntry K m)
  | removeObserversForClient (clientId : UInt32)

/-- An observer with the place of its `AddObserver` in the history. -/
structure Numbered (K : Type) (m : Type → Type) where
  number : Nat
  observer : ObserverEntry K m

/-- The call with a given number, as an operation on a board. -/
def StoreOp.onBoard (number : Nat) : StoreOp K m → Board.Op K DataStoreEntry (Numbered K m)
  | set key entry => .set key entry
  | addObserver _ observer => .watch ⟨number, observer⟩
  | removeObserversForClient clientId => .unwatch (leavesWith Numbered.observer clientId)

/-- A history whose first call has the number `n`, as operations on a board. -/
def history : (n : Nat) → List (StoreOp K m) →
    List (Board.Op K DataStoreEntry (Numbered K m))
  | _, [] => []
  | n, op :: ops => op.onBoard n :: history (n + 1) ops

section

variable [DecidableEq K] [Monad m]

/-- One call. -/
def StoreOp.execute (store : DataStore K m) : StoreOp K m → m (DataStore K m)
  | set key entry => store.set key entry
  | addObserver order observer => store.addObserver order observer
  | removeObserversForClient clientId => return store.removeObserversForClient clientId

/-- All calls of a history. -/
def executeAll (store : DataStore K m) (ops : List (StoreOp K m)) : m (DataStore K m) :=
  ops.foldlM StoreOp.execute store

end

/-! ### Histories as runs of the board -/

theorem length_history (n : Nat) (ops : List (StoreOp K m)) :
    (history n ops).length = ops.length := by
  induction ops generalizing n with
  | nil => rfl
  | cons op ops ih => simp [history, ih]

theorem history_getElem? (n i : Nat) (ops : List (StoreOp K m)) :
    (history n ops)[i]? = ops[i]?.map (StoreOp.onBoard (n + i)) := by
  induction ops generalizing n i with
  | nil => rfl
  | cons op ops ih =>
      cases i with
      | zero => rfl
      | succ i => simp [history, ih, Nat.add_assoc, Nat.add_comm 1]

theorem history_take (n i : Nat) (ops : List (StoreOp K m)) :
    (history n ops).take i = history n (ops.take i) := by
  induction ops generalizing n i with
  | nil => simp [history]
  | cons op ops ih =>
      cases i with
      | zero => rfl
      | succ i => simp [history, ih]

theorem history_drop (n i : Nat) (ops : List (StoreOp K m)) :
    (history n ops).drop i = history (n + i) (ops.drop i) := by
  induction ops generalizing n i with
  | nil => simp [history]
  | cons op ops ih =>
      cases i with
      | zero => rfl
      | succ i => simp [history, ih, Nat.add_assoc, Nat.add_comm 1]

/-- A watcher's number tells it from those of other places in the history. -/
def isNumber (i : Nat) (w : Numbered K m) : Bool :=
  w.number == i

theorem keeps_history {n i : Nat} (ops : List (StoreOp K m))
    (h : i < n ∨ n + ops.length ≤ i) :
    ∀ op ∈ history n ops, Board.Keeps (isNumber i) op := by
  induction ops generalizing n with
  | nil => exact List.forall_mem_nil _
  | cons op ops ih =>
      rw [List.length_cons] at h
      have ih := ih (n := n + 1) (by omega)
      rintro op' (- | ⟨_, hop'⟩)
      · cases op with
        | set key entry | removeObserversForClient clientId => trivial
        | addObserver order observer =>
            simp only [StoreOp.onBoard, Board.Keeps, isNumber, beq_eq_false_iff_ne]
            omega
      · exact ih op' hop'

variable [DecidableEq K] [Monad m] [LawfulMonad m]

/-- One call makes the calls of the board's operation. -/
theorem execute_performs {b : Board K DataStoreEntry (Numbered K m)} {store : DataStore K m}
    (h : Represents Numbered.observer b store) (n : Nat) (op : StoreOp K m) :
    ∃ calls store', Board.Step b (op.onBoard n, calls) (b.after (op.onBoard n)) ∧
      Represents Numbered.observer (b.after (op.onBoard n)) store' ∧
      op.execute store = (do
        perform Numbered.observer calls
        return store') := by
  cases op with
  | set key entry =>
      obtain ⟨calls, store', hmakes, hrep, heq⟩ := h.set key entry
      exact ⟨calls, store', .mk hmakes, hrep, heq⟩
  | addObserver order observer =>
      obtain ⟨calls, store', hmakes, hrep, heq⟩ := h.addObserver order ⟨n, observer⟩
      exact ⟨calls, store', .mk hmakes, hrep, heq⟩
  | removeObserversForClient clientId =>
      obtain ⟨hmakes, hrep⟩ := h.remove clientId
      exact ⟨[], _, .mk hmakes, hrep, by simp [StoreOp.execute, perform]⟩

/-- A history makes the calls of a run of the board. -/
theorem executeAll_performs {b : Board K DataStoreEntry (Numbered K m)}
    {store : DataStore K m} (h : Represents Numbered.observer b store) (n : Nat)
    (ops : List (StoreOp K m)) :
    ∃ ls b' store', ls.map Prod.fst = history n ops ∧ Run Board.Step b ls b' ∧
      Represents Numbered.observer b' store' ∧
      executeAll store ops = (do
        perform Numbered.observer (ls.flatMap Prod.snd)
        return store') := by
  induction ops generalizing b store n with
  | nil => exact ⟨[], b, store, rfl, .nil, h, by simp [executeAll, perform]⟩
  | cons op ops ih =>
      obtain ⟨calls, store₁, hstep, hrep₁, heq₁⟩ := execute_performs h n op
      obtain ⟨ls, b', store', hls, hrun, hrep', heq'⟩ := ih hrep₁ (n + 1)
      refine ⟨(op.onBoard n, calls) :: ls, b', store', ?_, .cons hstep hrun, hrep', ?_⟩
      · rw [history, List.map_cons, hls]
      · have hops : executeAll store (op :: ops) =
            op.execute store >>= fun store => executeAll store ops :=
          List.foldlM_cons
        rw [hops, heq₁, List.flatMap_cons, perform_append]
        simp only [bind_assoc, pure_bind, heq']

/-! ### The contract -/

/-- What a history leaves on the board. -/
def latestIn (ops : List (StoreOp K m)) (key : K) : Option DataStoreEntry :=
  Board.latest key (history 0 ops)

/-- The calls of one call on the store, given what was called before it. -/
def BlockOf (before : List (StoreOp K m)) (number : Nat) (op : StoreOp K m)
    (block : List (Board.Call K DataStoreEntry (Numbered K m))) : Prop :=
  match op with
  | .set key entry =>
      block = (Board.staying (history 0 before)).map fun w => ⟨w, key, entry⟩
  | .addObserver _ observer =>
      ∃ l, Board.Lists (latestIn before) l ∧
        block = l.map fun e => ⟨⟨number, observer⟩, e.1, e.2⟩
  | .removeObserversForClient _ => block = []

section

variable {b b' b'' : Board K DataStoreEntry (Numbered K m)} {number : Nat}
variable {before after : List (StoreOp K m)} {op : StoreOp K m}
variable {calls : List (Board.Call K DataStoreEntry (Numbered K m))}
variable {ls ls' : List (Board.Op K DataStoreEntry (Numbered K m) ×
  List (Board.Call K DataStoreEntry (Numbered K m)))}

omit [Monad m] [LawfulMonad m] in
theorem value_latestIn (h : Run Board.Step {} ls b) (hls : ls.map Prod.fst = history 0 before) :
    b.value = latestIn before := by
  funext key
  rw [Board.value_run_empty h, hls]
  rfl

omit [Monad m] [LawfulMonad m] in
/-- The calls of one call on the store. -/
theorem blockOf_step (h : Run Board.Step {} ls b) (hls : ls.map Prod.fst = history 0 before)
    (hs : Board.Step b (op.onBoard number, calls) b') : BlockOf before number op calls := by
  have hvalue := value_latestIn h hls
  have hwatchers := Board.watchers_run_empty h
  rw [hls] at hwatchers
  obtain ⟨hmakes, -⟩ := hs.inv
  cases op with
  | set key entry =>
      cases hmakes
      rw [BlockOf, hwatchers]
  | addObserver order observer =>
      cases hmakes with
      | watch w hlist => exact ⟨_, hvalue ▸ hlist, rfl⟩
  | removeObserversForClient clientId =>
      cases hmakes
      rfl

omit [Monad m] [LawfulMonad m] in
/-- The calls of one observer: nobody is called with its number before it is added. -/
theorem told_observer {order : IterationOrder K} {observer : ObserverEntry K m}
    (h : Run Board.Step {} ls b) (hls : ls.map Prod.fst = history 0 before)
    (hnumber : number = before.length)
    (hs : Board.Step b ((StoreOp.addObserver order observer).onBoard number, calls) b')
    (h' : Run Board.Step b' ls' b'') (hls' : ls'.map Prod.fst = history (number + 1) after) :
    ∃ l, Board.Lists (latestIn before) l ∧
      Board.told (isNumber number) (ls.flatMap Prod.snd ++ (calls ++ ls'.flatMap Prod.snd)) =
        l ++ Board.follow ⟨number, observer⟩ (history (number + 1) after) := by
  have hbefore : ∀ l ∈ ls, Board.Keeps (isNumber number) l.1 := fun l hl =>
    keeps_history before (.inr (by omega)) l.1 (hls ▸ List.mem_map_of_mem hl)
  have hafter : ∀ l ∈ ls', Board.Keeps (isNumber number) l.1 := fun l hl =>
    keeps_history after (.inl (Nat.lt_succ_self number)) l.1 (hls' ▸ List.mem_map_of_mem hl)
  obtain ⟨hnone, hb⟩ := Board.told_nothing h hbefore rfl
  obtain ⟨l, hlist, htold⟩ := Board.told_run hs h' (by simp [isNumber]) hb hafter
  refine ⟨l, value_latestIn h hls ▸ hlist, ?_⟩
  rw [Board.told_append, hnone, List.nil_append, htold, hls']

end

/-- **The observer contract.**  A history is the same program as the calls in
`blocks`, one block for each of its calls, whatever the handlers do and return:

* a `Set` calls the observers that were added and not removed, in the order in
  which they were added, with its key and value; `AddObserver` calls its own
  observer once for each key set so far, with its latest value;
* so an observer is called for these and then once for each later `Set`, until
  its client is removed;
* `Get` returns the latest value of each key. -/
theorem observer_contract (ops : List (StoreOp K m)) :
    ∃ (blocks : List (List (Board.Call K DataStoreEntry (Numbered K m))))
      (store' : DataStore K m),
      executeAll {} ops = (do
        perform Numbered.observer blocks.flatten
        return store') ∧
      blocks.length = ops.length ∧
      (∀ i op, ops[i]? = some op →
        ∃ block, blocks[i]? = some block ∧ BlockOf (ops.take i) i op block) ∧
      (∀ i order observer, ops[i]? = some (.addObserver order observer) →
        ∃ l, Board.Lists (latestIn (ops.take i)) l ∧
          Board.told (isNumber i) blocks.flatten =
            l ++ Board.follow ⟨i, observer⟩ (history (i + 1) (ops.drop (i + 1)))) ∧
      ∀ key, store'.get key = latestIn ops key := by
  obtain ⟨ls, b', store', hls, hrun, hrep, heq⟩ :=
    executeAll_performs (m := m) represents_empty 0 ops
  -- the operation, the calls and the boards around the call at a place
  have hat : ∀ i op, ops[i]? = some op → ∃ calls b₁ b₂,
      ls[i]? = some (op.onBoard i, calls) ∧ Run Board.Step {} (ls.take i) b₁ ∧
      Board.Step b₁ (op.onBoard i, calls) b₂ ∧ Run Board.Step b₂ (ls.drop (i + 1)) b' := by
    intro i op hop
    have hmap : (ls.map Prod.fst)[i]? = some (op.onBoard i) := by
      rw [hls, history_getElem?, hop, Nat.zero_add]
      rfl
    rw [List.getElem?_map] at hmap
    obtain ⟨⟨bop, calls⟩, hl, rfl⟩ := Option.map_eq_some_iff.mp hmap
    obtain ⟨b₁, b₂, h₁, hs, h₂⟩ := hrun.step_at hl
    exact ⟨calls, b₁, b₂, hl, h₁, hs, h₂⟩
  have htake : ∀ i, (ls.take i).map Prod.fst = history 0 (ops.take i) := fun i => by
    rw [List.map_take, hls, history_take]
  have hdrop : ∀ i, (ls.drop i).map Prod.fst = history i (ops.drop i) := fun i => by
    rw [List.map_drop, hls, history_drop, Nat.zero_add]
  refine ⟨ls.map Prod.snd, store', by rw [heq, List.flatMap_def], ?_, ?_, ?_, fun key => ?_⟩
  · rw [List.length_map, ← List.length_map (f := Prod.fst), hls, length_history]
  · intro i op hop
    obtain ⟨calls, b₁, b₂, hl, h₁, hs, -⟩ := hat i op hop
    exact ⟨calls, by rw [List.getElem?_map, hl]; rfl, blockOf_step h₁ (htake i) hs⟩
  · intro i order observer hop
    obtain ⟨calls, b₁, b₂, hl, h₁, hs, h₂⟩ := hat i _ hop
    obtain ⟨hi, hget⟩ := List.getElem?_eq_some_iff.mp hl
    have hi' : i < ops.length := (List.getElem?_eq_some_iff.mp hop).1
    have hnumber : i = (ops.take i).length := by
      rw [List.length_take, Nat.min_eq_left (Nat.le_of_lt hi')]
    have hsplit : (ls.map Prod.snd).flatten = (ls.take i).flatMap Prod.snd ++
        (calls ++ (ls.drop (i + 1)).flatMap Prod.snd) := by
      rw [← List.flatMap_def]
      conv_lhs => rw [← List.take_append_drop i ls, List.drop_eq_getElem_cons hi, hget]
      rw [List.flatMap_append, List.flatMap_cons]
    rw [hsplit]
    exact told_observer h₁ (htake i) hnumber hs h₂ (hdrop (i + 1))
  · rw [DataStore.get, hrep.entries, Board.value_run_empty hrun, hls]
    rfl

/-- An observer that logs the keys it is called with, and fails. -/
def logKeys : ObserverEntry UInt64 (StateM (List UInt64)) :=
  ⟨7, fun key _ => do
    modify (· ++ [key])
    return false⟩

/-- An observer is added between two `Set` of one key. -/
def logHistory : List (StoreOp UInt64 (StateM (List UInt64))) :=
  [.set 1 ⟨[0x61], 1, 0, rfl⟩, .addObserver (.asKept UInt64) logKeys,
    .set 1 ⟨[0x62], 1, 0, rfl⟩]

theorem observer_contract_log :
    ∃ (calls : List (Board.Call UInt64 DataStoreEntry (Numbered UInt64 _))) (store' : _),
      executeAll {} logHistory = (do
        perform Numbered.observer calls
        return store') ∧
      (∃ l, Board.Lists (latestIn (logHistory.take 1)) l ∧
        Board.told (isNumber 1) calls = l ++ [(1, ⟨[0x62], 1, 0, rfl⟩)]) ∧
      store'.get 1 = some ⟨[0x62], 1, 0, rfl⟩ := by
  obtain ⟨blocks, store', heq, -, -, htold, hget⟩ := observer_contract logHistory
  exact ⟨blocks.flatten, store', heq, htold 1 _ _ rfl, hget 1⟩

example : ((executeAll {} logHistory).run []).2 = [1, 1] := by decide +kernel

end Gnat
