/-
Gnat/Lib/Board.lean

A board of values with watchers.

Whoever sets a key tells all watchers of it, in the order in which they came;
whoever starts to watch is told everything on the board first, in some order;
watchers leave when an `unwatch` names them.  An operation makes calls, and
`Makes` says which: it is a relation because the order in which a new watcher
is told the board is left open.

The theorems say, of a run of any length, what is on the board (`value_run`),
who is watching (`watchers_run`), and what a watcher was told from when it
came until it left (`told_run`).  Boards whose keys correspond one to one stay
in agreement under corresponding operations (`Agree`).
-/
import Gnat.Lib.Run

namespace Gnat.Lib

/-- An operation on a board with keys `κ`, values `ν` and watchers `ω`. -/
inductive Board.Op (κ ν ω : Type*)
  | set (key : κ) (value : ν)
  | watch (w : ω)
  | unwatch (leaves : ω → Bool)

/-- A watcher is told the value of a key. -/
structure Board.Call (κ ν ω : Type*) where
  watcher : ω
  key : κ
  value : ν
  deriving DecidableEq

/-- The values on the board and its watchers, in the order in which they came. -/
structure Board (κ ν ω : Type*) where
  value : κ → Option ν := fun _ => none
  watchers : List ω := []

namespace Board

variable {κ ν ω : Type*} [DecidableEq κ]

/-- The board after an operation. -/
def after (b : Board κ ν ω) : Op κ ν ω → Board κ ν ω
  | .set k v => { b with value := Function.update b.value k (some v) }
  | .watch w => { b with watchers := b.watchers ++ [w] }
  | .unwatch leaves => { b with watchers := b.watchers.filter fun w => !leaves w }

omit [DecidableEq κ] in
/-- `l` lists the values on the board, each key once. -/
def Lists (value : κ → Option ν) (l : List (κ × ν)) : Prop :=
  (l.map Prod.fst).Nodup ∧ ∀ k v, (k, v) ∈ l ↔ value k = some v

/-- The calls an operation makes. -/
inductive Makes (b : Board κ ν ω) : Op κ ν ω → List (Call κ ν ω) → Prop
  | set (k : κ) (v : ν) : Makes b (.set k v) (b.watchers.map fun w => ⟨w, k, v⟩)
  | watch (w : ω) {l : List (κ × ν)} :
      Lists b.value l → Makes b (.watch w) (l.map fun e => ⟨w, e.1, e.2⟩)
  | unwatch (leaves : ω → Bool) : Makes b (.unwatch leaves) []

/-- The steps of a board, labelled with the operation and its calls. -/
inductive Step : Board κ ν ω → Op κ ν ω × List (Call κ ν ω) → Board κ ν ω → Prop
  | mk {b : Board κ ν ω} {op : Op κ ν ω} {calls : List (Call κ ν ω)} :
      b.Makes op calls → Step b (op, calls) (b.after op)

/-! ### What a list of operations amounts to -/

/-- The value of the last `set` of a key. -/
def latest (k : κ) : List (Op κ ν ω) → Option ν
  | [] => none
  | .set k' v :: ops => (latest k ops).or (if k' = k then some v else none)
  | .watch _ :: ops => latest k ops
  | .unwatch _ :: ops => latest k ops

omit [DecidableEq κ] in
/-- The watcher is named by an `unwatch`. -/
def leaves (w : ω) : List (Op κ ν ω) → Bool
  | [] => false
  | .set _ _ :: ops => leaves w ops
  | .watch _ :: ops => leaves w ops
  | .unwatch named :: ops => named w || leaves w ops

omit [DecidableEq κ] in
/-- The watchers that came and did not leave, in the order in which they came. -/
def staying : List (Op κ ν ω) → List ω
  | [] => []
  | .set _ _ :: ops => staying ops
  | .watch w :: ops => if leaves w ops then staying ops else w :: staying ops
  | .unwatch _ :: ops => staying ops

omit [DecidableEq κ] in
/-- The keys and values set until the watcher leaves. -/
def follow (w : ω) : List (Op κ ν ω) → List (κ × ν)
  | [] => []
  | .set k v :: ops => (k, v) :: follow w ops
  | .watch _ :: ops => follow w ops
  | .unwatch named :: ops => if named w then [] else follow w ops

omit [DecidableEq κ] in
/-- What the watchers in `is` are told by a list of calls. -/
def told (is : ω → Bool) (calls : List (Call κ ν ω)) : List (κ × ν) :=
  (calls.filter fun c => is c.watcher).map fun c => (c.key, c.value)

/-- The latest value of a key was set. -/
theorem mem_of_latest {k : κ} {v : ν} {ops : List (Op κ ν ω)} (h : latest k ops = some v) :
    .set k v ∈ ops := by
  induction ops with
  | nil => cases h
  | cons op ops ih =>
      cases op with
      | set k' v' =>
          rw [latest, Option.or_eq_some_iff] at h
          rcases h with h | ⟨-, h⟩
          · exact List.mem_cons_of_mem _ (ih h)
          · split at h
            · next hk =>
              cases h
              exact hk ▸ List.mem_cons_self
            · cases h
      | watch | unwatch => exact List.mem_cons_of_mem _ (ih h)

omit [DecidableEq κ] in
/-- What a watcher follows was set. -/
theorem mem_of_follow {w : ω} {e : κ × ν} {ops : List (Op κ ν ω)} (h : e ∈ follow w ops) :
    .set e.1 e.2 ∈ ops := by
  induction ops with
  | nil => cases h
  | cons op ops ih =>
      cases op with
      | set k v =>
          rcases List.mem_cons.mp h with rfl | h
          · exact List.mem_cons_self
          · exact List.mem_cons_of_mem _ (ih h)
      | watch => exact List.mem_cons_of_mem _ (ih h)
      | unwatch named =>
          rw [follow] at h
          split at h
          · cases h
          · exact List.mem_cons_of_mem _ (ih h)

variable {b b' : Board κ ν ω} {op : Op κ ν ω} {calls : List (Call κ ν ω)}
variable {ls : List (Op κ ν ω × List (Call κ ν ω))} {is : ω → Bool} {w : ω}

theorem Step.inv (h : Step b (op, calls) b') : b.Makes op calls ∧ b' = b.after op := by
  cases h with
  | mk hmakes => exact ⟨hmakes, rfl⟩

/-- Who sets a key tells every watcher. -/
theorem Step.tells_all {k : κ} {v : ν} (h : Step b (.set k v, calls) b') :
    b'.value k = some v ∧ ∀ w ∈ b.watchers, ⟨w, k, v⟩ ∈ calls := by
  obtain ⟨hmakes, rfl⟩ := h.inv
  refine ⟨Function.update_self .., fun w hw => ?_⟩
  cases hmakes with
  | set => exact List.mem_map.mpr ⟨w, hw, rfl⟩

/-- Who starts to watch is told what is on the board, and nobody else is. -/
theorem Step.tells_watcher (h : Step b (.watch w, calls) b') :
    w ∈ b'.watchers ∧ (∀ k v, b.value k = some v → ⟨w, k, v⟩ ∈ calls) ∧
      ∀ c ∈ calls, c.watcher = w := by
  obtain ⟨hmakes, rfl⟩ := h.inv
  refine ⟨List.mem_append_right _ List.mem_cons_self, ?_⟩
  cases hmakes with
  | watch _ hl =>
      refine ⟨fun k v hvalue => List.mem_map.mpr ⟨(k, v), (hl.2 k v).mpr hvalue, rfl⟩, ?_⟩
      intro c hc
      obtain ⟨e, -, rfl⟩ := List.mem_map.mp hc
      rfl

/-! ### Runs -/

theorem value_run (h : Run Step b ls b') (k : κ) :
    b'.value k = (latest k (ls.map Prod.fst)).or (b.value k) := by
  induction h with
  | nil => rfl
  | @cons b b₁ b' l ls hstep _ ih =>
      rw [ih, List.map_cons]
      obtain ⟨op, calls⟩ := l
      obtain ⟨-, rfl⟩ := hstep.inv
      cases op with
      | set k' v =>
          simp only [latest, after, Option.or_assoc]
          rcases eq_or_ne k' k with rfl | hne
          · simp
          · rw [Function.update_of_ne hne.symm, if_neg hne, Option.none_or]
      | watch w => rfl
      | unwatch named => rfl

/-- The values on the board after a run from the empty board. -/
theorem value_run_empty (h : Run Step {} ls b') (k : κ) :
    b'.value k = latest k (ls.map Prod.fst) := by
  rw [value_run h]
  exact Option.or_none

theorem watchers_run (h : Run Step b ls b') :
    b'.watchers = (b.watchers.filter fun w => !leaves w (ls.map Prod.fst)) ++
      staying (ls.map Prod.fst) := by
  induction h with
  | nil => simp [leaves, staying]
  | @cons b b₁ b' l ls hstep _ ih =>
      rw [ih, List.map_cons]
      obtain ⟨op, calls⟩ := l
      obtain ⟨-, rfl⟩ := hstep.inv
      cases op with
      | set k v => rfl
      | watch w =>
          simp only [after, leaves, staying, List.filter_append, List.append_assoc]
          cases hw : leaves w (ls.map Prod.fst) <;> simp [hw]
      | unwatch named =>
          simp only [after, leaves, staying, List.filter_filter, Bool.not_or]
          simp only [Bool.and_comm]

/-- The watchers after a run from the empty board. -/
theorem watchers_run_empty (h : Run Step {} ls b') :
    b'.watchers = staying (ls.map Prod.fst) := by
  rw [watchers_run h]
  rfl

/-! ### What a watcher is told -/

omit [DecidableEq κ] in
/-- The calls of the watchers in `is`. -/
def heard (is : ω → Bool) (calls : List (Call κ ν ω)) : List (Call κ ν ω) :=
  calls.filter fun c => is c.watcher

omit [DecidableEq κ] in
/-- One watcher is told a list of keys and values. -/
def tells (w : ω) (l : List (κ × ν)) : List (Call κ ν ω) :=
  l.map fun e => ⟨w, e.1, e.2⟩

omit [DecidableEq κ] in
theorem heard_append (is : ω → Bool) (calls calls' : List (Call κ ν ω)) :
    heard is (calls ++ calls') = heard is calls ++ heard is calls' :=
  List.filter_append ..

omit [DecidableEq κ] in
theorem tells_append (w : ω) (l l' : List (κ × ν)) :
    tells w (l ++ l') = tells w l ++ tells w l' :=
  List.map_append

omit [DecidableEq κ] in
/-- An operation does not add one of the watchers in `is`. -/
def Keeps (is : ω → Bool) : Op κ ν ω → Prop
  | .set _ _ => True
  | .watch w => is w = false
  | .unwatch _ => True

omit [DecidableEq κ] in
theorem heard_set (b : Board κ ν ω) (k : κ) (v : ν) :
    heard is (b.watchers.map fun w => ⟨w, k, v⟩) =
      (b.watchers.filter is).map fun w => ⟨w, k, v⟩ := by
  rw [heard, List.filter_map]
  rfl

omit [DecidableEq κ] in
theorem heard_tells_self {l : List (κ × ν)} (hw : is w = true) :
    heard is (tells w l) = tells w l := by
  apply List.filter_eq_self.mpr
  intro c hc
  obtain ⟨e, -, rfl⟩ := List.mem_map.mp hc
  exact hw

omit [DecidableEq κ] in
theorem heard_tells_other {l : List (κ × ν)} (hw : is w = false) :
    heard is (tells w l) = [] := by
  apply List.filter_eq_nil_iff.mpr
  intro c hc
  obtain ⟨e, -, rfl⟩ := List.mem_map.mp hc
  simp [hw]

theorem filter_watch (b : Board κ ν ω) (w : ω) :
    (b.after (.watch w)).watchers.filter is =
      b.watchers.filter is ++ bif is w then [w] else [] := by
  rw [after, List.filter_append, List.filter_singleton]

theorem filter_unwatch (b : Board κ ν ω) (named : ω → Bool) :
    (b.after (.unwatch named)).watchers.filter is =
      (b.watchers.filter is).filter fun w => !named w := by
  rw [after, List.filter_comm]

/-- One step, for a watcher that is on the board or has left it. -/
theorem Step.heard (h : Step b (op, calls) b') (hop : Keeps is op)
    (hb : b.watchers.filter is = [w]) :
    (∃ named, op = .unwatch named ∧ named w ∧ Board.heard is calls = [] ∧
      b'.watchers.filter is = []) ∨
    (b'.watchers.filter is = [w] ∧
      ∀ ops, tells w (follow w (op :: ops)) =
        Board.heard is calls ++ tells w (follow w ops)) := by
  obtain ⟨hmakes, rfl⟩ := h.inv
  cases hmakes with
  | set k v =>
      rw [heard_set, hb]
      exact .inr ⟨hb, fun _ => rfl⟩
  | @watch w' l hl =>
      -- somebody else comes
      have hnone : Board.heard is (tells w' l) = [] := heard_tells_other hop
      refine .inr ⟨?_, fun ops => ?_⟩
      · rw [filter_watch, hb, hop]
        rfl
      · show tells w (follow w ops) = Board.heard is (tells w' l) ++ tells w (follow w ops)
        rw [hnone, List.nil_append]
  | unwatch named =>
      cases hw : named w with
      | true =>
          refine .inl ⟨named, rfl, hw, rfl, ?_⟩
          rw [filter_unwatch, hb, List.filter_singleton, hw]
          rfl
      | false =>
          refine .inr ⟨?_, fun ops => ?_⟩
          · rw [filter_unwatch, hb, List.filter_singleton, hw]
            rfl
          · rw [follow, if_neg (by simp [hw])]
            rfl

/-- Nobody in `is` watches, so nobody in `is` is told anything. -/
theorem heard_nothing (h : Run Step b ls b') (hls : ∀ l ∈ ls, Keeps is l.1)
    (hb : b.watchers.filter is = []) :
    heard is (ls.flatMap Prod.snd) = [] ∧ b'.watchers.filter is = [] := by
  induction h with
  | nil => exact ⟨rfl, hb⟩
  | @cons b b₁ b' l ls hstep _ ih =>
      rw [List.flatMap_cons, heard_append]
      have hl := hls _ List.mem_cons_self
      obtain ⟨op, calls⟩ := l
      obtain ⟨hmakes, rfl⟩ := hstep.inv
      have hhead : heard is calls = [] ∧ (b.after op).watchers.filter is = [] := by
        cases hmakes with
        | set k v =>
            rw [heard_set, hb]
            exact ⟨rfl, hb⟩
        | watch w hlist =>
            refine ⟨heard_tells_other hl, ?_⟩
            rw [filter_watch, hb, show is w = false from hl]
            rfl
        | unwatch named =>
            refine ⟨rfl, ?_⟩
            rw [filter_unwatch, hb]
            rfl
      obtain ⟨hheard, hb'⟩ := ih (fun l hl => hls l (List.mem_cons_of_mem _ hl)) hhead.2
      exact ⟨by rw [hhead.1, hheard]; rfl, hb'⟩

/-- A watcher is told each `set` until it leaves. -/
theorem heard_follow (h : Run Step b ls b') (hls : ∀ l ∈ ls, Keeps is l.1)
    (hb : b.watchers.filter is = [w]) :
    heard is (ls.flatMap Prod.snd) = tells w (follow w (ls.map Prod.fst)) := by
  induction h with
  | nil => rfl
  | @cons b b₁ b' l ls hstep hrest ih =>
      obtain ⟨op, calls⟩ := l
      rw [List.flatMap_cons, heard_append, List.map_cons]
      have hls' : ∀ l ∈ ls, Keeps is l.1 := fun l hl => hls l (List.mem_cons_of_mem _ hl)
      rcases hstep.heard (hls _ List.mem_cons_self) hb with
        ⟨named, rfl, hnamed, hcalls, hb₁⟩ | ⟨hb₁, hfollow⟩
      -- the watcher left, and hears nothing any more
      · rw [hcalls, (heard_nothing hrest hls' hb₁).1, follow, if_pos hnamed]
        rfl
      · rw [ih hls' hb₁, hfollow]

/-- **What a watcher is told** from when it comes: everything that is on the
board, each key once, and then each `set` until it leaves. -/
theorem heard_run {b'' : Board κ ν ω} (hwatch : Step b (.watch w, calls) b')
    (hrun : Run Step b' ls b'')
    (hw : is w = true) (hb : b.watchers.filter is = [])
    (hls : ∀ l ∈ ls, Keeps is l.1) :
    ∃ l, Lists b.value l ∧ calls = tells w l ∧
      heard is (ls.flatMap Prod.snd) = tells w (follow w (ls.map Prod.fst)) := by
  obtain ⟨hmakes, rfl⟩ := hwatch.inv
  cases hmakes with
  | watch w hl =>
      have hb' : (b.after (.watch w)).watchers.filter is = [w] := by
        rw [filter_watch, hb, hw]
        rfl
      exact ⟨_, hl, rfl, heard_follow hrun hls hb'⟩

/-! ### The keys and values alone -/

omit [DecidableEq κ] in
theorem told_append (is : ω → Bool) (calls calls' : List (Call κ ν ω)) :
    told is (calls ++ calls') = told is calls ++ told is calls' := by
  simp [told]

omit [DecidableEq κ] in
theorem told_of_heard {l : List (κ × ν)} (h : heard is calls = tells w l) :
    told is calls = l := by
  show (heard is calls).map (fun c => (c.key, c.value)) = l
  rw [h, tells, List.map_map]
  exact List.map_id l

theorem told_nothing (h : Run Step b ls b') (hls : ∀ l ∈ ls, Keeps is l.1)
    (hb : b.watchers.filter is = []) :
    told is (ls.flatMap Prod.snd) = [] ∧ b'.watchers.filter is = [] := by
  obtain ⟨hheard, hb'⟩ := heard_nothing h hls hb
  refine ⟨?_, hb'⟩
  show (heard is (ls.flatMap Prod.snd)).map _ = []
  rw [hheard]
  rfl

theorem told_run {b'' : Board κ ν ω} (hwatch : Step b (.watch w, calls) b')
    (hrun : Run Step b' ls b'')
    (hw : is w = true) (hb : b.watchers.filter is = [])
    (hls : ∀ l ∈ ls, Keeps is l.1) :
    ∃ l, Lists b.value l ∧
      told is (calls ++ ls.flatMap Prod.snd) = l ++ follow w (ls.map Prod.fst) := by
  obtain ⟨l, hl, rfl, hheard⟩ := heard_run hwatch hrun hw hb hls
  refine ⟨l, hl, ?_⟩
  rw [told_append, told_of_heard hheard, told_of_heard (heard_tells_self hw)]

/-! ### One key of a board -/

/-- A list of what is on the board has the value of a key once. -/
theorem Lists.filter_key {value : κ → Option ν} {l : List (κ × ν)} (h : Lists value l) (k : κ) :
    l.filter (fun e => e.1 = k) = ((value k).map fun v => (k, v)).toList := by
  obtain ⟨hnodup, hmem⟩ := h
  rcases hv : value k with - | v
  · apply List.filter_eq_nil_iff.mpr
    rintro ⟨k', v⟩ he heq
    obtain rfl : k' = k := of_decide_eq_true heq
    cases hv.symm.trans ((hmem k' v).mp he)
  · obtain ⟨l₁, l₂, rfl⟩ := List.append_of_mem ((hmem k v).mpr hv)
    rw [List.map_append, List.map_cons] at hnodup
    -- no other entry of the list has the key
    have hout : k ∉ l₁.map Prod.fst ∧ k ∉ l₂.map Prod.fst := by
      have := List.nodup_middle.mp hnodup
      rw [List.nodup_cons, List.mem_append, not_or] at this
      exact this.1
    have hnone : ∀ {l : List (κ × ν)}, k ∉ l.map Prod.fst →
        l.filter (fun e => e.1 = k) = [] := by
      intro l hl
      apply List.filter_eq_nil_iff.mpr
      intro e he heq
      exact hl (of_decide_eq_true heq ▸ List.mem_map_of_mem he)
    rw [List.filter_append, hnone hout.1, List.filter_cons_of_pos (by simp), hnone hout.2]
    rfl

/-! ### Two boards with different keys -/

/-- Two boards have the same values under related keys, and related watchers. -/
structure Agree {κ' ω' : Type*} (R : κ → κ' → Prop) (S : ω → ω' → Prop)
    (b : Board κ ν ω) (b' : Board κ' ν ω') : Prop where
  value : ∀ k k', R k k' → b.value k = b'.value k'
  watchers : List.Forall₂ S b.watchers b'.watchers

section

variable {κ' ω' : Type*} [DecidableEq κ'] {R : κ → κ' → Prop} {S : ω → ω' → Prop}
variable {c : Board κ' ν ω'}

omit [DecidableEq κ] [DecidableEq κ'] in
theorem agree_empty : Agree R S ({} : Board κ ν ω) ({} : Board κ' ν ω') :=
  ⟨fun _ _ _ => rfl, .nil⟩

theorem Agree.set (hR : Relator.BiUnique R) (h : Agree R S b c) {k : κ} {k' : κ'}
    (hk : R k k') (v : ν) : Agree R S (b.after (.set k v)) (c.after (.set k' v)) := by
  refine ⟨fun l l' hl => ?_, h.watchers⟩
  show Function.update b.value k (some v) l = Function.update c.value k' (some v) l'
  -- one of the two keys is the one that is set exactly if the other is
  have heq : l = k ↔ l' = k' := Relator.rel_eq hR hl hk
  by_cases hlk : l = k
  · rw [hlk, heq.mp hlk, Function.update_self, Function.update_self]
  · rw [Function.update_of_ne hlk, Function.update_of_ne (fun h => hlk (heq.mpr h))]
    exact h.value l l' hl

theorem Agree.watch (h : Agree R S b c) {w : ω} {w' : ω'} (hw : S w w') :
    Agree R S (b.after (.watch w)) (c.after (.watch w')) :=
  ⟨h.value, List.rel_append h.watchers (.cons hw .nil)⟩

theorem Agree.unwatch (h : Agree R S b c) {named : ω → Bool} {named' : ω' → Bool}
    (hnamed : ∀ w w', S w w' → named w = named' w') :
    Agree R S (b.after (.unwatch named)) (c.after (.unwatch named')) := by
  refine ⟨h.value, List.rel_filter ?_ h.watchers⟩
  intro w w' hw
  show (!named w) = true ↔ (!named' w') = true
  rw [hnamed w w' hw]

end

end Board

end Gnat.Lib
