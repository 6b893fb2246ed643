/-
Gnat/Lib/Latest.lean

Watchers are told the latest.

A watcher that is on the board was told, for each key, what is on the board now,
and nothing else of that key afterwards (`told_latest`).  To speak of one watcher
the watchers need names, no two of them the same one; a name may be used again by
nobody, not even after its watcher left.
-/
import Gnat.Lib.Board

namespace Gnat.Lib.Board

variable {κ ν ω ι : Type*} [DecidableEq κ] [DecidableEq ι]

/-- The last value a list has for a key. -/
def lastOf (k : κ) (l : List (κ × ν)) : Option ν :=
  ((l.filter fun e => e.1 = k).getLast?).map Prod.snd

/-- The watchers that came, whether they left or not. -/
def came : List (Op κ ν ω) → List ω
  | [] => []
  | .set _ _ :: ops => came ops
  | .watch w :: ops => w :: came ops
  | .unwatch _ :: ops => came ops

omit [DecidableEq κ] in
theorem came_append (ops ops' : List (Op κ ν ω)) : came (ops ++ ops') = came ops ++ came ops' := by
  induction ops with
  | nil => rfl
  | cons op ops ih =>
      cases op with
      | watch w => rw [List.cons_append, came, ih, came, List.cons_append]
      | set | unwatch => exact ih

/-- Those with the name of a watcher. -/
def named (name : ω → ι) (w : ω) (w' : ω) : Bool :=
  name w' = name w

/-! ### Last values -/

theorem lastOf_append_singleton (l : List (κ × ν)) (k k' : κ) (v : ν) :
    lastOf k (l ++ [(k', v)]) = if k' = k then some v else lastOf k l := by
  rw [lastOf, List.filter_append, List.filter_singleton]
  split
  · next h => simp [h]
  · next h => simp [h, lastOf]

/-- A list of what is on the board has what is on the board last. -/
theorem Lists.lastOf_eq {value : κ → Option ν} {l : List (κ × ν)} (h : Lists value l) (k : κ) :
    lastOf k l = value k := by
  rw [lastOf, h.filter_key]
  cases value k <;> rfl

/-! ### One step -/

variable {name : ω → ι} {b b' : Board κ ν ω} {op : Op κ ν ω} {calls : List (Call κ ν ω)}
variable {ls : List (Op κ ν ω × List (Call κ ν ω))}

/-- Who is told anything is watching afterwards. -/
theorem Step.watcher_mem (h : Step b (op, calls) b') : ∀ c ∈ calls, c.watcher ∈ b'.watchers := by
  obtain ⟨hmakes, rfl⟩ := h.inv
  intro c hc
  cases hmakes with
  | set k v =>
      obtain ⟨w, hw, rfl⟩ := List.mem_map.mp hc
      exact hw
  | watch w hl =>
      obtain ⟨e, -, rfl⟩ := List.mem_map.mp hc
      exact List.mem_append_right _ List.mem_cons_self
  | unwatch => cases hc

omit [DecidableEq ι] in
/-- What anybody is told is on the board afterwards. -/
theorem Step.call_value (h : Step b (op, calls) b') :
    ∀ c ∈ calls, b'.value c.key = some c.value := by
  obtain ⟨hmakes, rfl⟩ := h.inv
  intro c hc
  cases hmakes with
  | set k v =>
      obtain ⟨w, -, rfl⟩ := List.mem_map.mp hc
      exact Function.update_self ..
  | watch w hl =>
      obtain ⟨⟨k, v⟩, he, rfl⟩ := List.mem_map.mp hc
      exact (hl.2 k v).mp he
  | unwatch => cases hc

omit [DecidableEq ι] in
/-- What is on the board was set, or was there before. -/
theorem Step.value_set (h : Step b (op, calls) b') {k : κ} {v : ν} (hv : b'.value k = some v) :
    op = .set k v ∨ b.value k = some v := by
  obtain ⟨-, rfl⟩ := h.inv
  cases op with
  | set k' v' =>
      have hv : Function.update b.value k' (some v') k = some v := hv
      rcases eq_or_ne k k' with rfl | hne
      · rw [Function.update_self] at hv
        exact .inl (by rw [Option.some.inj hv])
      · rw [Function.update_of_ne hne] at hv
        exact .inr hv
  | watch | unwatch => exact .inr hv

omit [DecidableEq ι] in
/-- What anybody is told was set, or was there before. -/
theorem told_set (h : Run Step b ls b') :
    ∀ c ∈ ls.flatMap Prod.snd,
      .set c.key c.value ∈ ls.map Prod.fst ∨ b.value c.key = some c.value := by
  induction h with
  | nil => exact List.forall_mem_nil _
  | @cons b b₁ _ l ls hstep _ ih =>
      obtain ⟨op, calls⟩ := l
      intro c hc
      rcases List.mem_append.mp hc with hhead | hrest
      · obtain ⟨hmakes, -⟩ := hstep.inv
        cases hmakes with
        | set k v =>
            obtain ⟨w, -, rfl⟩ := List.mem_map.mp hhead
            exact .inl List.mem_cons_self
        | watch w hl =>
            obtain ⟨⟨k, v⟩, he, rfl⟩ := List.mem_map.mp hhead
            exact .inr ((hl.2 k v).mp he)
        | unwatch => cases hhead
      · rcases ih c hrest with hset | hvalue
        · exact .inl (List.mem_cons_of_mem _ hset)
        · rcases hstep.value_set hvalue with rfl | hvalue
          · exact .inl List.mem_cons_self
          · exact .inr hvalue

omit [DecidableEq κ] in
/-- Nobody of the name is told anything. -/
theorem told_named_nil {w : ω} (h : ∀ c ∈ calls, name c.watcher ≠ name w) :
    told (named name w) calls = [] := by
  rw [told, List.filter_eq_nil_iff.mpr, List.map_nil]
  exact fun c hc heq => h c hc (of_decide_eq_true heq)

omit [DecidableEq κ] in
/-- Among watchers with different names, one has the name of each. -/
theorem filter_named {ws : List ω} (hnodup : (ws.map name).Nodup) {w : ω} (hw : w ∈ ws) :
    ws.filter (named name w) = [w] := by
  obtain ⟨l₁, l₂, rfl⟩ := List.append_of_mem hw
  rw [List.map_append, List.map_cons, List.nodup_middle, List.nodup_cons, List.mem_append,
    not_or] at hnodup
  have hnone : ∀ {l : List ω}, name w ∉ l.map name → l.filter (named name w) = [] := by
    intro l hl
    refine List.filter_eq_nil_iff.mpr fun w' hw' heq => hl ?_
    exact of_decide_eq_true heq ▸ List.mem_map_of_mem hw'
  rw [List.filter_append, hnone hnodup.1.1, List.filter_cons_of_pos (by simp [named]),
    hnone hnodup.1.2, List.nil_append]

/-! ### Runs -/

/-- What a run has told so far, as the watchers see it. -/
structure UpToDate (name : ω → ι) (ls : List (Op κ ν ω × List (Call κ ν ω))) (b : Board κ ν ω) :
    Prop where
  /-- Whoever was told anything came. -/
  told_came : ∀ c ∈ ls.flatMap Prod.snd, c.watcher ∈ came (ls.map Prod.fst)
  watchers : b.watchers.Sublist (came (ls.map Prod.fst))
  latest : ∀ w ∈ b.watchers, ∀ k,
    lastOf k (told (named name w) (ls.flatMap Prod.snd)) = b.value k

omit [DecidableEq κ] in
theorem came_append_singleton (ls : List (Op κ ν ω × List (Call κ ν ω))) (op : Op κ ν ω)
    (calls : List (Call κ ν ω)) :
    came ((ls ++ [(op, calls)]).map Prod.fst) = came (ls.map Prod.fst) ++ came [op] := by
  rw [List.map_append, came_append]
  rfl

/-- Nobody is there who was not there before and did not come. -/
theorem after_sublist (b : Board κ ν ω) (op : Op κ ν ω) :
    (b.after op).watchers.Sublist (b.watchers ++ came [op]) := by
  cases op with
  | set k v => exact List.sublist_append_left _ _
  | watch w => exact List.Sublist.refl _
  | unwatch leaves => exact List.filter_sublist.trans (List.sublist_append_left _ _)

/-- What one operation tells a watcher that is there afterwards. -/
theorem UpToDate.latest_step (h : UpToDate name ls b) (hmakes : b.Makes op calls)
    (hnodup : ((came (ls.map Prod.fst) ++ came [op]).map name).Nodup) {w : ω}
    (hw : w ∈ (b.after op).watchers) (k : κ) :
    lastOf k (told (named name w) (ls.flatMap Prod.snd) ++ told (named name w) calls) =
      (b.after op).value k := by
  rw [List.map_append] at hnodup
  cases hmakes with
  | set k' v =>
      -- each watcher is told the value once
      have hnames : (b.watchers.map name).Nodup :=
        hnodup.of_append_left.sublist (h.watchers.map name)
      have htold : told (named name w) (b.watchers.map fun w => ⟨w, k', v⟩) = [(k', v)] := by
        have hheard : heard (named name w) (b.watchers.map fun w => ⟨w, k', v⟩) =
            (b.watchers.filter (named name w)).map fun w => ⟨w, k', v⟩ := heard_set b k' v
        rw [filter_named hnames hw] at hheard
        exact told_of_heard (w := w) (l := [(k', v)]) hheard
      rw [htold, lastOf_append_singleton, h.latest w hw]
      show _ = Function.update b.value k' (some v) k
      split
      · next hk => rw [hk, Function.update_self]
      · next hk => rw [Function.update_of_ne (Ne.symm hk)]
  | @watch w₀ l hl =>
      have hnew : ∀ w' ∈ came (ls.map Prod.fst), name w' ≠ name w₀ := by
        intro w' hw' heq
        refine List.disjoint_of_nodup_append hnodup (List.mem_map_of_mem hw') ?_
        rw [heq]
        exact List.mem_cons_self
      show lastOf k (_ ++ told (named name w) (tells w₀ l)) = b.value k
      rcases List.mem_append.mp hw with hold | hself
      -- the others are told nothing
      · have htold : told (named name w) (tells w₀ l) = [] := by
          apply told_named_nil
          intro c hc heq
          obtain ⟨e, -, rfl⟩ := List.mem_map.mp hc
          exact hnew w (h.watchers.subset hold) heq.symm
        rw [htold, List.append_nil]
        exact h.latest w hold k
      -- the new one is told everything, and nobody of its name was told anything
      · obtain rfl := List.mem_singleton.mp hself
        have hself : named name w w = true := decide_eq_true rfl
        rw [told_named_nil fun c hc => hnew _ (h.told_came c hc), List.nil_append,
          told_of_heard (heard_tells_self hself)]
        exact hl.lastOf_eq k
  | unwatch leaves =>
      rw [show told (named name w) ([] : List (Call κ ν ω)) = [] from rfl, List.append_nil]
      exact h.latest w (List.mem_filter.mp hw).1 k

theorem UpToDate.step (h : UpToDate name ls b) (hstep : Step b (op, calls) b')
    (hnodup : ((came (ls.map Prod.fst) ++ came [op]).map name).Nodup) :
    UpToDate name (ls ++ [(op, calls)]) b' := by
  have hcame := hstep.watcher_mem
  obtain ⟨hmakes, rfl⟩ := hstep.inv
  have hwatchers : (b.after op).watchers.Sublist
      (came ((ls ++ [(op, calls)]).map Prod.fst)) := by
    rw [came_append_singleton]
    exact (after_sublist b op).trans (h.watchers.append (List.Sublist.refl _))
  refine ⟨fun c hc => ?_, hwatchers, fun w hw k => ?_⟩
  · rw [List.flatMap_append, List.mem_append, List.flatMap_singleton] at hc
    rcases hc with hc | hc
    · rw [came_append_singleton]
      exact List.mem_append_left _ (h.told_came c hc)
    · exact hwatchers.subset (hcame c hc)
  · rw [List.flatMap_append, told_append, List.flatMap_singleton]
    exact h.latest_step hmakes hnodup hw k

/-- **A watcher that is there was told the latest**: of each key it was last told what is
on the board. -/
theorem told_latest (h : Run Step {} ls b) (hnodup : ((came (ls.map Prod.fst)).map name).Nodup) :
    UpToDate name ls b := by
  refine h.history (I := fun ls b =>
    ((came (ls.map Prod.fst)).map name).Nodup → UpToDate name ls b) ?_ ?_ hnodup
  · intro _
    exact ⟨List.forall_mem_nil _, List.nil_sublist _, fun w hw => by cases hw⟩
  · rintro ls b₁ ⟨op, calls⟩ b₂ - ih hstep hnodup
    rw [came_append_singleton] at hnodup
    refine (ih ?_).step hstep hnodup
    rw [List.map_append] at hnodup
    exact hnodup.of_append_left

end Gnat.Lib.Board
