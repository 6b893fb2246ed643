/-
Gnat/Lib/Reindex.lean

A board under other names.

The keys are renamed by a relation `N` that is one to one, where it relates them at
all; the values are seen through a function `f`, and the watchers stand for others by
a relation `R`.  As long as only keys with a name are set, every step of the board is
one of the renamed board, with the calls renamed (`Reindexes.step`).
-/
import Gnat.Lib.Board

namespace Gnat.Lib.Board

variable {κ κ' ν ν' ω ω' : Type*} {N : κ → κ' → Prop} {f : ν → ν'} {R : ω → ω' → Prop}

/-- `c` is `b` under other names. -/
structure Reindexes (N : κ → κ' → Prop) (f : ν → ν') (R : ω → ω' → Prop) (b : Board κ ν ω)
    (c : Board κ' ν' ω') : Prop where
  value : ∀ k k', N k k' → c.value k' = (b.value k).map f
  named : ∀ k v, b.value k = some v → ∃ k', N k k'
  known : ∀ k' v', c.value k' = some v' → ∃ k, N k k'
  watchers : List.Forall₂ R b.watchers c.watchers

/-- An operation under other names. -/
inductive Op.Reindexes (N : κ → κ' → Prop) (f : ν → ν') (R : ω → ω' → Prop) :
    Op κ ν ω → Op κ' ν' ω' → Prop
  | set {k : κ} {k' : κ'} (v : ν) : N k k' → Reindexes N f R (.set k v) (.set k' (f v))
  | watch {w : ω} {w' : ω'} : R w w' → Reindexes N f R (.watch w) (.watch w')
  | unwatch {leaves : ω → Bool} {leaves' : ω' → Bool} :
      (∀ w w', R w w' → leaves w = leaves' w') →
      Reindexes N f R (.unwatch leaves) (.unwatch leaves')

/-- A call under other names. -/
structure Call.Reindexes (N : κ → κ' → Prop) (f : ν → ν') (R : ω → ω' → Prop) (c : Call κ ν ω)
    (c' : Call κ' ν' ω') : Prop where
  watcher : R c.watcher c'.watcher
  key : N c.key c'.key
  value : c'.value = f c.value

/-- A key and its value under other names. -/
def Renames (N : κ → κ' → Prop) (f : ν → ν') (e : κ × ν) (e' : κ' × ν') : Prop :=
  N e.1 e'.1 ∧ e'.2 = f e.2

theorem reindexes_empty :
    Board.Reindexes N f R ({} : Board κ ν ω) ({} : Board κ' ν' ω') where
  value _ _ _ := rfl
  named := nofun
  known := nofun
  watchers := .nil

/-! ### Lists of what is on the board -/

/-- A list of keys that have names can be renamed. -/
theorem exists_renames {l : List (κ × ν)} (h : ∀ e ∈ l, ∃ k', N e.1 k') :
    ∃ l' : List (κ' × ν'), List.Forall₂ (Renames N f) l l' := by
  induction l with
  | nil => exact ⟨[], .nil⟩
  | cons e l ih =>
      obtain ⟨⟨k', hk'⟩, hrest⟩ := List.forall_mem_cons.mp h
      obtain ⟨l', hl'⟩ := ih hrest
      exact ⟨(k', f e.2) :: l', .cons ⟨hk', rfl⟩ hl'⟩

theorem forall₂_fst {l : List (κ × ν)} {l' : List (κ' × ν')}
    (h : List.Forall₂ (Renames N f) l l') :
    List.Forall₂ N (l.map Prod.fst) (l'.map Prod.fst) := by
  rw [List.forall₂_map_left_iff, List.forall₂_map_right_iff]
  exact h.imp fun _ _ hrenames => hrenames.1

theorem mem_of_renames {l : List (κ × ν)} {l' : List (κ' × ν')} {e' : κ' × ν'}
    (h : List.Forall₂ (Renames N f) l l') (he' : e' ∈ l') : ∃ e ∈ l, Renames N f e e' := by
  induction h with
  | nil => cases he'
  | @cons e _ l _ hhead _ ih =>
      rcases List.mem_cons.mp he' with rfl | he'
      · exact ⟨e, List.mem_cons_self, hhead⟩
      · obtain ⟨e, he, hrenames⟩ := ih he'
        exact ⟨e, List.mem_cons_of_mem _ he, hrenames⟩

theorem renames_of_mem {l : List (κ × ν)} {l' : List (κ' × ν')} {e : κ × ν}
    (h : List.Forall₂ (Renames N f) l l') (he : e ∈ l) : ∃ e' ∈ l', Renames N f e e' := by
  induction h with
  | nil => cases he
  | @cons _ e' _ l' hhead _ ih =>
      rcases List.mem_cons.mp he with rfl | he
      · exact ⟨e', List.mem_cons_self, hhead⟩
      · obtain ⟨e', he', hrenames⟩ := ih he
        exact ⟨e', List.mem_cons_of_mem _ he', hrenames⟩

section

variable {b b' : Board κ ν ω} {c : Board κ' ν' ω'}

/-- A list of what is on the board, renamed, lists what is on the renamed one. -/
theorem Reindexes.lists (hN : Relator.BiUnique N) (h : Board.Reindexes N f R b c)
    {l : List (κ × ν)} (hl : Lists b.value l) :
    ∃ l', Lists c.value l' ∧ List.Forall₂ (Renames N f) l l' := by
  obtain ⟨l', hl'⟩ := exists_renames (N := N) (f := f)
    fun e he => h.named e.1 e.2 ((hl.2 e.1 e.2).mp he)
  refine ⟨l', ⟨(List.rel_nodup hN (forall₂_fst hl')).mp hl.1, ?_⟩, hl'⟩
  intro k' v'
  constructor
  · intro hmem
    obtain ⟨⟨k, v⟩, he, hk, rfl⟩ := mem_of_renames hl' hmem
    rw [h.value k k' hk, (hl.2 k v).mp he]
    rfl
  · intro hvalue
    obtain ⟨k, hk⟩ := h.known k' v' hvalue
    rw [h.value k k' hk, Option.map_eq_some_iff] at hvalue
    obtain ⟨v, hv, rfl⟩ := hvalue
    obtain ⟨⟨k'', v''⟩, hmem, hk'', rfl⟩ := renames_of_mem hl' ((hl.2 k v).mpr hv)
    obtain rfl : k' = k'' := hN.2 hk hk''
    exact hmem

/-- Keys that have names are set alike. -/
theorem Reindexes.set [DecidableEq κ] [DecidableEq κ'] (hN : Relator.BiUnique N)
    (h : Board.Reindexes N f R b c) {k : κ} {k' : κ'} (hk : N k k') (v : ν) :
    Board.Reindexes N f R (b.after (.set k v)) (c.after (.set k' (f v))) where
  value l l' hl := by
    show Function.update c.value k' (some (f v)) l' =
      (Function.update b.value k (some v) l).map f
    by_cases hlk : l = k
    · have hlk' : l' = k' := (Relator.rel_eq hN hl hk).mp hlk
      rw [hlk, hlk', Function.update_self, Function.update_self]
      rfl
    · have hlk' : l' ≠ k' := fun heq => hlk ((Relator.rel_eq hN hl hk).mpr heq)
      rw [Function.update_of_ne hlk, Function.update_of_ne hlk']
      exact h.value l l' hl
  named l x hx := by
    by_cases hlk : l = k
    · exact ⟨k', hlk ▸ hk⟩
    · have hx : Function.update b.value k (some v) l = some x := hx
      rw [Function.update_of_ne hlk] at hx
      exact h.named l x hx
  known l' x hx := by
    by_cases hlk : l' = k'
    · exact ⟨k, hlk ▸ hk⟩
    · have hx : Function.update c.value k' (some (f v)) l' = some x := hx
      rw [Function.update_of_ne hlk] at hx
      exact h.known l' x hx
  watchers := h.watchers

/-- **A step under other names.** -/
theorem Reindexes.step [DecidableEq κ] [DecidableEq κ'] {op : Op κ ν ω} {op' : Op κ' ν' ω'}
    {calls : List (Call κ ν ω)} (hN : Relator.BiUnique N) (h : Board.Reindexes N f R b c)
    (hop : op.Reindexes N f R op') (hstep : b.Step (op, calls) b') :
    ∃ calls' c', c.Step (op', calls') c' ∧ Board.Reindexes N f R b' c' ∧
      List.Forall₂ (Call.Reindexes N f R) calls calls' := by
  obtain ⟨hmakes, rfl⟩ := hstep.inv
  cases hop with
  | @set k k' v hk =>
      cases hmakes with
      | set =>
          refine ⟨_, _, .mk (.set k' (f v)), h.set hN hk v, ?_⟩
          rw [List.forall₂_map_left_iff, List.forall₂_map_right_iff]
          exact h.watchers.imp fun w w' hw => ⟨hw, hk, rfl⟩
  | @watch w w' hw =>
      cases hmakes with
      | @watch _ l hl =>
          obtain ⟨l', hl', hrenames⟩ := h.lists hN hl
          refine ⟨_, _, .mk (.watch w' hl'), ⟨h.value, h.named, h.known, ?_⟩, ?_⟩
          · exact List.rel_append h.watchers (.cons hw .nil)
          · rw [List.forall₂_map_left_iff, List.forall₂_map_right_iff]
            exact hrenames.imp fun e e' he => ⟨hw, he.1, he.2⟩
  | unwatch hleaves =>
      cases hmakes with
      | unwatch =>
          refine ⟨_, _, .mk (.unwatch _), ⟨h.value, h.named, h.known, ?_⟩, .nil⟩
          apply List.rel_filter _ h.watchers
          intro w w' hw
          show (!_) = true ↔ (!_) = true
          rw [hleaves w w' hw]

end

end Gnat.Lib.Board
