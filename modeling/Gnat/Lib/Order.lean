/-
Gnat/Lib/Order.lean

Lists that are told apart by their order only, and only across classes.

`SameBy f l l'` says that the elements of each class of `f` stand in the same order in
both lists.  Such lists are permutations of each other (`SameBy.perm`), and they stay
alike when they are appended, filtered or mapped.  A board tells a new watcher the values
in some order; two boards that do the same tell alike, key by key (`Board.Step.sameBy`).
-/
import Gnat.Lib.Board

namespace Gnat.Lib

variable {α β γ δ : Type*} [DecidableEq β] [DecidableEq δ]

/-- The elements with the same `f` are the same, in the same order. -/
def SameBy (f : α → β) (l l' : List α) : Prop :=
  ∀ k, l.filter (fun a => f a = k) = l'.filter (fun a => f a = k)

namespace SameBy

variable {f : α → β} {l l₁ l₂ l' l₁' l₂' : List α}

theorem refl (f : α → β) (l : List α) : SameBy f l l := fun _ => rfl

theorem append (h₁ : SameBy f l₁ l₁') (h₂ : SameBy f l₂ l₂') :
    SameBy f (l₁ ++ l₂) (l₁' ++ l₂') := by
  intro k
  rw [List.filter_append, List.filter_append, h₁ k, h₂ k]

theorem filter (h : SameBy f l l') (p : α → Bool) : SameBy f (l.filter p) (l'.filter p) := by
  intro k
  rw [List.filter_comm, h k, List.filter_comm]

/-- The classes of the images are those of the elements. -/
theorem map (h : SameBy f l l') {g : α → γ} {f' : γ → δ} {φ : β → δ}
    (hφ : Function.Injective φ) (hg : ∀ a, f' (g a) = φ (f a)) :
    SameBy f' (l.map g) (l'.map g) := by
  intro k
  rw [List.filter_map, List.filter_map]
  congr 1
  by_cases hk : ∃ j, φ j = k
  · obtain ⟨j, rfl⟩ := hk
    have hclass : ((fun c => decide (f' c = φ j)) ∘ g) = fun a => decide (f a = j) := by
      funext a
      apply decide_eq_decide.mpr
      rw [hg]
      exact hφ.eq_iff
    rw [hclass]
    exact h j
  · have hnone : ∀ l : List α, l.filter ((fun c => decide (f' c = k)) ∘ g) = [] := by
      intro l
      apply List.filter_eq_nil_iff.mpr
      intro a _ ha
      exact hk ⟨f a, (hg a).symm.trans (of_decide_eq_true ha)⟩
    rw [hnone, hnone]

/-- Alike lists are permutations of each other. -/
theorem perm [DecidableEq α] (h : SameBy f l l') : l.Perm l' := by
  apply List.perm_iff_count.mpr
  intro a
  have hclass : ∀ l : List α, (l.filter fun b => f b = f a).count a = l.count a :=
    fun l => List.count_filter (decide_eq_true rfl)
  rw [← hclass l, ← hclass l', h (f a)]

end SameBy

namespace Board

variable {κ ν ω : Type*} [DecidableEq κ]

/-- Two lists of what is on a board are alike. -/
theorem Lists.sameBy {value : κ → Option ν} {l l' : List (κ × ν)} (h : Lists value l)
    (h' : Lists value l') : SameBy Prod.fst l l' := by
  intro k
  rw [h.filter_key, h'.filter_key]

/-- An operation has one outcome, and its calls are alike for each key. -/
theorem Step.sameBy {b b' b'' : Board κ ν ω} {op : Op κ ν ω} {calls calls' : List (Call κ ν ω)}
    (h : Step b (op, calls) b') (h' : Step b (op, calls') b'') :
    b' = b'' ∧ SameBy Call.key calls calls' := by
  obtain ⟨hmakes, rfl⟩ := h.inv
  obtain ⟨hmakes', rfl⟩ := h'.inv
  refine ⟨rfl, ?_⟩
  cases hmakes with
  | set k v =>
      cases hmakes'
      exact .refl _ _
  | watch w hl =>
      cases hmakes' with
      | watch _ hl' => exact (hl.sameBy hl').map Function.injective_id fun _ => rfl
  | unwatch named =>
      cases hmakes'
      exact .refl _ _

end Board

end Gnat.Lib
