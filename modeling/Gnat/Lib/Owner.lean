/-
Gnat/Lib/Owner.lean

Objects that are moved and destroyed, and a budget that one of them owns.

The objects of a program are numbered in the order they are made; one that was
destroyed is `none`.  `Owns share objects n owner` says that the object `owner` has
the whole of a budget `n` and every other object has nothing of it.  Using an object
takes its share off the budget (`Owns.use`), and a move hands the share on to a new
object (`Owns.hand_on`).
-/
import Mathlib

namespace Gnat.Lib

variable {α : Type*} {share : α → Nat} {objects : List (Option α)} {x y z : Option α}
variable {n owner i : Nat}

/-- What an object has, if it is not destroyed. -/
def shareOf (share : α → Nat) : Option α → Nat
  | some a => share a
  | none => 0

/-- The object with the number `owner` has `n`, and the others have nothing. -/
structure Owns (share : α → Nat) (objects : List (Option α)) (n owner : Nat) : Prop where
  all : ∃ x, objects[owner]? = some x ∧ shareOf share x = n
  nothing : ∀ i x, i ≠ owner → objects[i]? = some x → shareOf share x = 0

namespace Owns

theorem single (a : α) : Owns share [some a] (share a) 0 where
  all := ⟨some a, rfl, rfl⟩
  nothing i x hi hx := by
    obtain ⟨i, rfl⟩ := Nat.exists_eq_succ_of_ne_zero hi
    cases hx

theorem share_owner (h : Owns share objects n owner) (hx : objects[owner]? = some x) :
    shareOf share x = n := by
  obtain ⟨x', hx', hn⟩ := h.all
  rw [hx] at hx'
  obtain rfl := Option.some.inj hx'
  exact hn

theorem share_le (h : Owns share objects n owner) (hx : objects[i]? = some x) :
    shareOf share x ≤ n := by
  by_cases howner : i = owner
  · exact Nat.le_of_eq (h.share_owner (howner ▸ hx))
  · rw [h.nothing i x howner hx]
    exact Nat.zero_le n

/-- Nothing is left when every object is destroyed. -/
theorem eq_zero (h : Owns share objects n owner) (hgone : ∀ x ∈ objects, x = none) : n = 0 := by
  obtain ⟨x, hx, rfl⟩ := h.all
  rw [hgone x (List.mem_of_getElem? hx)]
  rfl

/-- Two objects with a share are one. -/
theorem unique {i j : Nat} {a b : α} (h : Owns share objects n owner)
    (hi : objects[i]? = some (some a)) (hj : objects[j]? = some (some b)) (ha : 0 < share a)
    (hb : 0 < share b) : i = j := by
  have howner : ∀ {k : Nat} {c : α}, objects[k]? = some (some c) → 0 < share c → k = owner := by
    intro k c hk hc
    by_contra hne
    exact Nat.ne_of_gt hc (h.nothing k _ hne hk)
  rw [howner hi ha, howner hj hb]

/-- What an object uses is taken off. -/
theorem use (h : Owns share objects n owner) (hx : objects[i]? = some x)
    (hle : shareOf share y ≤ shareOf share x) :
    Owns share (objects.set i y) (n - (shareOf share x - shareOf share y)) owner := by
  have hi : i < objects.length := (List.getElem?_eq_some_iff.mp hx).1
  by_cases howner : i = owner
  · subst howner
    have hn := h.share_owner hx
    constructor
    · refine ⟨y, List.getElem?_set_self hi, ?_⟩
      omega
    · intro j z hj hz
      rw [List.getElem?_set_ne (Ne.symm hj)] at hz
      exact h.nothing j z hj hz
  · have hzero := h.nothing i x howner hx
    constructor
    · obtain ⟨x', hx', hn⟩ := h.all
      refine ⟨x', (List.getElem?_set_ne howner).trans hx', ?_⟩
      omega
    · intro j z hj hz
      by_cases hij : i = j
      · subst hij
        rw [List.getElem?_set_self hi] at hz
        obtain rfl := Option.some.inj hz
        omega
      · rw [List.getElem?_set_ne hij] at hz
        exact h.nothing j z hj hz

/-- A new object with nothing changes nothing. -/
theorem append_nothing (h : Owns share objects n owner) (hz : shareOf share z = 0) :
    Owns share (objects ++ [z]) n owner := by
  constructor
  · obtain ⟨x, hx, hn⟩ := h.all
    have howner : owner < objects.length := (List.getElem?_eq_some_iff.mp hx).1
    exact ⟨x, (List.getElem?_append_left howner).trans hx, hn⟩
  · intro j x hj hx
    rw [List.getElem?_append] at hx
    split at hx
    · exact h.nothing j x hj hx
    · obtain rfl := List.mem_singleton.mp (List.mem_of_getElem? hx)
      exact hz

/-- When nothing is left, a new object may own something. -/
theorem append_owner (h : Owns share objects 0 owner) :
    Owns share (objects ++ [z]) (shareOf share z) objects.length := by
  constructor
  · exact ⟨z, List.getElem?_concat_length, rfl⟩
  · intro j x hj hx
    rw [List.getElem?_append] at hx
    split at hx
    · by_cases howner : j = owner
      · exact h.share_owner (howner ▸ hx)
      · exact h.nothing j x howner hx
    · rw [List.getElem?_eq_none (show 1 ≤ j - objects.length by omega)] at hx
      cases hx

/-- A share is handed on to a new object. -/
theorem hand_on (h : Owns share objects n owner) (hx : objects[i]? = some x)
    (hy : shareOf share y = 0) (hz : shareOf share z = shareOf share x) :
    ∃ owner', Owns share (objects.set i y ++ [z]) n owner' := by
  have hused := h.use (y := y) hx (hy ▸ Nat.zero_le _)
  rw [hy, Nat.sub_zero] at hused
  by_cases howner : i = owner
  · have hn := h.share_owner (howner ▸ hx)
    rw [hn, Nat.sub_self] at hused
    rw [hn] at hz
    exact ⟨_, hz ▸ hused.append_owner⟩
  · have hzero := h.nothing i x howner hx
    rw [hzero, Nat.sub_zero] at hused
    exact ⟨owner, hused.append_nothing (hz.trans hzero)⟩

end Owns

end Gnat.Lib
