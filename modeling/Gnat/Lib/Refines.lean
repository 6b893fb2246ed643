/-
Gnat/Lib/Refines.lean

Programs that do the same as others until they stop.

`Refines U x y` says that `x` does what `y` does, or stops with a fault in `U`:
`x` is `y` with checks added to it.  So whatever `x` returns `y` returns, and `x`
returns what `y` returns unless a check fails.  A computation without state has the
same notion (`StopsOr`), and the rules below carry it through the ways to compose
programs.
-/
import Gnat.Lib.Prog

namespace Gnat.Lib.Prog

variable {ε σ α β : Type} {U : ε → Prop}

/-! ### Results -/

/-- The result is `r'`, or a fault in `U`. -/
def StopsOr (U : ε → Prop) (r r' : Except ε α) : Prop :=
  r = r' ∨ ∃ e, U e ∧ r = .error e

theorem StopsOr.refl (r : Except ε α) : StopsOr U r r := .inl rfl

theorem StopsOr.bind {r r' : Except ε α} {f f' : α → Except ε β} (h : StopsOr U r r')
    (hf : ∀ a, StopsOr U (f a) (f' a)) : StopsOr U (r >>= f) (r' >>= f') := by
  rcases h with rfl | ⟨e, he, rfl⟩
  · rcases r with e | a
    · exact .refl _
    · exact hf a
  · exact .inr ⟨e, he, rfl⟩

theorem StopsOr.foldlM {γ : Type} {f f' : α → γ → Except ε α}
    (h : ∀ a c, StopsOr U (f a c) (f' a c)) (l : List γ) (a : α) :
    StopsOr U (l.foldlM f a) (l.foldlM f' a) := by
  induction l generalizing a with
  | nil => exact .refl _
  | cons c l ih =>
      rw [List.foldlM_cons, List.foldlM_cons]
      exact (h a c).bind ih

/-! ### Programs -/

/-- `x` does what `y` does, or stops with a fault in `U`. -/
def Refines (U : ε → Prop) (x y : Prog ε σ α) : Prop :=
  ∀ s, StopsOr U (x s) (y s)

variable {x y : Prog ε σ α} {f g : α → Prog ε σ β} {s : σ}

theorem Refines.refl (x : Prog ε σ α) : Refines U x x := fun _ => .refl _

theorem refines_ofExcept {r r' : Except ε α} (h : StopsOr U r r') :
    Refines U (ofExcept r : Prog ε σ α) (ofExcept r') := by
  intro s
  rcases h with rfl | ⟨e, he, rfl⟩
  · exact .refl _
  · exact .inr ⟨e, he, rfl⟩

theorem Refines.bind (h : Refines U x y) (hf : ∀ a, Refines U (f a) (g a)) :
    Refines U (x >>= f) (y >>= g) := by
  intro s
  rcases h s with hs | ⟨e, he, hs⟩
  · rcases hy : y s with e | ⟨a, s'⟩
    · exact .inl ((bind_of_error (hs.trans hy)).trans (bind_of_error hy).symm)
    · rw [bind_of_ok (hs.trans hy), bind_of_ok hy]
      exact hf a s'
  · exact .inr ⟨e, he, bind_of_error hs⟩

/-- Two programs that start alike. -/
theorem Refines.bind_right (x : Prog ε σ α) (hf : ∀ a, Refines U (f a) (g a)) :
    Refines U (x >>= f) (x >>= g) :=
  (Refines.refl x).bind hf

theorem Refines.ite {c : Prop} [Decidable c] {x' y' : Prog ε σ α} (h : Refines U x y)
    (h' : Refines U x' y') : Refines U (if c then x else x') (if c then y else y') := by
  split
  · exact h
  · exact h'

end Gnat.Lib.Prog
