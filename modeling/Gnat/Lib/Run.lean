/-
Gnat/Lib/Run.lean

Runs of labelled transition systems.

`Run step s ls s'` says that the steps with the labels `ls` lead from `s` to
`s'`.  What every step keeps, every run keeps (`Run.invariant`); what only the
steps with certain labels keep is kept by the runs with only such labels
(`Run.invariant_of`).  What a step keeps of the state and of all labels so far
holds of a run by `Run.history`.
-/
import Mathlib

namespace Gnat.Lib

/-- The steps with the labels `ls`, in order, lead from `s` to `s'`. -/
inductive Run {σ ℓ : Type*} (step : σ → ℓ → σ → Prop) : σ → List ℓ → σ → Prop
  | nil {s : σ} : Run step s [] s
  | cons {s s₁ s' : σ} {l : ℓ} {ls : List ℓ} :
      step s l s₁ → Run step s₁ ls s' → Run step s (l :: ls) s'

namespace Run

variable {σ ℓ : Type*} {step : σ → ℓ → σ → Prop} {s s₁ s' : σ} {ls ls' : List ℓ}

/-- A run splits where its labels split. -/
theorem append_iff : Run step s (ls ++ ls') s' ↔ ∃ s₁, Run step s ls s₁ ∧ Run step s₁ ls' s' := by
  constructor
  · intro h
    induction ls generalizing s with
    | nil => exact ⟨s, .nil, h⟩
    | cons l ls ih =>
        cases h with
        | cons hs h =>
            obtain ⟨s₁, h₁, h₂⟩ := ih h
            exact ⟨s₁, .cons hs h₁, h₂⟩
  · rintro ⟨s₁, h₁, h₂⟩
    induction h₁ with
    | nil => exact h₂
    | cons hs _ ih => exact .cons hs (ih h₂)

/-- The step at a place in a run. -/
theorem step_at {i : Nat} {l : ℓ} (h : Run step s ls s') (hl : ls[i]? = some l) :
    ∃ s₁ s₂, Run step s (ls.take i) s₁ ∧ step s₁ l s₂ ∧ Run step s₂ (ls.drop (i + 1)) s' := by
  obtain ⟨hi, rfl⟩ := List.getElem?_eq_some_iff.mp hl
  rw [← List.take_append_drop i ls, List.drop_eq_getElem_cons hi] at h
  obtain ⟨s₁, h₁, h⟩ := append_iff.mp h
  cases h with
  | cons hs h₂ => exact ⟨s₁, _, h₁, hs, h₂⟩

/-- A run of steps of one kind is one of any kind they are. -/
theorem mono {step' : σ → ℓ → σ → Prop} (hstep : ∀ s l s', step s l s' → step' s l s')
    (h : Run step s ls s') : Run step' s ls s' := by
  induction h with
  | nil => exact .nil
  | cons hs _ ih => exact .cons (hstep _ _ _ hs) ih

/-- What the steps with labels in `L` keep, the runs with labels in `L` keep. -/
theorem invariant_of {L : ℓ → Prop} {I : σ → Prop}
    (hstep : ∀ s l s', L l → step s l s' → I s → I s') (h : Run step s ls s')
    (hL : ∀ l ∈ ls, L l) (hI : I s) : I s' := by
  induction h with
  | nil => exact hI
  | cons hs _ ih =>
      have hhead := hL _ List.mem_cons_self
      exact ih (fun l hl => hL l (List.mem_cons_of_mem _ hl)) (hstep _ _ _ hhead hs hI)

/-- What every step keeps, every run keeps. -/
theorem invariant {I : σ → Prop} (hstep : ∀ s l s', step s l s' → I s → I s')
    (h : Run step s ls s') (hI : I s) : I s' :=
  h.invariant_of (L := fun _ => True) (fun s l s' _ => hstep s l s') (fun _ _ => trivial) hI

/-- What holds at the start and is kept by one more step holds of every run and the
labels it leaves behind. -/
theorem history {I : List ℓ → σ → Prop} (h₀ : I [] s)
    (hstep : ∀ ls s₁ l s₂, Run step s ls s₁ → I ls s₁ → step s₁ l s₂ → I (ls ++ [l]) s₂)
    (h : Run step s ls s') : I ls s' := by
  induction ls using List.reverseRecOn generalizing s' with
  | nil =>
      cases h
      exact h₀
  | append_singleton ls l ih =>
      obtain ⟨s₁, h₁, h⟩ := append_iff.mp h
      cases h with
      | cons hl h =>
          cases h
          exact hstep ls s₁ l s' h₁ (ih h₁) hl

end Run

end Gnat.Lib
