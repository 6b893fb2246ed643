/-
Gnat/Lib/Prog.lean

Stateful programs that may stop with a fault, and their weakest
preconditions.

A program of type `Prog ε σ α` takes a state and either returns a value and
a new state, or stops with a fault.  `wp x Q E s` says what the run of `x`
from `s` must do: end in `Q` if it returns, stop with a fault in `E` if it
does not.  Because `wp` is an equation about the one run there is, each rule
is an equivalence; the two uses are

* `E := fun _ => False`: the program returns, with `Q` (total correctness);
* `E := fun _ => True`: if the program returns, then with `Q`.
-/
import Mathlib

namespace Gnat.Lib

/-- A program over the state `σ` that may stop with a fault of type `ε`. -/
abbrev Prog (ε σ : Type) := StateT σ (Except ε)

namespace Prog

variable {ε σ α β : Type}

/-- A computation without state as a program. -/
def ofExcept (x : Except ε α) : Prog ε σ α := fun s =>
  match x with
  | .ok a => .ok (a, s)
  | .error e => .error e

/-- Stop with `e` unless `c` holds. -/
def check (c : Prop) [Decidable c] (e : ε) : Prog ε σ Unit :=
  if c then pure () else throw e

/-! ### Weakest preconditions -/

/-- The run of `x` from `s` returns in `Q` or stops with a fault in `E`. -/
def wp (x : Prog ε σ α) (Q : α → σ → Prop) (E : ε → Prop) (s : σ) : Prop :=
  match x s with
  | .ok (a, s') => Q a s'
  | .error e => E e

variable {x : Prog ε σ α} {f : α → Prog ε σ β} {Q Q' : α → σ → Prop} {R : β → σ → Prop}
variable {E E' : ε → Prop} {s s' : σ} {a : α}

@[simp] theorem wp_pure : wp (pure a) Q E s ↔ Q a s := Iff.rfl

@[simp] theorem wp_bind :
    wp (x >>= f) R E s ↔ wp x (fun a s' => wp (f a) R E s') E s := by
  simp only [wp, bind, StateT.bind, Except.bind]
  rcases x s with e | ⟨a, s'⟩ <;> rfl

@[simp] theorem wp_ofExcept {y : Except ε α} :
    wp (ofExcept y) Q E s ↔ match y with
      | .ok a => Q a s
      | .error e => E e := by
  cases y <;> rfl

@[simp] theorem wp_check {c : Prop} [Decidable c] {e : ε} {Q : Unit → σ → Prop} :
    wp (check c e) Q E s ↔ if c then Q () s else E e := by
  unfold check
  split <;> rfl

theorem wp_ite {c : Prop} [Decidable c] {y : Prog ε σ α} :
    wp (if c then x else y) Q E s ↔ if c then wp x Q E s else wp y Q E s := by
  split <;> rfl

/-! ### Consequence -/

theorem wp_mono (h : wp x Q E s) (hQ : ∀ a s', Q a s' → Q' a s')
    (hE : ∀ e, E e → E' e) : wp x Q' E' s := by
  unfold wp at h ⊢
  split at h
  · exact hQ _ _ h
  · exact hE _ h

/-- Strengthen what a returning run ends in, the faults left as they are. -/
theorem wp_imp (h : wp x Q E s) (hQ : ∀ a s', Q a s' → Q' a s') : wp x Q' E s :=
  wp_mono h hQ fun _ he => he

theorem wp_congr (h : ∀ a s', Q a s' ↔ Q' a s') : wp x Q E s ↔ wp x Q' E s :=
  ⟨fun hx => wp_imp hx fun a s' => (h a s').mp, fun hx => wp_imp hx fun a s' => (h a s').mpr⟩

theorem wp_and (h : wp x Q E s) (h' : wp x Q' E s) :
    wp x (fun a s' => Q a s' ∧ Q' a s') E s := by
  rcases hx : x s with e | ⟨a, s'⟩ <;> simp only [wp, hx] at *
  · exact h
  · exact ⟨h, h'⟩

/-- What a program does when it returns may be assumed of every run. -/
theorem wp_and_left (h : wp x Q (fun _ => True) s) (h' : wp x Q' E s) :
    wp x (fun a s' => Q a s' ∧ Q' a s') E s := by
  rcases hx : x s with e | ⟨a, s'⟩ <;> simp only [wp, hx] at *
  · exact h'
  · exact ⟨h, h'⟩

/-! ### From runs to `wp` and back -/

theorem wp_of_ok (h : x s = .ok (a, s')) : wp x Q E s ↔ Q a s' := by
  simp only [wp, h]

theorem wp.ok (h : wp x Q E s) (hx : x s = .ok (a, s')) : Q a s' :=
  (wp_of_ok hx).mp h

/-- A run without a fault returns. -/
theorem wp.exists_ok (h : wp x Q (fun _ => False) s) :
    ∃ a s', x s = .ok (a, s') ∧ Q a s' := by
  unfold wp at h
  split at h
  · exact ⟨_, _, by assumption, h⟩
  · exact h.elim

/-- A run that returns, from a computed view of its result. -/
theorem exists_ok_of_map {γ : Type} {t : Except ε (α × σ)} {g : α × σ → γ} {c : γ}
    (h : t.map g = .ok c) : ∃ a s', t = .ok (a, s') ∧ g (a, s') = c := by
  rcases t with e | ⟨a, s'⟩
  · cases h
  · exact ⟨a, s', rfl, Except.ok.inj h⟩

/-- A run that stops, from a computed view of its result. -/
theorem error_of_map {γ : Type} {t : Except ε (α × σ)} {g : α × σ → γ} {e : ε}
    (h : t.map g = .error e) : t = .error e := by
  rcases t with e' | r
  · exact congrArg _ (Except.error.inj h)
  · cases h

/-- Two runs that return, one after the other. -/
theorem exists_ok_of_bind {γ : Type} {t : Except ε (α × σ)} {f : α × σ → Except ε γ}
    {c : γ} (h : (t >>= f) = .ok c) : ∃ a s', t = .ok (a, s') ∧ f (a, s') = .ok c := by
  rcases t with e | ⟨a, s'⟩
  · cases h
  · exact ⟨a, s', rfl, h⟩

/-- What a returning run gives is what the program computes. -/
theorem wp_returns : wp x (fun a s' => x s = .ok (a, s')) (fun _ => True) s := by
  rcases hx : x s with e | ⟨a, s'⟩ <;> simp [wp, hx]

/-- Never stopping with `e`, as a weakest precondition. -/
theorem ne_error_iff {e : ε} :
    x s ≠ .error e ↔ wp x (fun _ _ => True) (fun e' => e' ≠ e) s := by
  unfold wp
  split
  · next h => simp [h]
  · next h => simp [h]

/-! ### Running what follows -/

/-- What follows a run that returned. -/
theorem bind_of_ok (h : x s = .ok (a, s')) : (x >>= f) s = f a s' := by
  simp only [bind, StateT.bind, Except.bind, h]

/-- Nothing follows a run that stopped. -/
theorem bind_of_error {e : ε} (h : x s = .error e) : (x >>= f) s = .error e := by
  simp only [bind, StateT.bind, Except.bind, h]

/-- A program whose first part does not stop with `e` stops with it in what follows. -/
theorem bind_error_iff {e : ε} (h : x s ≠ .error e) :
    (x >>= f) s = .error e ↔ ∃ a s', x s = .ok (a, s') ∧ f a s' = .error e := by
  rcases hx : x s with e' | ⟨a, s'⟩
  · rw [bind_of_error hx]
    have hne : e' ≠ e := fun heq => h (heq ▸ hx)
    refine iff_of_false (by simpa using hne) ?_
    rintro ⟨_, _, ⟨⟩, -⟩
  · rw [bind_of_ok hx]
    refine ⟨fun herror => ⟨a, s', rfl, herror⟩, ?_⟩
    rintro ⟨_, _, ⟨⟩, herror⟩
    exact herror

theorem ofExcept_of_ok {y : Except ε α} (h : y = .ok a) :
    (ofExcept y : Prog ε σ α) s = .ok (a, s) := by
  rw [h]
  rfl

theorem ofExcept_of_error {y : Except ε α} {e : ε} (h : y = .error e) :
    (ofExcept y : Prog ε σ α) s = .error e := by
  rw [h]
  rfl

/-- A program that stops with `e`, or else goes on with what `P` says. -/
theorem ne_error_bind {e : ε} {fits C : Prop} {P : α → σ → Prop}
    (hover : ¬ fits → x s = .error e)
    (hfits : fits → ∃ a s', x s = .ok (a, s') ∧ P a s')
    (hf : ∀ a s', P a s' → (f a s' ≠ .error e ↔ C)) :
    (x >>= f) s ≠ .error e ↔ fits ∧ C := by
  by_cases h : fits
  · obtain ⟨a, s', hx, hP⟩ := hfits h
    rw [bind_of_ok hx, hf a s' hP]
    exact (and_iff_right h).symm
  · rw [bind_of_error (hover h)]
    exact ⟨fun hne => absurd rfl hne, fun hall => absurd hall.1 h⟩

/-- A program that returns does not stop with `e`. -/
theorem pure_ne_error {a : α} {e : ε} : (pure a : Prog ε σ α) s ≠ .error e := by
  intro h
  cases h

theorem ne_error_of_fits {e : ε} {fits : Prop} {P : α → σ → Prop}
    (hover : ¬ fits → x s = .error e)
    (hfits : fits → ∃ a s', x s = .ok (a, s') ∧ P a s') : x s ≠ .error e ↔ fits := by
  refine ⟨fun hne => by_contra fun h => hne (hover h), fun h => ?_⟩
  obtain ⟨a, s', hx, -⟩ := hfits h
  rw [hx]
  exact pure_ne_error

/-- What follows never stops with `e`. -/
theorem ne_error_bind_of_never {e : ε} (hf : ∀ a s', f a s' ≠ .error e) :
    (x >>= f) s ≠ .error e ↔ x s ≠ .error e := by
  rcases hx : x s with e' | ⟨a, s'⟩
  · rw [bind_of_error hx]
    exact Iff.of_eq (by simp)
  · rw [bind_of_ok hx]
    exact iff_of_true (hf a s') pure_ne_error

/-! ### Inverting a returning run -/

theorem bind_ok {t : β × σ} (h : (x >>= f) s = .ok t) :
    ∃ a s', x s = .ok (a, s') ∧ f a s' = .ok t := by
  simp only [bind, StateT.bind, Except.bind] at h
  split at h
  · cases h
  · next p hx => exact ⟨p.1, p.2, hx, h⟩

/-! ### Loops over a list -/

/-- Running a program for each element keeps what each single run keeps. -/
theorem wp_forM {γ : Type} {l : List γ} {g : γ → Prog ε σ PUnit} {I : σ → Prop}
    (h₀ : I s) (h : ∀ c ∈ l, ∀ s, I s → wp (g c) (fun _ s' => I s') E s) :
    wp (forM l g) (fun _ s' => I s') E s := by
  induction l generalizing s with
  | nil => exact h₀
  | cons c l ih =>
      rw [List.forM_cons, wp_bind]
      refine wp_imp (h c List.mem_cons_self s h₀) fun _ s' hs' => ?_
      exact ih hs' fun c' hc' => h c' (List.mem_cons_of_mem c hc')

/-! ### The faults a program can stop with -/

/-- Whatever state it starts in, the program stops with faults in `E` only. -/
def StopsOnly (x : Prog ε σ α) (E : ε → Prop) : Prop :=
  ∀ s, wp x (fun _ _ => True) E s

theorem stopsOnly_pure : StopsOnly (pure a : Prog ε σ α) E := fun _ => trivial

theorem stopsOnly_throw {e : ε} (h : E e) : StopsOnly (throw e : Prog ε σ α) E := fun _ => h

theorem stopsOnly_check {c : Prop} [Decidable c] {e : ε} (h : E e) :
    StopsOnly (check c e : Prog ε σ Unit) E := by
  intro s
  rw [wp_check]
  split
  · trivial
  · exact h

theorem stopsOnly_ofExcept {y : Except ε α} (h : ∀ e, y = .error e → E e) :
    StopsOnly (ofExcept y : Prog ε σ α) E := by
  intro s
  rw [wp_ofExcept]
  split
  · trivial
  · next e => exact h e rfl

theorem StopsOnly.bind (hx : StopsOnly x E) (hf : ∀ a, StopsOnly (f a) E) :
    StopsOnly (x >>= f) E := by
  intro s
  rw [wp_bind]
  exact wp_imp (hx s) fun a s' _ => hf a s'

theorem StopsOnly.ite {c : Prop} [Decidable c] {y : Prog ε σ α} (hx : c → StopsOnly x E)
    (hy : ¬ c → StopsOnly y E) : StopsOnly (if c then x else y) E := by
  split
  · next h => exact hx h
  · next h => exact hy h

theorem StopsOnly.forM {γ : Type} {l : List γ} {g : γ → Prog ε σ PUnit}
    (h : ∀ c ∈ l, StopsOnly (g c) E) : StopsOnly (forM l g) E := fun _ =>
  wp_forM (I := fun _ => True) trivial fun c hc s _ => h c hc s

/-- What follows a program may rely on what it gives. -/
theorem StopsOnly.bind_of {P : α → Prop} (hx : StopsOnly x E)
    (hP : ∀ s, wp x (fun a _ => P a) (fun _ => True) s) (hf : ∀ a, P a → StopsOnly (f a) E) :
    StopsOnly (x >>= f) E := by
  intro s
  rw [wp_bind]
  exact wp_imp (wp_and_left (hP s) (hx s)) fun a s' h => hf a h.1 s'

theorem StopsOnly.ne_error {e : ε} (h : StopsOnly x E) (he : ¬ E e) : x s ≠ .error e := by
  rw [ne_error_iff]
  exact wp_mono (h s) (fun _ _ _ => trivial) fun e' he' heq => he (heq ▸ he')

/-! ### When a program stops -/

/-- Whatever state it starts in, the program stops with `e` under the condition, and
returns otherwise. -/
def StopsIff (x : Prog ε σ α) (e : ε) (c : Prop) : Prop :=
  ∀ s, (c → x s = .error e) ∧ (¬ c → ∃ r, x s = .ok r)

section

variable {e : ε} {c : Prop}

theorem StopsIff.error_iff (h : StopsIff x e c) : x s = .error e ↔ c := by
  constructor
  · intro hx
    by_contra hc
    obtain ⟨r, hr⟩ := (h s).2 hc
    cases hr.symm.trans hx
  · exact (h s).1

theorem StopsIff.bind_pure (h : StopsIff x e c) (g : α → β) :
    StopsIff (x >>= fun a => pure (g a)) e c := by
  intro s
  refine ⟨fun hc => bind_of_error ((h s).1 hc), fun hc => ?_⟩
  obtain ⟨⟨a, s'⟩, hx⟩ := (h s).2 hc
  rw [bind_of_ok hx]
  exact ⟨_, rfl⟩

/-- A program that is run for each element stops at the first for which it does. -/
theorem StopsIff.forM {γ : Type} {P : γ → Prop} {l : List γ} {g : γ → Prog ε σ PUnit}
    (h : ∀ a, StopsIff (g a) e (P a)) : StopsIff (forM l g) e (∃ a ∈ l, P a) := by
  induction l with
  | nil =>
      intro s
      exact ⟨fun ⟨_, ha, _⟩ => absurd ha List.not_mem_nil, fun _ => ⟨_, rfl⟩⟩
  | cons a l ih =>
      intro s
      rw [List.forM_cons, List.exists_mem_cons_iff]
      by_cases ha : P a
      · exact ⟨fun _ => bind_of_error ((h a s).1 ha), fun hno => absurd (.inl ha) hno⟩
      · obtain ⟨⟨_, s'⟩, hx⟩ := (h a s).2 ha
        rw [bind_of_ok hx]
        refine ⟨fun hc => (ih s').1 (hc.resolve_left ha), fun hno => (ih s').2 fun hc => ?_⟩
        exact hno (.inr hc)

end

end Prog

end Gnat.Lib
