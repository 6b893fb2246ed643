/-
Gnat/Parsers.lean

Rules for the parsers, whatever the network does.

A parser gets at its packet through `Packet::Read` only.  So what that call keeps
of packet and machine, every parser keeps (`ReadKeeps`); the parser of a SUBSCRIBE
does if its callback does as well, and there the property may speak of what the
callback captured.
-/
import Gnat.Reads

namespace Gnat

open Lib Prog

variable {W : Type} [Network W]

/-- `Packet::Read` keeps `J` of the packet and the machine. -/
def ReadKeeps (J : Packet → Machine W → Prop) : Prop :=
  ∀ p m size, J p m → wp (p.read size) (fun r m' => J r.2 m') (fun _ => True) m

section

variable {J : Packet → Machine W → Prop} {p : Packet} {m : Machine W}

theorem readString_keeps {size : Nat} (out : StringBuffer size) (hread : ReadKeeps J)
    (h : J p m) :
    wp (readString out p) (fun r m' => J r.2.2 m') (fun _ => True) m := by
  simp only [readString, wp_bind]
  refine wp_imp (hread p m 2 h) ?_
  rintro ⟨- | lengthRaw, p₁⟩ m₁ h₁
  · exact h₁
  simp only [readStringBytes, wp_ite, wp_pure]
  split
  · exact h₁
  · rw [wp_bind]
    refine wp_imp (hread p₁ m₁ _ h₁) ?_
    rintro ⟨- | src, p₂⟩ m₂ h₂ <;> exact h₂

theorem readBytesLoop_keeps (count : Nat) (out : List UInt8) (hread : ReadKeeps J)
    (h : J p m) :
    wp (readBytesLoop count out p) (fun r m' => J r.2 m') (fun _ => True) m := by
  induction count generalizing out p m with
  | zero => exact h
  | succ i ih =>
      simp only [readBytesLoop, wp_bind]
      refine wp_imp (hread p m 1 h) ?_
      rintro ⟨byte, p₁⟩ m₁ h₁
      exact ih _ h₁

theorem readUInt8_keeps (out : UInt8) (hread : ReadKeeps J) (h : J p m) :
    wp (readUInt8 out p) (fun r m' => J r.2.2 m') (fun _ => True) m := by
  simp only [readUInt8, readBytes, wp_bind, wp_pure]
  exact readBytesLoop_keeps 1 _ hread h

theorem readUInt16_keeps (out : UInt16) (hread : ReadKeeps J) (h : J p m) :
    wp (readUInt16 out p) (fun r m' => J r.2.2 m') (fun _ => True) m := by
  simp only [readUInt16, readBytes, wp_bind, wp_pure]
  exact readBytesLoop_keeps 2 _ hread h

theorem Connect.readFrom_keeps (target : Target) (hread : ReadKeeps J) (h : J p m) :
    wp (Connect.readFrom target p) (fun r m' => J r.2 m') (fun _ => True) m := by
  simp only [Connect.readFrom, wp_bind]
  refine wp_imp (readString_keeps _ hread h) ?_
  rintro ⟨- | -, name, p₁⟩ m₁ h₁
  · exact h₁
  rw [if_pos rfl, wp_bind]
  refine wp_imp (readUInt8_keeps _ hread h₁) ?_
  rintro ⟨- | -, level, p₂⟩ m₂ h₂
  · exact h₂
  rw [if_pos rfl, wp_bind]
  refine wp_imp (readUInt8_keeps _ hread h₂) ?_
  rintro ⟨- | -, flags, p₃⟩ m₃ h₃
  · exact h₃
  rw [if_pos rfl, wp_bind]
  refine wp_imp (readUInt16_keeps _ hread h₃) ?_
  rintro ⟨- | -, keepAlive, p₄⟩ m₄ h₄ <;> exact h₄

theorem Publish.readFrom_keeps (flags : UInt8) (hread : ReadKeeps J) (h : J p m) :
    wp (Publish.readFrom p flags) (fun r m' => J r.2 m') (fun _ => True) m := by
  simp only [Publish.readFrom, wp_bind]
  refine wp_imp (readString_keeps _ hread h) ?_
  rintro ⟨- | -, topic, p₁⟩ m₁ h₁
  · exact h₁
  rw [if_pos rfl]
  simp only [wp_ite, wp_pure]
  split
  · rw [wp_bind]
    refine wp_imp (readUInt16_keeps _ hread h₁) ?_
    rintro ⟨- | -, id, p₂⟩ m₂ h₂ <;> exact h₂
  · exact h₁

end

/-! ### The parser with a callback -/

section

variable {γ : Type} {callback : γ → List UInt8 → ServerM W (Bool × γ)}
variable {J : γ → Packet → Machine W → Prop}

/-- The callback keeps `J`, which may speak of what it captured. -/
def CallbackKeeps (callback : γ → List UInt8 → ServerM W (Bool × γ))
    (J : γ → Packet → Machine W → Prop) : Prop :=
  ∀ captured topic p m, J captured p m →
    wp (callback captured topic) (fun r m' => J r.2 p m') (fun _ => True) m

theorem Subscribe.readTopics_keeps (hread : ∀ captured, ReadKeeps (J captured))
    (hcb : CallbackKeeps callback J) (fuel : Nat) (topic : StringBuffer 128) {captured : γ}
    {p : Packet} {m : Machine W} (h : J captured p m) :
    wp (readTopics callback fuel topic captured p) (fun r m' => J r.2.1 r.2.2 m')
      (fun _ => True) m := by
  induction fuel generalizing topic captured p m with
  | zero =>
      rw [readTopics, wp_ite]
      split
      · trivial
      · exact h
  | succ fuel ih =>
      rw [readTopics, wp_ite]
      split
      swap
      · exact h
      simp only [wp_bind]
      refine wp_imp (readString_keeps topic (hread captured) h) ?_
      rintro ⟨- | -, topic₁, p₁⟩ m₁ h₁
      · exact h₁
      rw [if_pos rfl, wp_bind]
      refine wp_imp (hcb captured topic₁.bytes p₁ m₁ h₁) ?_
      rintro ⟨- | -, captured₂⟩ m₂ h₂
      · exact h₂
      rw [if_pos rfl, wp_bind]
      refine wp_imp (readUInt8_keeps _ (hread captured₂) h₂) ?_
      rintro ⟨- | -, flags, p₃⟩ m₃ h₃
      · exact h₃
      · exact ih topic₁ h₃

theorem Subscribe.readFrom_keeps (hread : ∀ captured, ReadKeeps (J captured))
    (hcb : CallbackKeeps callback J) {captured : γ} {p : Packet} {m : Machine W}
    (h : J captured p m) :
    wp (readFrom callback captured p) (fun r m' => J r.2.1 r.2.2 m') (fun _ => True) m := by
  simp only [readFrom, wp_bind]
  refine wp_imp (readUInt16_keeps _ (hread captured) h) ?_
  rintro ⟨- | -, packetId, p₁⟩ m₁ h₁
  · exact h₁
  rw [if_pos rfl, wp_bind]
  refine wp_imp (readTopics_keeps hread hcb _ _ h₁) ?_
  rintro ⟨- | -, captured₂, p₂⟩ m₂ h₂ <;> exact h₂

end

end Gnat
