/-
Gnat/Lib/VarInt.lean

Numbers in base 128, the least significant digit first: every byte but the
last has its top bit set.

A numeral need not be minimal, so `value` is defined on all byte lists and
`IsNumeral` says which of them are numerals.  `encode` gives the shortest
numeral of a number, which is the one without zeros at its end.
-/
import Mathlib

namespace Gnat.Lib.VarInt

/-- The number the digits stand for. -/
def value : List UInt8 → Nat
  | [] => 0
  | b :: l => b.toNat % 128 + 128 * value l

/-- Every byte but the last continues the numeral. -/
def IsNumeral : List UInt8 → Prop
  | [] => False
  | [b] => b.toNat < 128
  | b :: l => 128 ≤ b.toNat ∧ IsNumeral l

instance decidableIsNumeral : (l : List UInt8) → Decidable (IsNumeral l)
  | [] => isFalse id
  | [b] => inferInstanceAs (Decidable (b.toNat < 128))
  | b :: b' :: l =>
      have := decidableIsNumeral (b' :: l)
      inferInstanceAs (Decidable (128 ≤ b.toNat ∧ IsNumeral (b' :: l)))

theorem isNumeral_cons {b : UInt8} {l : List UInt8} (h : l ≠ []) :
    IsNumeral (b :: l) ↔ 128 ≤ b.toNat ∧ IsNumeral l := by
  cases l with
  | nil => exact absurd rfl h
  | cons b' l => exact Iff.rfl

/-- A numeral is a last digit, or a digit that continues and a numeral. -/
theorem IsNumeral.cases {l : List UInt8} (h : IsNumeral l) :
    (∃ b, l = [b] ∧ b.toNat < 128) ∨
      ∃ b l', l = b :: l' ∧ 128 ≤ b.toNat ∧ IsNumeral l' := by
  match l, h with
  | [b], h => exact .inl ⟨b, rfl, h⟩
  | b :: b' :: l', h => exact .inr ⟨b, b' :: l', rfl, h.1, h.2⟩

theorem value_lt (l : List UInt8) : value l < 128 ^ l.length := by
  induction l with
  | nil => simp [value]
  | cons b l ih =>
      rw [value, List.length_cons, Nat.pow_succ]
      omega

/-! ### Numerals and their last digit -/

/-- The place values of the digits. -/
theorem value_eq_sum (l : List UInt8) :
    value l = ∑ i : Fin l.length, l[i].toNat % 128 * 128 ^ (i : Nat) := by
  induction l with
  | nil => rfl
  | cons b l ih =>
      have hrest : 128 * value l =
          ∑ i : Fin l.length, l[i].toNat % 128 * 128 ^ ((i : Nat) + 1) := by
        rw [ih, Finset.mul_sum]
        apply Finset.sum_congr rfl
        intro i _
        rw [Nat.pow_succ]
        ring
      show b.toNat % 128 + 128 * value l =
        ∑ i : Fin (l.length + 1), (b :: l)[i].toNat % 128 * 128 ^ (i : Nat)
      rw [Fin.sum_univ_succ, hrest]
      simp

theorem value_append (front l : List UInt8) :
    value (front ++ l) = value front + 128 ^ front.length * value l := by
  induction front with
  | nil => simp [value]
  | cons b front ih =>
      rw [List.cons_append, value, ih, value, List.length_cons, Nat.pow_succ]
      ring

/-- Digits that continue and a last one are a numeral. -/
theorem isNumeral_append {front : List UInt8} {b : UInt8}
    (hfront : ∀ c ∈ front, 128 ≤ c.toNat) (hb : b.toNat < 128) :
    IsNumeral (front ++ [b]) := by
  induction front with
  | nil => exact hb
  | cons c front ih =>
      apply (isNumeral_cons (by simp)).mpr
      exact ⟨hfront c List.mem_cons_self, ih fun d hd => hfront d (List.mem_cons_of_mem c hd)⟩

/-- All bytes continue, or there is a first one that does not. -/
theorem exists_last (l : List UInt8) :
    (∀ c ∈ l, 128 ≤ c.toNat) ∨ ∃ front b rest, l = front ++ b :: rest ∧
      (∀ c ∈ front, 128 ≤ c.toNat) ∧ b.toNat < 128 := by
  induction l with
  | nil => exact .inl (List.forall_mem_nil _)
  | cons c l ih =>
      rcases Nat.lt_or_ge c.toNat 128 with hlt | hge
      · exact .inr ⟨[], c, l, rfl, List.forall_mem_nil _, hlt⟩
      rcases ih with hall | ⟨front, b, rest, rfl, hfront, hb⟩
      · exact .inl (List.forall_mem_cons.mpr ⟨hge, hall⟩)
      · exact .inr ⟨c :: front, b, rest, rfl, List.forall_mem_cons.mpr ⟨hge, hfront⟩, hb⟩

/-! ### The shortest numeral -/

/-- The shortest numeral of a number. -/
def encode (n : Nat) : List UInt8 :=
  if n < 128 then [UInt8.ofNat n]
  else UInt8.ofNat (n % 128 + 128) :: encode (n / 128)

theorem encode_of_lt {n : Nat} (h : n < 128) : encode n = [UInt8.ofNat n] := by
  rw [encode, if_pos h]

theorem encode_of_le {n : Nat} (h : 128 ≤ n) :
    encode n = UInt8.ofNat (n % 128 + 128) :: encode (n / 128) := by
  rw [encode, if_neg (by omega)]

theorem encode_ne_nil (n : Nat) : encode n ≠ [] := by
  rw [encode]
  split <;> simp

theorem toNat_ofNat_of_lt {n : Nat} (h : n < 256) : (UInt8.ofNat n).toNat = n := by
  rw [UInt8.toNat_ofNat']
  exact Nat.mod_eq_of_lt h

theorem value_encode (n : Nat) : value (encode n) = n := by
  induction n using Nat.strongRecOn with
  | ind n ih =>
      rcases Nat.lt_or_ge n 128 with h | h
      · rw [encode_of_lt h, value, value, toNat_ofNat_of_lt (by omega)]
        omega
      · rw [encode_of_le h, value, ih (n / 128) (by omega), toNat_ofNat_of_lt (by omega)]
        omega

theorem isNumeral_encode (n : Nat) : IsNumeral (encode n) := by
  induction n using Nat.strongRecOn with
  | ind n ih =>
      rcases Nat.lt_or_ge n 128 with h | h
      · rw [encode_of_lt h, IsNumeral, toNat_ofNat_of_lt (by omega)]
        exact h
      · rw [encode_of_le h, isNumeral_cons (encode_ne_nil _), toNat_ofNat_of_lt (by omega)]
        exact ⟨by omega, ih (n / 128) (by omega)⟩

theorem length_encode_le {k : Nat} : ∀ {n : Nat}, n < 128 ^ (k + 1) →
    (encode n).length ≤ k + 1 := by
  induction k with
  | zero =>
      intro n h
      rw [encode_of_lt (by simpa using h)]
      simp
  | succ k ih =>
      intro n h
      rcases Nat.lt_or_ge n 128 with h' | h'
      · rw [encode_of_lt h']
        simp
      · rw [encode_of_le h', List.length_cons]
        have hdiv : n / 128 < 128 ^ (k + 1) := by
          rw [Nat.div_lt_iff_lt_mul (by decide)]
          rwa [Nat.pow_succ 128 (k + 1)] at h
        have := ih hdiv
        omega

/-- No numeral of a number is shorter than `encode`'s. -/
theorem length_encode_value_le {l : List UInt8} (h : IsNumeral l) :
    (encode (value l)).length ≤ l.length := by
  have hlt := value_lt l
  cases l with
  | nil => exact h.elim
  | cons b l => exact length_encode_le hlt

/-- The shortest numeral of a positive number does not end in a zero. -/
theorem getLast?_encode {n : Nat} (h : 0 < n) : (encode n).getLast? ≠ some 0 := by
  induction n using Nat.strongRecOn with
  | ind n ih =>
      rcases Nat.lt_or_ge n 128 with hlt | hge
      · rw [encode_of_lt hlt, List.getLast?_singleton]
        intro hzero
        have hnat := congrArg UInt8.toNat (Option.some.inj hzero)
        rw [toNat_ofNat_of_lt (by omega)] at hnat
        exact absurd hnat (Nat.ne_of_gt h)
      · obtain ⟨b, l, hl⟩ := List.exists_cons_of_ne_nil (encode_ne_nil (n / 128))
        have hrest := ih (n / 128) (by omega) (by omega)
        rw [encode_of_le hge, hl, List.getLast?_cons_cons, ← hl]
        exact hrest

/-- Numerals are told apart by the bytes they start with. -/
theorem encode_append_inj {n m : Nat} {l l' : List UInt8} (h : encode n ++ l = encode m ++ l') :
    n = m ∧ l = l' := by
  induction n using Nat.strongRecOn generalizing m with
  | ind n ih =>
      rcases Nat.lt_or_ge n 128 with hn | hn
      · rcases Nat.lt_or_ge m 128 with hm | hm
        · rw [encode_of_lt hn, encode_of_lt hm] at h
          obtain ⟨hdigit, hrest⟩ := List.cons.inj h
          have hnat := congrArg UInt8.toNat hdigit
          rw [toNat_ofNat_of_lt (by omega), toNat_ofNat_of_lt (by omega)] at hnat
          exact ⟨hnat, hrest⟩
        · -- a last digit is not one that continues
          rw [encode_of_lt hn, encode_of_le hm] at h
          have hnat := congrArg UInt8.toNat (List.cons.inj h).1
          rw [toNat_ofNat_of_lt (by omega), toNat_ofNat_of_lt (by omega)] at hnat
          omega
      · rcases Nat.lt_or_ge m 128 with hm | hm
        · rw [encode_of_le hn, encode_of_lt hm] at h
          have hnat := congrArg UInt8.toNat (List.cons.inj h).1
          rw [toNat_ofNat_of_lt (by omega), toNat_ofNat_of_lt (by omega)] at hnat
          omega
        · rw [encode_of_le hn, encode_of_le hm] at h
          obtain ⟨hdigit, hrest⟩ := List.cons.inj h
          have hnat := congrArg UInt8.toNat hdigit
          rw [toNat_ofNat_of_lt (by omega), toNat_ofNat_of_lt (by omega)] at hnat
          obtain ⟨hdiv, hrest⟩ := ih (n / 128) (by omega) hrest
          exact ⟨by omega, hrest⟩

end Gnat.Lib.VarInt
