/-
Gnat/Lib/Word.lean

The bytes of a 64-bit word, the lowest first.

A word is given by its eight bytes (`ext`); `byteAt` of an OR and of a shift
by whole bytes are computed bit by bit, once.  `x &&& y = x` says that `y` has
the bits of `x`; OR only adds bits.  `low` keeps the first bytes and clears the
others.
-/
import Mathlib

namespace Gnat.Lib.Word

/-- The byte at `j`. -/
def byteAt (x : UInt64) (j : Nat) : UInt8 :=
  (x >>> UInt64.ofNat (8 * j)).toUInt8

variable {x y z : UInt64} {j k : Nat}

/-- A shift by up to seven bytes is one by less than 64 bits. -/
theorem shift_mod (hk : k < 8) : ((UInt64.ofNat (8 * k)).toBitVec % 64).toNat = 8 * k := by
  have hnat : (UInt64.ofNat (8 * k)).toNat = 8 * k := UInt64.toNat_ofNat_of_lt' (by
    rw [UInt64.size]
    omega)
  rw [BitVec.toNat_umod, UInt64.toNat_toBitVec, hnat]
  exact Nat.mod_eq_of_lt (show 8 * k < 64 by omega)

theorem bit_byteAt (hj : j < 8) {i : Nat} (hi : i < 8) :
    (byteAt x j).toBitVec.getLsbD i = x.toBitVec.getLsbD (8 * j + i) := by
  simp only [byteAt, UInt64.toBitVec_toUInt8, UInt64.toBitVec_shiftRight,
    BitVec.ushiftRight_eq', shift_mod hj, BitVec.getLsbD_setWidth, BitVec.getLsbD_ushiftRight,
    hi, decide_true, Bool.true_and]

theorem byte_ext {a b : UInt8}
    (h : ∀ i < 8, a.toBitVec.getLsbD i = b.toBitVec.getLsbD i) : a = b := by
  apply UInt8.eq_of_toBitVec_eq
  apply BitVec.eq_of_getLsbD_eq
  exact h

theorem ext (h : ∀ j < 8, byteAt x j = byteAt y j) : x = y := by
  apply UInt64.eq_of_toBitVec_eq
  apply BitVec.eq_of_getLsbD_eq
  intro i hi
  have hbyte : (byteAt x (i / 8)).toBitVec.getLsbD (i % 8) =
      (byteAt y (i / 8)).toBitVec.getLsbD (i % 8) := by
    rw [h (i / 8) (by omega)]
  rw [bit_byteAt (by omega) (by omega), bit_byteAt (by omega) (by omega)] at hbyte
  rwa [Nat.div_add_mod] at hbyte

theorem byteAt_zero (j : Nat) : byteAt 0 j = 0 := by
  simp [byteAt]

theorem byteAt_or : byteAt (x ||| y) j = byteAt x j ||| byteAt y j := by
  rw [byteAt, UInt64.shiftRight_or, UInt64.toUInt8_or]
  rfl

theorem byteAt_and : byteAt (x &&& y) j = byteAt x j &&& byteAt y j := by
  rw [byteAt, UInt64.shiftRight_and, UInt64.toUInt8_and]
  rfl

/-- Having the bits of a word is having the bits of each of its bytes. -/
theorem and_eq_left_iff : x &&& y = x ↔ ∀ j < 8, byteAt x j &&& byteAt y j = byteAt x j := by
  constructor
  · intro h j _
    rw [← byteAt_and, h]
  · intro h
    apply ext
    intro j hj
    rw [byteAt_and, h j hj]

/-- A shift by whole bytes. -/
theorem byteAt_shiftLeft (hk : k < 8) (hj : j < 8) :
    byteAt (x <<< UInt64.ofNat (8 * k)) j = if j < k then 0 else byteAt x (j - k) := by
  apply byte_ext
  intro i hi
  rw [bit_byteAt hj hi]
  simp only [UInt64.toBitVec_shiftLeft, BitVec.shiftLeft_eq', shift_mod hk,
    BitVec.getLsbD_shiftLeft]
  rcases Nat.lt_or_ge j k with hlt | hge
  · rw [if_pos hlt, decide_eq_true (show 8 * j + i < 8 * k by omega)]
    simp
  · rw [if_neg (by omega), bit_byteAt (by omega) hi,
      decide_eq_true (show 8 * j + i < 64 by omega),
      decide_eq_false (show ¬ 8 * j + i < 8 * k by omega),
      show 8 * j + i - 8 * k = 8 * (j - k) + i by omega]
    rfl

/-- OR only adds bits. -/
theorem and_or_self : x &&& (x ||| y) = x := by
  apply UInt64.eq_of_toBitVec_eq
  apply BitVec.eq_of_getLsbD_eq
  intro i _
  simp only [UInt64.toBitVec_and, UInt64.toBitVec_or, BitVec.getLsbD_and, BitVec.getLsbD_or]
  cases x.toBitVec.getLsbD i <;> rfl

/-- Having the bits is transitive. -/
theorem and_trans (h : x &&& y = x) (h' : y &&& z = y) : x &&& z = x := by
  rw [← h, UInt64.and_assoc, h']

/-! ### Clearing the high bytes -/

theorem toNat_byteAt (hj : j < 8) : (byteAt x j).toNat = x.toNat / 256 ^ j % 256 := by
  have hnat : (UInt64.ofNat (8 * j)).toNat = 8 * j := UInt64.toNat_ofNat_of_lt' (by
    rw [UInt64.size]
    omega)
  rw [byteAt, UInt64.toNat_toUInt8, UInt64.toNat_shiftRight, hnat,
    Nat.mod_eq_of_lt (show 8 * j < 64 by omega), Nat.shiftRight_eq_div_pow, Nat.pow_mul]

/-- The word with its bytes from the one at `n` on cleared. -/
def low (x : UInt64) (n : Nat) : UInt64 :=
  UInt64.ofNat (x.toNat % 256 ^ n)

theorem byteAt_low {n : Nat} (hj : j < 8) :
    byteAt (low x n) j = if j < n then byteAt x j else 0 := by
  apply UInt8.toNat_inj.mp
  have hlow : (low x n).toNat = x.toNat % 256 ^ n := UInt64.toNat_ofNat_of_lt'
    (Nat.lt_of_le_of_lt (Nat.mod_le _ _) x.toNat_lt)
  rw [toNat_byteAt hj, hlow]
  split
  · next hlt =>
    -- the byte is below the ones that are cleared
    obtain ⟨k, rfl⟩ := Nat.exists_eq_add_of_lt hlt
    have hdvd : 256 ∣ 256 ^ (k + 1) := Dvd.intro_left (256 ^ k) rfl
    rw [Nat.add_assoc, Nat.pow_add, Nat.mod_mul_right_div_self, Nat.mod_mod_of_dvd _ hdvd,
      toNat_byteAt hj]
  · next hge =>
    have hsmall : x.toNat % 256 ^ n < 256 ^ j :=
      Nat.lt_of_lt_of_le (Nat.mod_lt _ (Nat.pow_pos (by omega)))
        (Nat.pow_le_pow_right (by omega) (Nat.not_lt.mp hge))
    rw [Nat.div_eq_of_lt hsmall]
    rfl

end Gnat.Lib.Word
