/-
Gnat/Packing.lean

The 64-bit keys byte by byte.

For a topic of at most eight bytes no shift leaves the word, and the byte at
`j` of its key is `image target topic j`: the topic's own byte, or `0xFF` where
a sign-extended character in front of it covers it, or `0` behind the topic.
Any key, also of a longer topic, has the bits of the keys of the topic's
prefixes.
-/
import Gnat.Key
import Gnat.Lib.Word

namespace Gnat

open Lib

namespace Key

variable {target : Target} {topic front more : List UInt8} {x key key' : UInt64}

/-! ### What the loop reads -/

theorem encodeString_succ (target : Target) (topic : List UInt8) (n : Nat) :
    encodeString target topic (n + 1) = (do
      let encoded ← encodeString target topic n
      encodeChar target topic encoded n) := by
  rw [encodeString, List.range_succ, List.foldlM_append]
  simp only [List.foldlM_cons, List.foldlM_nil, bind_pure]
  rfl

/-- The loop reads the bytes in front of its bound only. -/
theorem encodeString_append (target : Target) (front more : List UInt8) {n : Nat}
    (h : n ≤ front.length) :
    encodeString target (front ++ more) n = encodeString target front n := by
  induction n with
  | zero => rfl
  | succ n ih =>
      have hget : (front ++ more).getD n 0 = front.getD n 0 := by
        rw [List.getD_append _ _ _ _ (by omega)]
      rw [encodeString_succ, encodeString_succ, ih (by omega)]
      simp only [encodeChar, getChar, hget]

/-! ### Longer topics have more bits -/

theorem encodeChar_grows {index : Nat} (h : encodeChar target topic x index = .ok key) :
    x &&& key = x := by
  unfold encodeChar at h
  rcases hc : getChar target topic index with e | c
  · rw [hc] at h
    cases h
  · rw [hc] at h
    cases h
    exact Word.and_or_self

theorem encodeString_grows {n k : Nat} (h : encodeString target topic n = .ok key)
    (h' : encodeString target topic (n + k) = .ok key') : key &&& key' = key := by
  induction k generalizing key' with
  | zero =>
      cases h.symm.trans h'
      exact UInt64.and_self
  | succ k ih =>
      rw [← Nat.add_assoc, encodeString_succ] at h'
      rcases hk : encodeString target topic (n + k) with e | y
      · rw [hk] at h'
        cases h'
      · rw [hk] at h'
        exact Word.and_trans (ih hk) (encodeChar_grows h')

/-- The key of a topic has the bits of the key of each of its prefixes. -/
theorem encodeString_covers (h : encodeString target front front.length = .ok key)
    (h' : encodeString target (front ++ more) (front ++ more).length = .ok key') :
    key &&& key' = key := by
  rw [← encodeString_append target front more (Nat.le_refl _)] at h
  rw [List.length_append] at h'
  exact encodeString_grows h h'

/-! ### The bytes of a key -/

/-- `char` is signed and the character is negative. -/
def Extends (target : Target) (c : UInt8) : Prop :=
  target.charSigned ∧ 128 ≤ c

instance (target : Target) (c : UInt8) : Decidable (Extends target c) := by
  unfold Extends; infer_instance

/-- The bytes of the key of a topic. -/
def image (target : Target) : List UInt8 → Nat → UInt8
  | [], _ => 0
  | c :: _, 0 => c
  | c :: topic, j + 1 => if Extends target c then 0xFF else image target topic j

/-- The bytes of a character at index `0`. -/
theorem byteAt_widenChar (target : Target) (c : UInt8) {j : Nat} (hj : j < 8) :
    Word.byteAt (target.widenChar c) j = image target [c] j := by
  -- the low byte is the character, the others are copies of its sign
  have hlow : Word.byteAt c.toUInt64 j = if j = 0 then c else 0 := by
    apply Word.byte_ext
    intro i hi
    rw [Word.bit_byteAt hj hi, UInt8.toBitVec_toUInt64, BitVec.getLsbD_setWidth,
      decide_eq_true (show 8 * j + i < 64 by omega), Bool.true_and]
    rcases Nat.eq_zero_or_pos j with rfl | hpos
    · simp
    · rw [if_neg (by omega), BitVec.getLsbD_of_ge _ _ (by omega)]
      simp
  have hhigh : ∀ j < 8, Word.byteAt 0xFFFFFFFFFFFFFF00 j = if j = 0 then 0 else 0xFF := by
    decide
  unfold Target.widenChar
  split
  · next hext =>
    rw [Word.byteAt_or, hlow, hhigh j hj]
    cases j with
    | zero => simp [image]
    | succ j => simp [image, show Extends target c from hext]
  · next hext =>
    rw [hlow]
    cases j with
    | zero => rfl
    | succ j => simp [image, show ¬ Extends target c from hext]

/-- One more character changes the byte at its index and, if it is negative,
those above. -/
theorem image_append (target : Target) (topic : List UInt8) (c : UInt8) (j : Nat) :
    image target (topic ++ [c]) j = image target topic j |||
      if j < topic.length then 0 else image target [c] (j - topic.length) := by
  induction topic generalizing j with
  | nil => simp [image]
  | cons d topic ih =>
      cases j with
      | zero => simp [image]
      | succ j =>
          simp only [List.cons_append, image, List.length_cons, Nat.add_lt_add_iff_right,
            Nat.add_sub_add_right]
          split
          · -- the bytes above a negative character are all ones already
            exact UInt8.neg_one_or.symm
          · exact ih j

/-- **The key of a short topic**: no shift leaves the word. -/
theorem encodeString_image (target : Target) {n : Nat} (hn : n ≤ topic.length) (h8 : n ≤ 8) :
    ∃ key, encodeString target topic n = .ok key ∧
      ∀ j < 8, Word.byteAt key j = image target (topic.take n) j := by
  induction n with
  | zero => exact ⟨0, rfl, fun j _ => Word.byteAt_zero j⟩
  | succ n ih =>
      obtain ⟨key, hkey, hbytes⟩ := ih (by omega) (by omega)
      have hget : topic.getD n 0 = topic[n] := List.getD_eq_getElem _ _ (by omega)
      refine ⟨key ||| (target.widenChar topic[n] <<< UInt64.ofNat (8 * n)), ?_, ?_⟩
      · rw [encodeString_succ, hkey]
        show encodeChar target topic key n = _
        rw [encodeChar, getChar, hget, Target.shiftLeft_of_lt (by omega)]
        rfl
      · intro j hj
        have hlength : (topic.take n).length = n := by
          rw [List.length_take]
          omega
        rw [Word.byteAt_or, hbytes j hj, Word.byteAt_shiftLeft (by omega) hj,
          List.take_succ_eq_append_getElem (by omega), image_append, hlength]
        -- behind a negative character the bits of its sign are already there
        split
        · rfl
        · rw [byteAt_widenChar target _ (by omega)]

theorem encode_short (target : Target) (h : topic.length ≤ 8) :
    ∃ key, encodeString target topic topic.length = .ok key ∧
      ∀ j < 8, Word.byteAt key j = image target topic j := by
  obtain ⟨key, hkey, hbytes⟩ := encodeString_image target (Nat.le_refl _) h
  rw [List.take_length] at hbytes
  exact ⟨key, hkey, hbytes⟩

/-! ### Which topics share a key -/

/-- What the key keeps of a topic: nothing behind a negative character, and no
zeros at the end. -/
def clip (target : Target) : List UInt8 → List UInt8
  | [] => []
  | c :: topic =>
      if Extends target c then [c]
      else if c = 0 ∧ clip target topic = [] then []
      else c :: clip target topic

theorem image_clip (target : Target) (topic : List UInt8) (j : Nat) :
    image target (clip target topic) j = image target topic j := by
  induction topic generalizing j with
  | nil => rfl
  | cons c topic ih =>
      rw [clip]
      split
      · next hext =>
        cases j with
        | zero => rfl
        | succ j => simp [image, hext]
      next hext =>
      split
      · next hzero =>
        obtain ⟨rfl, hnil⟩ := hzero
        cases j with
        | zero => rfl
        | succ j =>
            have hrest := ih j
            rw [hnil] at hrest
            simp [image, hext, ← hrest]
      · cases j with
        | zero => rfl
        | succ j => simp [image, hext, ih j]

/-- The bytes of the key tell what it keeps. -/
theorem clip_eq_of_image {n : Nat} {a b : List UInt8} (ha : a.length ≤ n) (hb : b.length ≤ n)
    (h : ∀ j < n, image target a j = image target b j) : clip target a = clip target b := by
  -- a topic whose key is all zeros keeps nothing
  have hzeros : ∀ {n : Nat} {l : List UInt8}, l.length ≤ n →
      (∀ j < n, image target l j = 0) → clip target l = [] := by
    intro n l
    induction l generalizing n with
    | nil => exact fun _ _ => rfl
    | cons c l ih =>
        intro hl hzero
        rw [List.length_cons] at hl
        obtain rfl : c = 0 := hzero 0 (by omega)
        have hext : ¬ Extends target 0 := fun hneg => absurd hneg.2 (by decide)
        have hrest : clip target l = [] := ih (n := n - 1) (by omega) fun j hj => by
          have := hzero (j + 1) (by omega)
          simpa [image, hext] using this
        simp [clip, hext, hrest]
  induction n generalizing a b with
  | zero =>
      rw [List.length_eq_zero_iff.mp (by omega : a.length = 0),
        List.length_eq_zero_iff.mp (by omega : b.length = 0)]
  | succ n ih =>
      cases a with
      | nil => exact (hzeros hb fun j hj => (h j hj).symm).symm
      | cons c a =>
          cases b with
          | nil => exact hzeros ha h
          | cons d b =>
              obtain rfl : c = d := h 0 (by omega)
              by_cases hext : Extends target c
              · simp [clip, hext]
              · have hrest : clip target a = clip target b := by
                  apply ih (Nat.le_of_succ_le_succ ha) (Nat.le_of_succ_le_succ hb)
                  intro j hj
                  have := h (j + 1) (by omega)
                  simpa [image, hext] using this
                simp [clip, hext, hrest]

/-- **Short topics share a key exactly if the key keeps the same of them.** -/
theorem encode_eq_iff {a b : List UInt8} (ha : a.length ≤ 8) (hb : b.length ≤ 8) :
    encodeString target a a.length = encodeString target b b.length ↔
      clip target a = clip target b := by
  obtain ⟨key, hkey, hbytes⟩ := encode_short target ha
  obtain ⟨key', hkey', hbytes'⟩ := encode_short target hb
  rw [hkey, hkey']
  constructor
  · intro h
    obtain rfl : key = key' := Except.ok.inj h
    exact clip_eq_of_image ha hb fun j hj => (hbytes j hj).symm.trans (hbytes' j hj)
  · intro h
    congr 1
    apply Word.ext
    intro j hj
    rw [hbytes j hj, hbytes' j hj, ← image_clip target a, h, image_clip]

/-! ### Plain topics -/

/-- A topic of at most eight characters, none of them zero or negative. -/
structure Plain (topic : List UInt8) : Prop where
  length_le : topic.length ≤ 8
  chars : ∀ c ∈ topic, 1 ≤ c ∧ c ≤ 127

instance (topic : List UInt8) : Decidable (Plain topic) :=
  decidable_of_iff (topic.length ≤ 8 ∧ ∀ c ∈ topic, 1 ≤ c ∧ c ≤ 127)
    ⟨fun h => ⟨h.1, h.2⟩, fun h => ⟨h.length_le, h.chars⟩⟩

theorem image_plain (h : ∀ c ∈ topic, 1 ≤ c ∧ c ≤ 127) (j : Nat) :
    image target topic j = topic.getD j 0 := by
  induction topic generalizing j with
  | nil => rfl
  | cons c topic ih =>
      have hext : ¬ Extends target c := by
        rintro ⟨-, hneg⟩
        have := (h c List.mem_cons_self).2
        exact absurd (UInt8.le_trans hneg this) (by decide)
      cases j with
      | zero => rfl
      | succ j =>
          rw [image, if_neg hext, ih fun d hd => h d (List.mem_cons_of_mem c hd)]
          rfl

theorem memory_eq (key : UInt64) : memory key = (List.range 8).map (Word.byteAt key) := rfl

theorem takeWhile_append_zeros {l : List UInt8} (h : ∀ c ∈ l, c ≠ 0) (n : Nat) :
    (l ++ List.replicate n 0).takeWhile (· ≠ 0) = l := by
  induction l with
  | nil => cases n <;> simp
  | cons c l ih =>
      rw [List.cons_append, List.takeWhile_cons_of_pos (by simpa using h c List.mem_cons_self),
        ih fun d hd => h d (List.mem_cons_of_mem c hd)]

/-- The memory of the key of a plain topic: the topic, filled up with zeros. -/
theorem memory_plain (h : Plain topic)
    (hbytes : ∀ j < 8, Word.byteAt key j = image target topic j) :
    memory key = topic ++ List.replicate (8 - topic.length) 0 := by
  have hlength := h.length_le
  rw [memory_eq]
  apply List.ext_getElem
  · rw [List.length_map, List.length_range, List.length_append, List.length_replicate]
    omega
  · intro j hj _
    rw [List.length_map, List.length_range] at hj
    rw [List.getElem_map, List.getElem_range, hbytes j hj, image_plain h.chars]
    rcases Nat.lt_or_ge j topic.length with hlt | hge
    · rw [List.getElem_append_left hlt, List.getD_eq_getElem _ _ hlt]
    · rw [List.getElem_append_right hge, List.getElem_replicate, List.getD_eq_default _ _ hge]

/-- **A plain topic is read back from its key.** -/
theorem decode_encode (target : Target) (h : Plain topic) :
    ∃ key, encodeString target topic topic.length = .ok key ∧ decode key = topic ∧
      decodedSize key = topic.length := by
  obtain ⟨key, hkey, hbytes⟩ := encode_short target h.length_le
  have hmemory := memory_plain h hbytes
  have hnonzero : ∀ c ∈ topic, c ≠ 0 := fun c hc hzero =>
    absurd (hzero ▸ (h.chars c hc).1) (by decide)
  have hsize : decodedSize key = topic.length := by
    rw [decodedSize, hmemory, takeWhile_append_zeros hnonzero]
    exact Nat.min_eq_right h.length_le
  refine ⟨key, hkey, ?_, hsize⟩
  rw [decode, hsize, hmemory]
  exact List.take_left

end Key

end Gnat
