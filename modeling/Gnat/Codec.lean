/-
Gnat/Codec.lean

The whole of `key.h`: the two encoders, the two decoders and how they undo each
other.

`Encode` packs a string literal at compile time, terminator included, and stops
after eight characters; `EncodeString` packs as many as it is told to.  On
literals of at most eight characters they agree (`encode_literal`).  Both
decoders stop at the first zero byte of the key (`decode_eq`), so `EncodeString`
gets back what is in front of it (`encode_decode`).

The other way round a string is not always read back.  A character from `0x80`
on is negative where `char` is signed, and its sign covers the bytes behind it:
`roundTrips_iff` says which strings survive that.
-/
import Gnat.Packing
import Gnat.KeyType

namespace Gnat

open Lib

namespace Key

/-! ### The other two functions -/

/-- `Encode`, for an array of `N` characters; the compiler refuses longer ones. -/
def encode (target : Target) {N : Nat} (decoded : List.Vector UInt8 N) (_ : N < 10) :
    Except Fault UInt64 :=
  (List.range (min N 8)).foldlM (encodeChar target decoded.toList) 0

/-- The array of a string literal: its characters and the terminator. -/
def literal (s : List UInt8) : List.Vector UInt8 (s.length + 1) :=
  ⟨s ++ [0], List.length_append⟩

/-- `DecodeString`: the array at `decode_to` after it, and `*decoded_size`. -/
def decodeString (encoded : UInt64) (decodeTo : List UInt8) :
    Except Fault (List UInt8 × Nat) :=
  let decodedSize := decodedSize encoded
  if decodeTo.length < decodedSize then .error .outOfBounds
  else .ok ((memory encoded).take decodedSize ++ decodeTo.drop decodedSize, decodedSize)

variable {target : Target} {s topic : List UInt8} {key : UInt64} {j : Nat}

/-! ### The encoders -/

/-- A zero character adds nothing to a key. -/
theorem encodeChar_zero {encoded : UInt64} {index : Nat} (hindex : index < 8)
    (h : topic.getD index 0 = 0) : encodeChar target topic encoded index = .ok encoded := by
  have hzero : target.widenChar 0 <<< UInt64.ofNat (8 * index) = 0 := by
    rw [Target.widenChar, if_neg (fun hneg => absurd hneg.2 (by decide))]
    exact UInt64.zero_shiftLeft
  rw [encodeChar, getChar, h, Target.shiftLeft_of_lt (by omega), hzero]
  show Except.ok (encoded ||| 0) = _
  rw [UInt64.or_zero]

/-- **Both encoders agree on literals.** -/
theorem encode_literal (target : Target) (s : List UInt8) (h : s.length + 1 < 10) :
    encode target (literal s) h = encodeString target s s.length := by
  show encodeString target (s ++ [0]) (min (s.length + 1) 8) = _
  rcases Nat.lt_or_ge s.length 8 with hlt | hge
  · -- the loop reads the terminator as well
    rw [Nat.min_eq_left (by omega), encodeString_succ,
      encodeString_append target s [0] (Nat.le_refl _)]
    obtain ⟨key, hkey, -⟩ := encode_short target (show s.length ≤ 8 by omega)
    rw [hkey]
    apply encodeChar_zero hlt
    rw [List.getD_append_right _ _ _ _ (Nat.le_refl _), Nat.sub_self]
    rfl
  · -- the loop stops in front of it
    have h8 : s.length = 8 := by omega
    rw [Nat.min_eq_right (by omega), encodeString_append target s [0] (by omega), h8]

/-! ### The decoders -/

theorem length_memory (key : UInt64) : (memory key).length = 8 := by
  rw [memory_eq, List.length_map, List.length_range]

theorem decodedSize_eq (key : UInt64) :
    decodedSize key = ((memory key).takeWhile (· ≠ 0)).length := by
  apply Nat.min_eq_right
  rw [← length_memory key]
  exact (List.takeWhile_prefix _).length_le

/-- `Decode` stops at the first zero byte. -/
theorem decode_eq (key : UInt64) : decode key = (memory key).takeWhile (· ≠ 0) := by
  rw [decode, decodedSize_eq]
  exact (List.prefix_iff_eq_take.mp (List.takeWhile_prefix _)).symm

theorem length_decode (key : UInt64) : (decode key).length = decodedSize key := by
  rw [decode_eq, decodedSize_eq]

theorem decodedSize_le (key : UInt64) : decodedSize key ≤ 8 :=
  Nat.min_le_left _ _

/-- **Both decoders agree**, and `DecodeString` keeps what is behind the string. -/
theorem decodeString_eq {decodeTo : List UInt8} (key : UInt64)
    (h : decodedSize key ≤ decodeTo.length) :
    decodeString key decodeTo =
      .ok (decode key ++ decodeTo.drop (decode key).length, (decode key).length) := by
  rw [length_decode]
  exact if_neg (Nat.not_lt.mpr h)

/-- Where the first zero of a sequence is. -/
theorem takeWhile_map_range {n : Nat} {f : Nat → UInt8} (hlength : s.length ≤ n)
    (hnonzero : ∀ c ∈ s, c ≠ 0) :
    ((List.range n).map f).takeWhile (· ≠ 0) = s ↔
      (∀ j < s.length, f j = s.getD j 0) ∧ (s.length = n ∨ f s.length = 0) := by
  induction n generalizing f s with
  | zero =>
      obtain rfl : s = [] := List.length_eq_zero_iff.mp (Nat.le_zero.mp hlength)
      simp
  | succ n ih =>
      rw [List.range_succ_eq_map, List.map_cons, List.map_map]
      cases s with
      | nil => simp [List.takeWhile_cons]
      | cons c s =>
          have hc : c ≠ 0 := hnonzero c List.mem_cons_self
          have hrest := ih (f := f ∘ Nat.succ) (Nat.le_of_succ_le_succ hlength)
            fun d hd => hnonzero d (List.mem_cons_of_mem c hd)
          constructor
          · intro h
            have h0 : f 0 ≠ 0 := by
              intro hzero
              simp [hzero] at h
            rw [List.takeWhile_cons_of_pos (by simpa using h0)] at h
            obtain ⟨hhead, htail⟩ := List.cons.inj h
            obtain ⟨hbytes, hend⟩ := hrest.mp htail
            refine ⟨fun j hj => ?_, hend.imp_left (congrArg Nat.succ)⟩
            cases j with
            | zero => exact hhead
            | succ j => exact hbytes j (Nat.lt_of_succ_lt_succ hj)
          · rintro ⟨hbytes, hend⟩
            have hhead : f 0 = c := hbytes 0 (Nat.succ_pos _)
            rw [List.takeWhile_cons_of_pos (by simpa [hhead] using hc), hhead,
              hrest.mpr ⟨fun j hj => hbytes (j + 1) (Nat.succ_lt_succ hj),
                hend.imp_left Nat.succ.inj⟩]

/-- What a decoder finds: it stops behind the eighth byte or at a zero. -/
theorem decode_eq_iff (hlength : s.length ≤ 8) (hnonzero : ∀ c ∈ s, c ≠ 0) :
    decode key = s ↔ (∀ j < s.length, Word.byteAt key j = s.getD j 0) ∧
      (s.length = 8 ∨ Word.byteAt key s.length = 0) := by
  rw [decode_eq, memory_eq]
  exact takeWhile_map_range hlength hnonzero

/-! ### From a key to its string and back -/

/-- The index of the first zero byte of a key, or 8. -/
def firstZero (key : UInt64) : Nat :=
  (memory key).findIdx (· = 0)

theorem takeWhile_length (l : List UInt8) :
    (l.takeWhile (· ≠ 0)).length = l.findIdx (· = 0) := by
  induction l with
  | nil => rfl
  | cons c l ih =>
      rw [List.findIdx_cons]
      by_cases hc : c = 0
      · simp [hc]
      · simp only [hc, ne_eq, not_false_eq_true, decide_true, List.takeWhile_cons_of_pos,
          List.length_cons, decide_false, cond_false]
        exact congrArg (· + 1) ih

theorem length_decode_eq_firstZero (key : UInt64) : (decode key).length = firstZero key := by
  rw [decode_eq]
  exact takeWhile_length (memory key)

theorem decode_nonzero (key : UInt64) : ∀ c ∈ decode key, c ≠ 0 := by
  intro c hc
  rw [decode_eq] at hc
  simpa using List.mem_takeWhile_imp hc

/-- **Encoding what was decoded**: the key up to its first zero byte. -/
theorem encode_decode (target : Target) {key : UInt64}
    (h : ∀ j < firstZero key, Word.byteAt key j < 128) :
    encodeString target (decode key) (decode key).length =
      .ok (Word.low key (firstZero key)) := by
  have hsize := length_decode key ▸ decodedSize_le key
  obtain ⟨hbytes, -⟩ := (decode_eq_iff hsize (decode_nonzero key)).mp rfl
  obtain ⟨key', hkey', himage⟩ := encode_short target hsize
  rw [hkey']
  congr 1
  apply Word.ext
  intro j hj
  rw [himage j hj, Word.byteAt_low hj, ← length_decode_eq_firstZero]
  -- none of the characters is negative
  have hplain : ∀ c ∈ decode key, 1 ≤ c ∧ c ≤ 127 := by
    intro c hc
    obtain ⟨i, hi, rfl⟩ := List.mem_iff_getElem.mp hc
    refine ⟨UInt8.pos_iff_ne_zero.mpr (decode_nonzero key _ hc), ?_⟩
    have hlt := h i (length_decode_eq_firstZero key ▸ hi)
    rw [hbytes i hi, List.getD_eq_getElem _ _ hi] at hlt
    exact UInt8.le_iff_toNat_le.mpr (Nat.le_of_lt_succ (UInt8.lt_iff_toNat_lt.mp hlt))
  rw [image_plain hplain]
  split
  · next hlt => exact (hbytes j hlt).symm
  · next hge => exact List.getD_eq_default _ _ (Nat.not_lt.mp hge)

/-- **The codecs**, on every platform: `Encode` and `EncodeString` agree on every
literal of at most eight characters, `Decode` and `DecodeString` on every key, and
encoding what was decoded clears the key from its first zero byte on. -/
theorem codecs_agree (target : Target) :
    (∀ (s : List UInt8) (h : s.length + 1 < 10),
      encode target (literal s) h = encodeString target s s.length) ∧
    (∀ (key : UInt64) (decodeTo : List UInt8), 8 ≤ decodeTo.length →
      ∃ decodedTo decodedSize, decodeString key decodeTo = .ok (decodedTo, decodedSize) ∧
        decodedTo.take decodedSize = decode key ∧ decodedSize = (decode key).length ∧
          decodedSize ≤ 8 ∧ decodedTo.drop decodedSize = decodeTo.drop decodedSize) ∧
    (∀ key : UInt64, (∀ j < firstZero key, Word.byteAt key j < 128) →
      encodeString target (decode key) (decode key).length =
        .ok (Word.low key (firstZero key))) := by
  refine ⟨encode_literal target, ?_, fun key => encode_decode target⟩
  intro key decodeTo h8
  have hsize := decodedSize_le key
  refine ⟨_, _, decodeString_eq key (by omega), List.take_left, rfl, ?_, List.drop_left⟩
  rw [length_decode]
  exact hsize

/-- A literal as the tests have it, and a key with a byte behind its first zero. -/
theorem codecs_agree_test :
    encode ⟨true, true, 0, 0, 0, 0⟩ (literal [0x54, 0x45, 0x53, 0x54]) (by decide) =
        .ok 1414743380 ∧
      encodeString ⟨true, true, 0, 0, 0, 0⟩ (decode 0x4100545345) (decode 0x4100545345).length =
        .ok 0x545345 := by
  obtain ⟨hencode, -, hdecode⟩ := codecs_agree ⟨true, true, 0, 0, 0, 0⟩
  constructor
  · rw [hencode]
    decide +kernel
  · rw [hdecode _ (by decide +kernel)]
    decide +kernel

/-! ### From a string to its key and back -/

/-- The string is what both decoders find in its key. -/
def RoundTrips (target : Target) (s : List UInt8) : Prop :=
  ∃ key, encodeString target s s.length = .ok key ∧ decode key = s ∧
    ∀ decodeTo : List UInt8, 8 ≤ decodeTo.length →
      ∃ decodedTo, decodeString key decodeTo = .ok (decodedTo, s.length) ∧
        decodedTo.take s.length = s

/-- In front of the first negative character the key has the string's bytes. -/
theorem image_before (h : ∀ i < j, ¬ Extends target (s.getD i 0)) :
    image target s j = s.getD j 0 := by
  induction s generalizing j with
  | nil => rfl
  | cons c s ih =>
      cases j with
      | zero => rfl
      | succ j =>
          have hc : ¬ Extends target c := h 0 (Nat.succ_pos j)
          rw [image, if_neg hc, ih fun i hi => h (i + 1) (Nat.succ_lt_succ hi)]
          rfl

/-- Behind it, it has copies of the sign. -/
theorem image_after {i : Nat} (hi : i < s.length) (hext : Extends target (s.getD i 0))
    (hij : i < j) : image target s j = 0xFF := by
  induction s generalizing i j with
  | nil => exact absurd hi (Nat.not_lt_zero i)
  | cons c s ih =>
      cases j with
      | zero => exact absurd hij (Nat.not_lt_zero i)
      | succ j =>
          rw [image]
          split
          · rfl
          · next hc =>
            cases i with
            | zero => exact absurd hext hc
            | succ i =>
                exact ih (Nat.lt_of_succ_lt_succ hi) hext (Nat.lt_of_succ_lt_succ hij)

/-- A negative character is followed by `0xFF` only, up to the end of the key. -/
def SignsFill (target : Target) (s : List UInt8) : Prop :=
  ∀ i < s.length, Extends target (s.getD i 0) →
    s.length = 8 ∧ ∀ j < s.length, i < j → s.getD j 0 = 0xFF

instance (target : Target) (s : List UInt8) : Decidable (SignsFill target s) := by
  unfold SignsFill; infer_instance

theorem decode_image_iff (hlength : s.length ≤ 8) (hnonzero : ∀ c ∈ s, c ≠ 0)
    (himage : ∀ j < 8, Word.byteAt key j = image target s j) :
    decode key = s ↔ SignsFill target s := by
  rw [decode_eq_iff hlength hnonzero]
  constructor
  · rintro ⟨hbytes, hend⟩ i hi hext
    have hafter : ∀ j < 8, i < j → Word.byteAt key j = 0xFF := fun j hj hij =>
      (himage j hj).trans (image_after hi hext hij)
    refine ⟨?_, fun j hj hij => (hbytes j hj).symm.trans (hafter j (by omega) hij)⟩
    -- there is no zero behind a negative character
    by_contra hshort
    have hzero := hend.resolve_left hshort
    rw [hafter s.length (by omega) hi] at hzero
    exact absurd hzero (by decide)
  · intro hfill
    have hbytes : ∀ j < s.length, image target s j = s.getD j 0 := by
      intro j hj
      by_cases hneg : ∃ i < j, Extends target (s.getD i 0)
      · obtain ⟨i, hij, hext⟩ := hneg
        rw [image_after (by omega) hext hij, (hfill i (by omega) hext).2 j hj hij]
      · exact image_before fun i hij hext => hneg ⟨i, hij, hext⟩
    refine ⟨fun j hj => (himage j (by omega)).trans (hbytes j hj), ?_⟩
    rcases Nat.eq_or_lt_of_le hlength with h8 | hlt
    · exact .inl h8
    · -- a string with room behind it has no negative characters
      right
      rw [himage _ hlt, image_before fun i hi hext => absurd (hfill i hi hext).1 (by omega)]
      exact List.getD_eq_default _ _ (Nat.le_refl _)

/-- **Which strings survive**: those in which every negative character is followed
by `0xFF` only, up to the eighth byte. -/
theorem roundTrips_iff {target : Target} {s : List UInt8} (hlength : s.length ≤ 8)
    (hnonzero : ∀ c ∈ s, c ≠ 0) : RoundTrips target s ↔ SignsFill target s := by
  obtain ⟨key, hkey, himage⟩ := encode_short target hlength
  rw [← decode_image_iff hlength hnonzero himage]
  constructor
  · rintro ⟨key', hkey', hdecode, -⟩
    obtain rfl : key = key' := Except.ok.inj (hkey.symm.trans hkey')
    exact hdecode
  · intro hdecode
    refine ⟨key, hkey, hdecode, fun decodeTo h8 => ?_⟩
    have hsize := decodedSize_le key
    refine ⟨_, hdecode ▸ decodeString_eq key (by omega), ?_⟩
    exact List.take_left

theorem roundTrips_iff_signs :
    RoundTrips {} [0x74, 0x65, 0x6D, 0x70] ∧
      RoundTrips {} [0x61, 0x62, 0x63, 0x64, 0x65, 0x66, 0xC3, 0xFF] ∧
        ¬ RoundTrips {} [0x61, 0x62, 0x63, 0x64, 0x65, 0x66, 0xC3, 0xBC] := by
  refine ⟨?_, ?_, ?_⟩
  · exact (roundTrips_iff (by decide) (by decide +kernel)).mpr (by decide +kernel)
  · exact (roundTrips_iff (by decide) (by decide +kernel)).mpr (by decide +kernel)
  · exact fun h => absurd ((roundTrips_iff (by decide) (by decide +kernel)).mp h)
      (by decide +kernel)

/-- An umlaut, the bytes `C3 BC`, is read back as `C3` and seven times `FF`. -/
theorem umlaut_not_read_back :
    ({} : Target).charSigned = true ∧
      encodeString {} [0xC3, 0xBC] 2 = .ok 0xFFFFFFFFFFFFFFC3 ∧
      decode 0xFFFFFFFFFFFFFFC3 = [0xC3, 0xFF, 0xFF, 0xFF, 0xFF, 0xFF, 0xFF, 0xFF] ∧
      ¬ RoundTrips {} [0xC3, 0xBC] := by
  have hkey : encodeString {} [0xC3, 0xBC] 2 = .ok 0xFFFFFFFFFFFFFFC3 := by decide +kernel
  have hdecode : decode 0xFFFFFFFFFFFFFFC3 =
      [0xC3, 0xFF, 0xFF, 0xFF, 0xFF, 0xFF, 0xFF, 0xFF] := by decide +kernel
  refine ⟨rfl, hkey, hdecode, ?_⟩
  rintro ⟨key, hkey', hback, -⟩
  obtain rfl : 0xFFFFFFFFFFFFFFC3 = key := Except.ok.inj (hkey.symm.trans hkey')
  exact absurd (hdecode.symm.trans hback) (by decide)

end Key

end Gnat
