/-
Gnat/Lib/Cursor.lean

A byte array filled from the front through an 8-bit cursor.

The array has a fixed capacity and keeps whatever it held before.  `put`
stores a byte at the cursor and advances it, `skip` only advances it, `append`
copies a block there, `patch` overwrites a byte behind it; a store outside the
array is `none`.  The cursor is a `uint8_t`, so it wraps at 256.

`Holds c l` says that the cursor stands behind the bytes `l`.  Each operation
has one rule: within the capacity it extends `l`.  What the array held before
and beyond the cursor does not occur in the rules.
-/
import Mathlib

namespace Gnat.Lib

/-- An array of `cap` bytes and a cursor into it. -/
structure Cursor (cap : Nat) where
  buffer : List UInt8
  size : buffer.length = cap
  current : Nat

namespace Cursor

variable {cap : Nat}

/-- A cursor at the front of an array. -/
def start (buffer : List.Vector UInt8 cap) : Cursor cap :=
  ⟨buffer.toList, buffer.toList_length, 0⟩

/-- `buffer[current++] = b`. -/
def put (c : Cursor cap) (b : UInt8) : Option (Cursor cap) :=
  if c.current < cap then
    some ⟨c.buffer.set c.current b, by rw [List.length_set, c.size],
      (c.current + 1) % 256⟩
  else none

/-- `current++`, the byte there left for later. -/
def skip (c : Cursor cap) : Cursor cap :=
  { c with current := (c.current + 1) % 256 }

/-- `memcpy(buffer + current, src, n); current += n`. -/
def append (c : Cursor cap) (src : List UInt8) : Option (Cursor cap) :=
  if h : c.current + src.length ≤ cap then
    some ⟨c.buffer.take c.current ++ src ++ c.buffer.drop (c.current + src.length), by
        have := c.size
        simp only [List.length_append, List.length_take, List.length_drop]
        omega,
      (c.current + src.length) % 256⟩
  else none

/-- `buffer[index] = b`. -/
def patch (c : Cursor cap) (index : Nat) (b : UInt8) : Cursor cap :=
  { c with buffer := c.buffer.set index b, size := by rw [List.length_set, c.size] }

/-- The bytes in front of the cursor. -/
def sent (c : Cursor cap) : List UInt8 :=
  c.buffer.take c.current

/-- The cursor stands behind exactly the bytes `l`. -/
structure Holds (c : Cursor cap) (l : List UInt8) : Prop where
  current_eq : c.current = l.length
  prefix_eq : c.buffer.take l.length = l

variable {c : Cursor cap} {l : List UInt8}

theorem Holds.sent_eq (h : Holds c l) : c.sent = l := by
  rw [sent, h.current_eq, h.prefix_eq]

theorem holds_start (buffer : List.Vector UInt8 cap) : Holds (start buffer) [] :=
  ⟨rfl, rfl⟩

theorem Holds.put (h : Holds c l) (b : UInt8) (hcap : l.length < cap)
    (hbyte : l.length < 255) : ∃ c', c.put b = some c' ∧ Holds c' (l ++ [b]) := by
  have hlt : c.current < cap := by rw [h.current_eq]; exact hcap
  refine ⟨_, if_pos hlt, ?_, ?_⟩
  · simp only [h.current_eq, List.length_append, List.length_singleton]
    omega
  · have hbuf : l.length < c.buffer.length := by rw [c.size]; exact hcap
    have hset : l.length < (c.buffer.set l.length b).length := by simpa using hbuf
    simp only [h.current_eq, List.length_append, List.length_singleton]
    rw [List.take_succ_eq_append_getElem hset, List.getElem_set_self,
      List.take_set_of_le (Nat.le_refl _), h.prefix_eq]

theorem Holds.skip (h : Holds c l) (hcap : l.length < cap) (hbyte : l.length < 255) :
    ∃ b, Holds c.skip (l ++ [b]) := by
  have hbuf : l.length < c.buffer.length := by rw [c.size]; exact hcap
  refine ⟨c.buffer[l.length], ?_, ?_⟩
  · simp only [Cursor.skip, h.current_eq, List.length_append, List.length_singleton]
    omega
  · simp only [Cursor.skip, List.length_append, List.length_singleton]
    rw [List.take_succ_eq_append_getElem hbuf, h.prefix_eq]

theorem Holds.append (h : Holds c l) (src : List UInt8)
    (hcap : l.length + src.length ≤ cap) (hbyte : l.length + src.length < 256) :
    ∃ c', c.append src = some c' ∧ Holds c' (l ++ src) := by
  have hle : c.current + src.length ≤ cap := by rw [h.current_eq]; exact hcap
  refine ⟨_, dif_pos hle, ?_, ?_⟩
  · simp only [h.current_eq, List.length_append]
    exact Nat.mod_eq_of_lt hbyte
  · simp only [h.current_eq, h.prefix_eq]
    exact List.take_left

theorem Holds.patch {l₁ l₂ : List UInt8} {b : UInt8} (h : Holds c (l₁ ++ b :: l₂))
    (b' : UInt8) : Holds (c.patch l₁.length b') (l₁ ++ b' :: l₂) := by
  refine ⟨?_, ?_⟩
  · simpa [Cursor.patch] using h.current_eq
  · have hlen : (l₁ ++ b' :: l₂).length = (l₁ ++ b :: l₂).length := by simp
    simp only [Cursor.patch]
    rw [hlen, List.take_set, h.prefix_eq, List.set_append_right _ _ (Nat.le_refl _),
      Nat.sub_self, List.set_cons_zero]

end Cursor

end Gnat.Lib
