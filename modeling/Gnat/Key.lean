/-
Gnat/Key.lean

`key.h`: topics packed into a 64-bit key, one character a byte, the first
character in the lowest byte.
-/
import Gnat.Target

namespace Gnat

namespace Key

/-- `GetChar`: the character at `index`, widened and moved to its byte. -/
def getChar (target : Target) (decoded : List UInt8) (index : Nat) :
    Except Fault UInt64 :=
  target.shiftLeft (target.widenChar (decoded.getD index 0)) (8 * index)

/-- One round of the loop of `EncodeString`. -/
def encodeChar (target : Target) (decoded : List UInt8) (encoded : UInt64)
    (index : Nat) : Except Fault UInt64 := do
  let c ← getChar target decoded index
  return encoded ||| c

/-- `EncodeString`. -/
def encodeString (target : Target) (decoded : List UInt8) (topicBytes : Nat) :
    Except Fault UInt64 :=
  (List.range topicBytes).foldlM (encodeChar target decoded) 0

theorem encodeChar_fault {target : Target} {decoded : List UInt8} {encoded : UInt64}
    {index : Nat} {e : Fault} (h : encodeChar target decoded encoded index = .error e) :
    e = .oversizedShift := by
  unfold encodeChar getChar Target.shiftLeft at h
  split at h <;> cases h
  rfl

/-- The only way to fail is a shift out of the 64 bits. -/
theorem encodeString_fault {target : Target} {decoded : List UInt8} {topicBytes : Nat}
    {e : Fault} (h : encodeString target decoded topicBytes = .error e) :
    e = .oversizedShift := by
  unfold encodeString at h
  generalize List.range topicBytes = indices at h
  generalize (0 : UInt64) = encoded at h
  induction indices generalizing encoded with
  | nil => cases h
  | cons i indices ih =>
      rw [List.foldlM_cons] at h
      rcases hc : encodeChar target decoded encoded i with e' | c
      · rw [hc] at h
        cases h
        exact encodeChar_fault hc
      · rw [hc] at h
        exact ih c h

/-- The bytes of a `uint64_t` in memory, on a little-endian machine. -/
def memory (encoded : UInt64) : List UInt8 :=
  (List.range 8).map fun i => (encoded >>> UInt64.ofNat (8 * i)).toUInt8

/-- `std::min((size_t)8, strlen(encoded_str))`.  Where none of the eight bytes is
0 `strlen` reads on behind the object, but what it finds there does not change the
minimum.  A build that stops at this read is modelled by `CheckedKey`. -/
def decodedSize (encoded : UInt64) : Nat :=
  min 8 ((memory encoded).takeWhile (· ≠ 0)).length

/-- `strlen` finds no end within the eight bytes. -/
def Overreads (encoded : UInt64) : Prop :=
  0 ∉ memory encoded

instance (encoded : UInt64) : Decidable (Overreads encoded) := by
  unfold Overreads; infer_instance

/-- `Decode`. -/
def decode (encoded : UInt64) : List UInt8 :=
  (memory encoded).take (decodedSize encoded)

end Key

end Gnat
