/-
Gnat/Target.lean

How an execution of gnat can go wrong, and the platform it is compiled for.

`Fault` lists the ways a call can fail to return: an assertion of the source
that does not hold, an access outside an array, an undefined value that the
build traps.  `Target` fixes what C++ leaves open: whether `char` is signed,
what the bytes of an uninitialised object are, and whether an undefined value
stops the program (a sanitizer build) or is what the machine makes of it
(x86-64: products wrap, shift counts are taken modulo 64).  Reads outside an
object are another matter, see `CheckedKey`.
-/
import Mathlib

namespace Gnat

/-- Why a call does not return. -/
inductive Fault
  /-- `assert(size <= bytes_remaining_)` in `Packet::Read`. -/
  | packetReadAssert
  /-- `assert(current_byte < kBufferSize)` in `Publish::SendOn`. -/
  | publishBufferAssert
  /-- `assert(*remaining_length < 127)` in `Subscribe::SendOn`. -/
  | subscribeLengthAssert
  /-- An access outside an array. -/
  | outOfBounds
  /-- A trapped overflow of a signed product. -/
  | signedOverflow
  /-- A trapped shift by the width of the type or more. -/
  | oversizedShift
  /-- A trapped `*connect` of an empty optional. -/
  | emptyOptional
  /-- A loop of the model ran out of fuel. -/
  | outOfFuel
  deriving DecidableEq, Repr

/-- The platform gnat is compiled for. -/
structure Target where
  /-- A product, a shift or an optional that is undefined stops the program. -/
  trapsUndefined : Bool := false
  /-- `char` is a signed type. -/
  charSigned : Bool := true
  /-- What `(*connect).protocol_level` finds in an empty optional. -/
  strayLevel : UInt8 := 0
  /-- The members of a `Connect out;` before anything is read into them. -/
  stackLevel : UInt8 := 0
  stackFlags : UInt8 := 0
  stackKeepAlive : UInt16 := 0

namespace Target

/-- `a * b` for two values of type `int`. -/
def intMul (target : Target) (a b : Int) : Except Fault Int :=
  if -2 ^ 31 ≤ a * b ∧ a * b < 2 ^ 31 then .ok (a * b)
  else if target.trapsUndefined then .error .signedOverflow
  else .ok ((a * b).bmod (2 ^ 32))

/-- `x << n` for `x` of type `uint64_t`. -/
def shiftLeft (target : Target) (x : UInt64) (n : Nat) : Except Fault UInt64 :=
  if 64 ≤ n ∧ target.trapsUndefined then .error .oversizedShift
  else .ok (x <<< UInt64.ofNat n)

/-- `static_cast<uint64_t>(c)` for `c` of type `char`. -/
def widenChar (target : Target) (c : UInt8) : UInt64 :=
  if target.charSigned ∧ 128 ≤ c then 0xFFFFFFFFFFFFFF00 ||| c.toUInt64
  else c.toUInt64

theorem intMul_natCast {target : Target} {a b : Nat} (h : a * b < 2 ^ 31) :
    target.intMul a b = .ok ((a * b : Nat) : Int) := by
  unfold intMul
  rw [← Int.natCast_mul, if_pos ⟨by omega, by omega⟩]

theorem shiftLeft_of_lt {target : Target} {x : UInt64} {n : Nat} (h : n < 64) :
    target.shiftLeft x n = .ok (x <<< UInt64.ofNat n) := by
  unfold shiftLeft
  rw [if_neg (by omega)]

end Target

end Gnat
