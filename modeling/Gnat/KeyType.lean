/-
Gnat/KeyType.lean

The members of `DataStore` that are specialised for each key type: how topics
become keys and back, and the matchers of subscriptions.
-/
import Gnat.Key
import Gnat.Field

namespace Gnat

/-- The specialised static members of `DataStore<KeyType>`. -/
class KeyType (K : Type) where
  /-- `EncodeKey(decoded, bytes)`. -/
  encodeKey : Target → (decoded : List UInt8) → (bytes : Nat) → Except Fault K
  /-- `DecodeKey(key, buffer.data, &buffer.length)`. -/
  decodeKey : K → StringBuffer 128 → Except Fault (StringBuffer 128)
  /-- The closure `FullKeyMatcher(target_key)` returns. -/
  fullKeyMatcher : (targetKey otherKey : K) → Bool
  /-- The closure `PrefixKeyMatcher(target_key)` returns. -/
  prefixKeyMatcher : (targetKey otherKey : K) → Bool
  encodeKey_fault {target : Target} {decoded : List UInt8} {bytes : Nat} {e : Fault} :
    encodeKey target decoded bytes = .error e → e = .oversizedShift
  decodeKey_fault {key : K} {buffer : StringBuffer 128} {e : Fault} :
    decodeKey key buffer = .error e → e = .outOfBounds

/-- The keys of `DataStore<uint64_t>`. -/
instance : KeyType UInt64 where
  encodeKey target decoded bytes := Key.encodeString target decoded bytes
  decodeKey key buffer :=
    .ok ⟨StringBuffer.fill buffer.data (Key.decode key), Key.decodedSize key⟩
  fullKeyMatcher targetKey otherKey := targetKey == otherKey
  prefixKeyMatcher targetKey otherKey := (targetKey &&& otherKey) == targetKey
  encodeKey_fault h := Key.encodeString_fault h
  decodeKey_fault := nofun

/-- The keys of `DataStore<uint64_t>` in a build that stops at a read outside an object. -/
structure CheckedKey where
  key : UInt64
  deriving DecidableEq

/-- The `strlen` in `DecodeKey` reads such a key until a byte is 0. -/
instance : KeyType CheckedKey where
  encodeKey target decoded bytes := (Key.encodeString target decoded bytes).map CheckedKey.mk
  decodeKey key buffer :=
    if Key.Overreads key.key then .error .outOfBounds else KeyType.decodeKey key.key buffer
  fullKeyMatcher targetKey otherKey := KeyType.fullKeyMatcher targetKey.key otherKey.key
  prefixKeyMatcher targetKey otherKey := KeyType.prefixKeyMatcher targetKey.key otherKey.key
  encodeKey_fault {target decoded bytes e} h := by
    rcases hkey : Key.encodeString target decoded bytes with e' | key
    · rw [hkey] at h
      cases h
      exact Key.encodeString_fault hkey
    · rw [hkey] at h
      cases h
  decodeKey_fault h := by
    split at h
    · cases h
      rfl
    · cases h

/-- `std::string`, as the bytes it holds. -/
structure StdString where
  bytes : List UInt8
  deriving DecidableEq

/-- The keys of `DataStore<std::string>`. -/
instance : KeyType StdString where
  encodeKey _ decoded bytes := .ok ⟨decoded.take bytes⟩
  decodeKey key buffer :=
    if 128 < key.bytes.length then .error .outOfBounds
    else .ok ⟨StringBuffer.fill buffer.data key.bytes, key.bytes.length⟩
  fullKeyMatcher targetKey otherKey := targetKey == otherKey
  prefixKeyMatcher targetKey otherKey :=
    let n := min targetKey.bytes.length otherKey.bytes.length
    targetKey.bytes.take n == otherKey.bytes.take n
  encodeKey_fault := nofun
  decodeKey_fault h := by
    split at h <;> cases h
    rfl

end Gnat
