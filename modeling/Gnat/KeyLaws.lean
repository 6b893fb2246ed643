/-
Gnat/KeyLaws.lean

What the server relies on of a key type, and that both key types provide it.

The laws are about topics as they arrive: the key of a topic can be written
into a topic buffer, the full matcher is equality, and the prefix matcher
accepts at least the keys of the topics that start with the prefix.  That the
buffer then holds the topic itself is not one of them: it is so for strings,
and for 64-bit keys of plain topics.
-/
import Gnat.KeyType
import Gnat.Packing

namespace Gnat

open Lib

/-- The laws of `EncodeKey`, `DecodeKey` and the matchers. -/
class LawfulKeyType (K : Type) [KeyType K] : Prop where
  decodes {target : Target} {topic : List UInt8} {key : K} :
    topic.length ≤ 128 → KeyType.encodeKey target topic topic.length = .ok key →
      ∃ decoded, KeyType.decodeKey key (.empty 128) = .ok decoded ∧ decoded.length ≤ 128
  /-- `EncodeKey` looks at the bytes it is told to look at. -/
  encodes_front {target : Target} (front more : List UInt8) :
    (KeyType.encodeKey target (front ++ more) front.length : Except Fault K) =
      KeyType.encodeKey target front front.length
  full_iff {key key' : K} : KeyType.fullKeyMatcher key key' = true ↔ key = key'
  covers {target : Target} {front more : List UInt8} {key key' : K} :
    KeyType.encodeKey target front front.length = .ok key →
      KeyType.encodeKey target (front ++ more) (front ++ more).length = .ok key' →
        KeyType.prefixKeyMatcher key key' = true

instance : LawfulKeyType UInt64 where
  decodes {_ _ key} _ _ := by
    refine ⟨_, rfl, ?_⟩
    show Key.decodedSize key ≤ 128
    have hmin : Key.decodedSize key ≤ 8 := Nat.min_le_left _ _
    omega
  encodes_front front more := Key.encodeString_append _ front more (Nat.le_refl _)
  full_iff := beq_iff_eq
  covers h h' := beq_iff_eq.mpr (Key.encodeString_covers h h')

instance : LawfulKeyType StdString where
  decodes {_ topic key} hlength h := by
    obtain rfl : StdString.mk (topic.take topic.length) = key := Except.ok.inj h
    rw [List.take_length]
    exact ⟨_, if_neg (Nat.not_lt.mpr hlength), hlength⟩
  encodes_front front more := by
    show Except.ok (StdString.mk ((front ++ more).take front.length)) =
      .ok ⟨front.take front.length⟩
    rw [List.take_left, List.take_length]
  full_iff := beq_iff_eq
  covers {_ front more key key'} h h' := by
    obtain rfl : StdString.mk (front.take front.length) = key := Except.ok.inj h
    obtain rfl : StdString.mk ((front ++ more).take (front ++ more).length) = key' :=
      Except.ok.inj h'
    simp only [KeyType.prefixKeyMatcher, List.take_length, beq_iff_eq]
    rw [Nat.min_eq_left (by simp), List.take_length, List.take_left]

/-! ### Keys that give the topic back -/

/-- The key of a topic of at most 128 bytes is the string itself. -/
theorem encodeKey_string (target : Target) (topic : List UInt8) :
    KeyType.encodeKey target topic topic.length = .ok (StdString.mk topic) := by
  show Except.ok (StdString.mk (topic.take topic.length)) = .ok ⟨topic⟩
  rw [List.take_length]

theorem decodeKey_string {topic : List UInt8} (h : topic.length ≤ 128) :
    ∃ decoded, KeyType.decodeKey (StdString.mk topic) (.empty 128) = .ok decoded ∧
      decoded.bytes = topic ∧ decoded.length = topic.length :=
  ⟨_, if_neg (Nat.not_lt.mpr h), StringBuffer.bytes_fill h, rfl⟩

/-- The 64-bit key of a plain topic. -/
theorem encodeKey_plain (target : Target) {topic : List UInt8} (h : Key.Plain topic) :
    ∃ key : UInt64, KeyType.encodeKey target topic topic.length = .ok key ∧
      ∃ decoded, KeyType.decodeKey key (.empty 128) = .ok decoded ∧
        decoded.bytes = topic ∧ decoded.length = topic.length := by
  obtain ⟨key, hkey, hdecode, hsize⟩ := Key.decode_encode target h
  have hle := h.length_le
  refine ⟨key, hkey, _, rfl, ?_, hsize⟩
  show StringBuffer.bytes ⟨StringBuffer.fill (StringBuffer.empty 128).data (Key.decode key),
    Key.decodedSize key⟩ = topic
  rw [hsize, hdecode]
  exact StringBuffer.bytes_fill (by omega)

/-! ### Faithful keys -/

/-- The topics in `Topic`, as far as a buffer holds them, are read back from their
keys. -/
structure Faithful (K : Type) [KeyType K] (target : Target) (Topic : List UInt8 → Prop) :
    Prop where
  round_trip {topic : List UInt8} : Topic topic → topic.length ≤ 128 →
    ∃ key : K, KeyType.encodeKey target topic topic.length = .ok key ∧
      ∃ decoded, KeyType.decodeKey key (.empty 128) = .ok decoded ∧
        decoded.bytes = topic ∧ decoded.length = topic.length

theorem faithful_string (target : Target) : Faithful StdString target fun _ => True where
  round_trip _ hlength := ⟨_, encodeKey_string target _, decodeKey_string hlength⟩

theorem faithful_plain (target : Target) : Faithful UInt64 target Key.Plain where
  round_trip hplain _ := encodeKey_plain target hplain

section

variable {K : Type} [KeyType K] {target : Target} {Topic : List UInt8 → Prop}
variable {topic topic' : List UInt8} {key : K}

/-- The key is one of a topic in `Topic`. -/
def KeyFor (target : Target) (Topic : List UInt8 → Prop) (topic : List UInt8) (key : K) : Prop :=
  Topic topic ∧ topic.length ≤ 128 ∧ KeyType.encodeKey target topic topic.length = .ok key

/-- The topic a key is sent as. -/
def topicOf (key : K) : List UInt8 :=
  match KeyType.decodeKey key (.empty 128) with
  | .ok decoded => decoded.bytes
  | .error _ => []

theorem Faithful.decodes (hF : Faithful K target Topic) (h : KeyFor target Topic topic key) :
    ∃ decoded, KeyType.decodeKey key (.empty 128) = .ok decoded ∧ decoded.bytes = topic := by
  obtain ⟨key', hkey', decoded, hdecode, hbytes, -⟩ := hF.round_trip h.1 h.2.1
  obtain rfl : key' = key := Except.ok.inj (hkey'.symm.trans h.2.2)
  exact ⟨decoded, hdecode, hbytes⟩

theorem Faithful.topicOf_eq (hF : Faithful K target Topic) (h : KeyFor target Topic topic key) :
    topicOf key = topic := by
  obtain ⟨decoded, hdecode, hbytes⟩ := hF.decodes h
  rw [topicOf, hdecode]
  exact hbytes

/-- Different topics have different keys. -/
theorem Faithful.key_eq_iff (hF : Faithful K target Topic) {key' : K}
    (h : KeyFor target Topic topic key) (h' : KeyFor target Topic topic' key') :
    key' = key ↔ topic' = topic := by
  constructor
  · rintro rfl
    exact (hF.topicOf_eq h').symm.trans (hF.topicOf_eq h)
  · rintro rfl
    exact Except.ok.inj (h'.2.2.symm.trans h.2.2)

/-- Different keys of topics are sent as different topics. -/
theorem Faithful.nodup_topics (hF : Faithful K target Topic) {keys : List K} (h : keys.Nodup)
    (hkeys : ∀ key ∈ keys, ∃ topic, KeyFor target Topic topic key) :
    (keys.map topicOf).Nodup := by
  apply h.map_on
  intro key hkey key' hkey' heq
  obtain ⟨topic, hfor⟩ := hkeys key hkey
  obtain ⟨topic', hfor'⟩ := hkeys key' hkey'
  rw [hF.topicOf_eq hfor, hF.topicOf_eq hfor'] at heq
  exact (hF.key_eq_iff hfor' hfor).mpr heq

end

end Gnat
