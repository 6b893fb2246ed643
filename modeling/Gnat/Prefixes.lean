/-
Gnat/Prefixes.lean

Which topics a filter that ends in `#` lets through.

`PrefixSound` is what the prefix matchers are for: only topics within the prefix
are accepted, and the observers of the others do nothing.  The 64-bit matcher
compares bits, so it also accepts topics whose characters have the bits of the
prefix and others besides (`prefixSound_plain_iff`).  The one for strings compares
up to the end of the shorter string, so it also accepts what the prefix starts
with (`prefixSound_string_iff`).
-/
import Gnat.Delivery

namespace Gnat

open Lib Prog

/-- The topic starts with the prefix, or is the prefix without a `/` at its end. -/
def Within (front topic : List UInt8) : Prop :=
  front <+: topic ∨ front = topic ++ [0x2F]

instance (front topic : List UInt8) : Decidable (Within front topic) := by
  unfold Within; infer_instance

/-- The prefix matcher keeps to the topics within a prefix, and so do the observers
of its subscriptions: told of another topic, they write nothing. -/
structure PrefixSound (K : Type) [KeyType K] (target : Target) (front topic : List UInt8) :
    Prop where
  matcher : ∀ key key' : K, KeyType.encodeKey target front front.length = .ok key →
    KeyType.encodeKey target topic topic.length = .ok key' →
    KeyType.prefixKeyMatcher key key' = true → Within front topic
  observer : ¬ Within front topic → ∀ (W : Type) [Network W] (conn : ClientConnection)
    (n : Nat) (key key' : K) (entry : DataStoreEntry) (m : Machine W),
    KeyType.encodeKey target (front ++ [hash]) (filterKeyBytes (front ++ [hash])) = .ok key →
    KeyType.encodeKey target topic topic.length = .ok key' →
    (subscriptionTo conn (front ++ [hash]) key n).entry.handler key' entry m = .ok (true, m)

section

variable {K : Type} [KeyType K] [LawfulKeyType K] {target : Target}
variable {front topic : List UInt8}

omit [KeyType K] [LawfulKeyType K] in
theorem filterKeyBytes_hash (front : List UInt8) :
    filterKeyBytes (front ++ [hash]) = front.length := by
  rw [filterKeyBytes, if_pos (by simp), List.length_append]
  rfl

/-- The key of a filter that ends in `#` is that of the prefix in front of it. -/
theorem encodeKey_hash (target : Target) (front : List UInt8) :
    (KeyType.encodeKey target (front ++ [hash]) (filterKeyBytes (front ++ [hash])) :
      Except Fault K) = KeyType.encodeKey target front front.length := by
  rw [filterKeyBytes_hash]
  exact LawfulKeyType.encodes_front front [hash]

omit [LawfulKeyType K] in
theorem filterMatcher_hash (front : List UInt8) (key : K) :
    filterMatcher (front ++ [hash]) key = KeyType.prefixKeyMatcher key :=
  if_pos (by simp)

/-- Observers keep to what the matcher accepts. -/
theorem prefixSound_of_matcher
    (h : ∀ key key' : K, KeyType.encodeKey target front front.length = .ok key →
      KeyType.encodeKey target topic topic.length = .ok key' →
      KeyType.prefixKeyMatcher key key' = true → Within front topic) :
    PrefixSound K target front topic where
  matcher := h
  observer hout W _ conn n key key' entry m hkey hkey' := by
    rw [encodeKey_hash] at hkey
    show observer (filterMatcher (front ++ [hash]) key) (heapCopy conn n) key' entry m =
      .ok (true, m)
    have hrejects : ¬ KeyType.prefixKeyMatcher key key' = true := fun haccepts =>
      hout (h key key' hkey hkey' haccepts)
    rw [observer, filterMatcher_hash, if_neg hrejects]
    rfl

end

/-! ### 64-bit keys -/

/-- Each character of the prefix has its bits in the character of the topic at the
same place.  Behind the end of the topic are zeros. -/
def BitsNest (front topic : List UInt8) : Prop :=
  ∀ i < front.length, front.getD i 0 &&& topic.getD i 0 = front.getD i 0

instance (front topic : List UInt8) : Decidable (BitsNest front topic) := by
  unfold BitsNest; infer_instance

/-- The matcher decides the nesting of bits. -/
theorem matches_plain_iff {target : Target} {front topic : List UInt8} {key key' : UInt64}
    (hfront : Key.Plain front) (htopic : Key.Plain topic)
    (hkey : KeyType.encodeKey target front front.length = .ok key)
    (hkey' : KeyType.encodeKey target topic topic.length = .ok key') :
    KeyType.prefixKeyMatcher key key' = true ↔ BitsNest front topic := by
  obtain ⟨x, hx, hbytes⟩ := Key.encode_short target hfront.length_le
  obtain ⟨y, hy, hbytes'⟩ := Key.encode_short target htopic.length_le
  obtain rfl : x = key := Except.ok.inj (hx.symm.trans hkey)
  obtain rfl : y = key' := Except.ok.inj (hy.symm.trans hkey')
  have hle := hfront.length_le
  show (x &&& y == x) = true ↔ _
  rw [beq_iff_eq, Word.and_eq_left_iff]
  constructor
  · intro h i hi
    have hbyte := h i (by omega)
    rwa [hbytes i (by omega), hbytes' i (by omega), Key.image_plain hfront.chars,
      Key.image_plain htopic.chars] at hbyte
  · intro h j hj
    rw [hbytes j hj, hbytes' j hj, Key.image_plain hfront.chars, Key.image_plain htopic.chars]
    rcases Nat.lt_or_ge j front.length with hlt | hge
    · exact h j hlt
    · -- behind the prefix there are no bits to be had
      rw [List.getD_eq_default _ _ hge]
      exact UInt8.zero_and

/-- Characters are not zero, so nesting bits need a topic that is long enough. -/
theorem BitsNest.length_le {front topic : List UInt8} (hfront : Key.Plain front)
    (h : BitsNest front topic) : front.length ≤ topic.length := by
  by_contra hlt
  have hbyte := h topic.length (by omega)
  rw [List.getD_eq_default topic _ (Nat.le_refl _), UInt8.and_zero] at hbyte
  have hmem : front.getD topic.length 0 ∈ front := by
    rw [List.getD_eq_getElem _ _ (by omega)]
    exact List.getElem_mem _
  have hpos := (hfront.chars _ hmem).1
  rw [← hbyte] at hpos
  exact absurd hpos (by decide)

/-- The 64-bit prefix matcher is sound for a prefix and a topic if and only if the
topic starts with the prefix or lacks a bit of it. -/
theorem prefixSound_plain_iff (target : Target) {front topic : List UInt8}
    (hfront : Key.Plain front) (htopic : Key.Plain topic) :
    PrefixSound UInt64 target front topic ↔ (BitsNest front topic → front <+: topic) := by
  constructor
  · intro h hnest
    obtain ⟨key, hkey, -⟩ := encodeKey_plain target hfront
    obtain ⟨key', hkey', -⟩ := encodeKey_plain target htopic
    rcases h.matcher key key' hkey hkey'
      ((matches_plain_iff hfront htopic hkey hkey').mpr hnest) with hwithin | rfl
    · exact hwithin
    · have hle := hnest.length_le hfront
      simp at hle
  · intro h
    apply prefixSound_of_matcher
    intro key key' hkey hkey' haccepts
    exact .inl (h ((matches_plain_iff hfront htopic hkey hkey').mp haccepts))

/-- `ab` and `abc`. -/
theorem prefixSound_plain_abc : PrefixSound UInt64 {} [0x61, 0x62] [0x61, 0x62, 0x63] :=
  (prefixSound_plain_iff {} (by decide +kernel) (by decide +kernel)).mpr fun _ => by decide

/-- What is published to `c` is sent to the subscriber of `a#`. -/
theorem prefix_a_lets_c_through :
    ¬ PrefixSound UInt64 {} [0x61] [0x63] ∧
    ∃ s : ServerState UInt64 Wire,
      processAll {} (.initial UInt64 ({} : Wire))
        [.packet (subscribeAs7 1 [⟨[0x61, hash], 0⟩] (by decide) (by decide)) (.asKept UInt64),
          publishAs8 0x30 [0x63] [1] rfl (by decide) (by decide)] =
            .ok ([some .ok, some .ok], s) ∧
      s.machine.written = ⟨{ socket := 1, id := 7 }, subackFrame 1 [0], true⟩ ::
        publication (heapCopy { socket := 1, id := 7 } 0) [0x63] [1] := by
  constructor
  · intro h
    have hwithin := h.matcher 0x61 0x63 (by decide +kernel) (by decide +kernel) (by decide)
    exact absurd hwithin (by decide)
  · obtain ⟨statuses, s, hrun, hview⟩ := exists_ok_of_map
      (t := processAll {} (.initial UInt64 ({} : Wire))
        [.packet (subscribeAs7 1 [⟨[0x61, hash], 0⟩] (by decide) (by decide)) (.asKept UInt64),
          publishAs8 0x30 [0x63] [1] rfl (by decide) (by decide)])
      (g := fun r => (r.1, r.2.machine.written))
      (c := ([some .ok, some .ok], ⟨{ socket := 1, id := 7 }, subackFrame 1 [0], true⟩ ::
        publication (heapCopy { socket := 1, id := 7 } 0) [0x63] [1])) (by decide +kernel)
    obtain ⟨rfl, hwritten⟩ := Prod.mk.inj hview
    exact ⟨s, hrun, hwritten⟩

/-! ### String keys -/

/-- The matcher decides whether one of the strings starts with the other. -/
theorem matches_string_iff (front topic : List UInt8) :
    KeyType.prefixKeyMatcher (StdString.mk front) (StdString.mk topic) = true ↔
      front <+: topic ∨ topic <+: front := by
  show (front.take (min front.length topic.length) ==
    topic.take (min front.length topic.length)) = true ↔ _
  rw [beq_iff_eq]
  rcases Nat.le_total front.length topic.length with hle | hle
  · rw [Nat.min_eq_left hle, List.take_length, List.prefix_iff_eq_take]
    refine ⟨.inl, ?_⟩
    rintro (h | h)
    · exact h
    · rw [h.eq_of_length (Nat.le_antisymm h.length_le hle), List.take_length]
  · rw [Nat.min_eq_right hle, List.take_length, eq_comm, ← List.prefix_iff_eq_take]
    refine ⟨.inr, ?_⟩
    rintro (h | h)
    · rw [h.eq_of_length (Nat.le_antisymm h.length_le hle)]
    · exact h

/-- The prefix matcher for strings is sound for a prefix and a topic if and only if
the topic is not a proper prefix of the prefix, or only a `/` shorter. -/
theorem prefixSound_string_iff (target : Target) (front topic : List UInt8) :
    PrefixSound StdString target front topic ↔
      (topic <+: front → topic = front ∨ front = topic ++ [0x2F]) := by
  constructor
  · intro h hshorter
    rcases h.matcher _ _ (encodeKey_string target front) (encodeKey_string target topic)
      ((matches_string_iff front topic).mpr (.inr hshorter)) with hwithin | hslash
    · exact .inl (hshorter.eq_of_length (Nat.le_antisymm hshorter.length_le hwithin.length_le))
    · exact .inr hslash
  · intro h
    apply prefixSound_of_matcher
    intro key key' hkey hkey' haccepts
    obtain rfl := Except.ok.inj ((encodeKey_string target front).symm.trans hkey)
    obtain rfl := Except.ok.inj ((encodeKey_string target topic).symm.trans hkey')
    rcases (matches_string_iff front topic).mp haccepts with hwithin | hshorter
    · exact .inl hwithin
    · rcases h hshorter with rfl | hslash
      · exact .inl (List.prefix_refl _)
      · exact .inr hslash

/-- What is published to `a` is sent to the subscriber of `abc#`. -/
theorem prefix_abc_lets_a_through :
    ¬ PrefixSound StdString {} [0x61, 0x62, 0x63] [0x61] ∧
    ∃ s : ServerState StdString Wire,
      processAll {} (.initial StdString ({} : Wire))
        [.packet (subscribeAs7 1 [⟨[0x61, 0x62, 0x63, hash], 0⟩] (by decide) (by decide))
            (.asKept StdString),
          publishAs8 0x30 [0x61] [1] rfl (by decide) (by decide)] =
            .ok ([some .ok, some .ok], s) ∧
      s.machine.written = ⟨{ socket := 1, id := 7 }, subackFrame 1 [0], true⟩ ::
        publication (heapCopy { socket := 1, id := 7 } 0) [0x61] [1] := by
  constructor
  · intro h
    have hwithin := h.matcher ⟨[0x61, 0x62, 0x63]⟩ ⟨[0x61]⟩ rfl rfl (by decide)
    exact absurd hwithin (by decide)
  · obtain ⟨statuses, s, hrun, hview⟩ := exists_ok_of_map
      (t := processAll {} (.initial StdString ({} : Wire))
        [.packet (subscribeAs7 1 [⟨[0x61, 0x62, 0x63, hash], 0⟩] (by decide) (by decide))
            (.asKept StdString),
          publishAs8 0x30 [0x61] [1] rfl (by decide) (by decide)])
      (g := fun r => (r.1, r.2.machine.written))
      (c := ([some .ok, some .ok], ⟨{ socket := 1, id := 7 }, subackFrame 1 [0], true⟩ ::
        publication (heapCopy { socket := 1, id := 7 } 0) [0x61] [1])) (by decide +kernel)
    obtain ⟨rfl, hwritten⟩ := Prod.mk.inj hview
    exact ⟨s, hrun, hwritten⟩

end Gnat
