/-
Gnat/Interference.lean

When two topics interfere in a `DataStore<uint64_t>`.

Nothing checks that a topic fits into a key.  `isolated_iff` says exactly which
pairs of topics are kept apart: both have at most eight bytes, so that no shift
leaves the word, and the key does not keep the same of them.  The two letters
with an accent at the end of the file are not such a pair.
-/
import Gnat.Atomicity
import Gnat.Delivery
import Gnat.System

namespace Gnat

open Lib Prog

/-- The packet that is about to be handled is a PUBLISH to the topic. -/
def PublishesTo {W : Type} [Network W] (topic : List UInt8) (p : Packet) (m : Machine W) : Prop :=
  p.type = .publish ∧ ∃ publish p₁ m₁,
    Publish.readFrom p p.typeFlags m = .ok ((some publish, p₁), m₁) ∧
    publish.topic.bytes = topic

/-- The observer of a subscription to exactly the topic. -/
def IsObserverOf {K W : Type} [KeyType K] [Network W] (target : Target) (topic : List UInt8)
    (o : ObserverEntry K (ServerM W)) : Prop :=
  hash ∉ topic ∧ ∃ conn key n, KeyType.encodeKey target topic topic.length = .ok key ∧
    o = (subscriptionTo conn topic key n).entry

/-- In every state a server can reach, whatever the network does: a PUBLISH to
`a` that is answered `Ok` leaves the entry of `b` as it is, and the observers of
subscriptions to exactly `b` do nothing when they are told of it. -/
def NeverTouches (K : Type) [DecidableEq K] [KeyType K] (target : Target) (a b : List UInt8) :
    Prop :=
  ∀ (W : Type) [Network W] (net : W) (ls : List Label) (s s' : ServerState K W) (p : Packet),
    Run (Step target) (.initial K net) ls s → PublishesTo a p s.machine →
    Step target s (.handled p .ok) s' →
    (∀ key : K, KeyType.encodeKey target b b.length = .ok key →
      s'.store.get key = s.store.get key) ∧
    ∀ o ∈ s.store.observers, IsObserverOf target b o →
      ∀ (key : K) (entry : DataStoreEntry) (m : Machine W),
        KeyType.encodeKey target a a.length = .ok key → o.handler key entry m = .ok (true, m)

/-- What keeps two topics of a `DataStore<uint64_t>` apart. -/
structure Isolated (target : Target) (a b : List UInt8) : Prop where
  /-- No shift by 64 bits or more: a build that traps them does not stop. -/
  shifts : ∀ topic ∈ [a, b], ∃ key,
    Key.encodeString { target with trapsUndefined := true } topic topic.length = .ok key
  distinct : Key.encodeString target a a.length ≠ Key.encodeString target b b.length
  untouched : NeverTouches UInt64 target a b

/-! ### Shifts -/

theorem getChar_traps {target : Target} {topic : List UInt8} {index : Nat} {c : UInt64}
    (htraps : target.trapsUndefined = true) (h : Key.getChar target topic index = .ok c) :
    index < 8 := by
  unfold Key.getChar Target.shiftLeft at h
  split at h
  · cases h
  · next hshift =>
    have : ¬ 64 ≤ 8 * index := fun hle => hshift ⟨hle, htraps⟩
    omega

/-- The loop of `EncodeString` shifts by less than 64 bits in at most eight
rounds. -/
theorem encodeString_traps {target : Target} {topic : List UInt8} {n : Nat} {key : UInt64}
    (htraps : target.trapsUndefined = true) (h : Key.encodeString target topic n = .ok key) :
    n ≤ 8 := by
  cases n with
  | zero => omega
  | succ n =>
      rw [Key.encodeString_succ] at h
      rcases hn : Key.encodeString target topic n with e | encoded
      · rw [hn] at h
        cases h
      · rw [hn] at h
        rcases hc : Key.getChar target topic n with e | c
        · have h : Key.encodeChar target topic encoded n = .ok key := h
          rw [Key.encodeChar, hc] at h
          cases h
        · exact getChar_traps htraps hc

theorem shifts_iff (target : Target) (topic : List UInt8) :
    (∃ key, Key.encodeString { target with trapsUndefined := true } topic topic.length =
      .ok key) ↔ topic.length ≤ 8 := by
  constructor
  · rintro ⟨key, hkey⟩
    exact encodeString_traps rfl hkey
  · intro hlength
    obtain ⟨key, hkey, -⟩ := Key.encode_short { target with trapsUndefined := true } hlength
    exact ⟨key, hkey⟩

/-! ### Distinct keys do not touch each other -/

section

variable {W : Type} [Network W] {K : Type} [DecidableEq K] [KeyType K] {target : Target}
variable {s s' : ServerState K W} {p : Packet} {a b : List UInt8}

/-- A PUBLISH to a topic changes at most the entry of its key. -/
theorem Step.publishes (h : Step target s (.handled p .ok) s')
    (hp : PublishesTo a p s.machine) :
    ∃ key, KeyType.encodeKey target a a.length = .ok key ∧
      SameEntriesBut key s.store s'.store := by
  obtain ⟨htype, publish, p₁, m₁, hread, rfl⟩ := hp
  cases h with
  | handle htarget _ hok =>
      subst htarget
      obtain ⟨publish', p₂, m₂, key, hread', hkey, hsame⟩ :=
        (handled_of_ok hok).published_key rfl htype
      obtain rfl : publish' = publish := by
        have := hread'.symm.trans hread
        simp only [Except.ok.injEq, Prod.mk.injEq, Option.some.injEq] at this
        exact this.1.1
      have hlength : publish'.topic.length ≤ 128 :=
        (((Publish.readFrom_reads p p.typeFlags s.machine).ok hread).2 publish' rfl).1
      rw [← StringBuffer.length_bytes hlength] at hkey
      exact ⟨key, hkey, hsame⟩

omit [DecidableEq K] in
/-- The observer of another key does nothing. -/
theorem IsObserverOf.quiet [LawfulKeyType K] {o : ObserverEntry K (ServerM W)}
    (ho : IsObserverOf target b o) {key : K}
    (hkey : ∀ key', KeyType.encodeKey target b b.length = .ok key' → key' ≠ key)
    (entry : DataStoreEntry) (m : Machine W) : o.handler key entry m = .ok (true, m) := by
  obtain ⟨hhash, conn, key', n, hkey', rfl⟩ := ho
  have hmatcher : ¬ filterMatcher b key' key = true := by
    rw [filterMatcher, if_neg hhash, LawfulKeyType.full_iff]
    exact hkey key' hkey'
  show observer (filterMatcher b key') (heapCopy conn n) key entry m = .ok (true, m)
  rw [observer, if_neg hmatcher]
  rfl

end

theorem neverTouches_of_distinct {K : Type} [DecidableEq K] [KeyType K] [LawfulKeyType K]
    {target : Target} {a b : List UInt8}
    (h : ∀ key key' : K, KeyType.encodeKey target a a.length = .ok key →
      KeyType.encodeKey target b b.length = .ok key' → key' ≠ key) :
    NeverTouches K target a b := by
  intro W _ net ls s s' p _ hp hstep
  obtain ⟨key, hkey, hsame⟩ := hstep.publishes hp
  refine ⟨fun key' hkey' => hsame key' (h key key' hkey hkey'), ?_⟩
  intro o _ ho key₂ entry m hkey₂
  exact ho.quiet (fun key' => h key₂ key' hkey₂) entry m

/-- **Which topics are kept apart.**  Both have at most eight bytes, and the keys
do not keep the same of them. -/
theorem isolated_iff (target : Target) (a b : List UInt8) :
    Isolated target a b ↔
      a.length ≤ 8 ∧ b.length ≤ 8 ∧ Key.clip target a ≠ Key.clip target b := by
  constructor
  · intro h
    have ha := (shifts_iff target a).mp (h.shifts a (by simp))
    have hb := (shifts_iff target b).mp (h.shifts b (by simp))
    exact ⟨ha, hb, fun heq => h.distinct ((Key.encode_eq_iff ha hb).mpr heq)⟩
  · rintro ⟨ha, hb, hclip⟩
    have hdistinct : Key.encodeString target a a.length ≠ Key.encodeString target b b.length :=
      fun heq => hclip ((Key.encode_eq_iff ha hb).mp heq)
    refine ⟨?_, hdistinct, neverTouches_of_distinct fun key key' hkey hkey' heq => ?_⟩
    · intro topic htopic
      apply (shifts_iff target topic).mpr
      simp only [List.mem_cons, List.not_mem_nil, or_false] at htopic
      rcases htopic with rfl | rfl
      · exact ha
      · exact hb
    · exact hdistinct ((hkey.trans (heq ▸ rfl)).trans hkey'.symm)

/-! ### Two letters -/

/-- The letters `é` and `ü`, in UTF-8. -/
def acute : List UInt8 := [0xC3, 0xA9]
def umlaut : List UInt8 := [0xC3, 0xBC]

/-- The client 7 subscribes to `ü`. -/
def subscribeToUmlaut : Event UInt64 :=
  .packet (subscribeAs7 1 [⟨umlaut, 0⟩] (by decide) (by decide)) (.asKept UInt64)

/-- With a signed `char` what is published to `é` replaces the entry of `ü` and is
delivered to the subscriber of exactly `ü`, under a third name. -/
theorem acute_reaches_umlaut :
    ¬ Isolated {} acute umlaut ∧
    ∃ (s₁ s₂ : ServerState UInt64 Wire) (key : UInt64),
      processAll {} (.initial UInt64 ({} : Wire))
        [publishAs8 0x30 umlaut [1] rfl (by decide) (by decide), subscribeToUmlaut] =
          .ok ([some .ok, some .ok], s₁) ∧
      (publishAs8 0x30 acute [2] rfl (by decide) (by decide)).process {} s₁ = .ok (some .ok, s₂) ∧
      KeyType.encodeKey {} umlaut umlaut.length = .ok key ∧
      (s₁.store.get key).map DataStoreEntry.data = some [1] ∧
      (s₂.store.get key).map DataStoreEntry.data = some [2] ∧
      s₂.machine.written = s₁.machine.written ++
        publication (heapCopy { socket := 1, id := 7 } 0)
          [0xC3, 0xFF, 0xFF, 0xFF, 0xFF, 0xFF, 0xFF, 0xFF] [2] := by
  refine ⟨fun h => h.distinct (by decide +kernel), ?_⟩
  have hkey : (KeyType.encodeKey {} umlaut umlaut.length : Except Fault UInt64) =
      .ok 0xFFFFFFFFFFFFFFC3 := by
    decide +kernel
  have conversation :
      ((do
        let (statuses, s₁) ← processAll {} (.initial UInt64 ({} : Wire))
          [publishAs8 0x30 umlaut [1] rfl (by decide) (by decide), subscribeToUmlaut]
        let (status, s₂) ← (publishAs8 0x30 acute [2] rfl (by decide) (by decide)).process {} s₁
        return (statuses, status, decide (
          (s₁.store.get 0xFFFFFFFFFFFFFFC3).map DataStoreEntry.data = some [1] ∧
          (s₂.store.get 0xFFFFFFFFFFFFFFC3).map DataStoreEntry.data = some [2] ∧
          s₂.machine.written = s₁.machine.written ++
            publication (heapCopy { socket := 1, id := 7 } 0)
              [0xC3, 0xFF, 0xFF, 0xFF, 0xFF, 0xFF, 0xFF, 0xFF] [2]))) : Except Fault _) =
        .ok ([some .ok, some .ok], some .ok, true) := by
    decide +kernel
  obtain ⟨statuses, s₁, h₁, h⟩ := exists_ok_of_bind conversation
  obtain ⟨status, s₂, h₂, h⟩ := exists_ok_of_bind h
  simp only [pure, Except.pure, Except.ok.injEq, Prod.mk.injEq, decide_eq_true_eq] at h
  obtain ⟨rfl, rfl, hbefore, hafter, hwritten⟩ := h
  exact ⟨s₁, s₂, _, h₁, h₂, hkey, hbefore, hafter, hwritten⟩

end Gnat
