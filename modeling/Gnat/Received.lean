/-
Gnat/Received.lean

What the parsers make of a well-formed message that arrives whole.

`At conn n body rest p m` says where a parser stands: `body` is what the packet
`p` of the connection `conn` still has to read, `rest` is what follows it in
the stream, and `n` heap copies were made so far.  Each parser has one lemma:
from the bytes of its field on it returns, with the field, and stands behind
it.  On a reliable network a field of no bytes arrives like any other.
-/
import Gnat.Handled
import Gnat.Message

namespace Gnat

open Lib Prog StreamNetwork

variable {W : Type} [ReliableNetwork W] {E : Fault → Prop}
variable {conn : ClientConnection} {n : Nat} {body more rest : List UInt8}
variable {p : Packet} {m : Machine W}

/-- Where a parser stands in the packet and in the stream behind it. -/
structure At (conn : ClientConnection) (n : Nat) (body rest : List UInt8) (p : Packet)
    (m : Machine W) : Prop where
  connection : p.connection = conn
  size : p.bytesRemaining = body.length
  front : input conn.socket m.net = body ++ rest
  heapCopies : m.heapCopies = n

/-! ### The field readers -/

theorem At.read {taken : List UInt8} {size : Nat} (h : At conn n (taken ++ more) rest p m)
    (hsize : taken.length = size) :
    wp (p.read size) (fun r m' => r.1 = some ⟨taken, hsize⟩ ∧ At conn n more rest r.2 m')
      E m := by
  obtain ⟨rfl, hremaining, hfront, rfl⟩ := h
  rw [List.length_append] at hremaining
  rw [List.append_assoc] at hfront
  have hsome : (Network.read p.connection.socket size m.net).1.isSome := by
    apply ReliableNetwork.read_succeeds
    rw [hfront, List.length_append]
    omega
  obtain ⟨hread, hbehind⟩ := read_front hfront hsize hsome
  simp only [Packet.read, wp_bind, wp_check, wp_read, hread]
  rw [if_pos (by omega)]
  refine ⟨rfl, rfl, ?_, hbehind, rfl⟩
  show p.bytesRemaining - size = more.length
  omega

theorem At.client_read {taken : List UInt8} (size : Nat)
    (h : At conn n (taken ++ more) rest p m) (hsize : taken.length = size) :
    wp (Client.read p size)
      (fun r m' => r.1 = some ⟨taken, hsize⟩ ∧ At conn n more rest r.2 m') E m :=
  h.read hsize

/-- The two bytes in front of a string say how long it is. -/
theorem At.readString_length {size : Nat} {s : List UInt8} {out : StringBuffer size}
    {Q : Bool × StringBuffer size × Packet → Machine W → Prop}
    (h : At conn n (wireString s ++ more) rest p m) (hs : s.length < 2 ^ 16)
    (hbytes : ∀ p₁ m₁, At conn n (s ++ more) rest p₁ m₁ →
      wp (readStringBytes out s.length p₁) Q E m₁) : wp (Gnat.readString out p) Q E m := by
  rw [wireString, List.append_assoc] at h
  simp only [Gnat.readString, wp_bind]
  refine wp_imp (h.client_read 2 rfl) ?_
  rintro ⟨_, p₁⟩ m₁ ⟨rfl, h₁⟩
  have hlength : wireUInt16 (UInt8.ofNat (s.length / 256)) (UInt8.ofNat s.length) =
      s.length := wireUInt16_wireBytes hs
  show wp (readStringBytes out (wireUInt16 (UInt8.ofNat (s.length / 256))
    (UInt8.ofNat s.length)) p₁) Q E m₁
  rw [hlength]
  exact hbytes p₁ m₁ h₁

theorem At.readString {size : Nat} {s : List UInt8} (out : StringBuffer size)
    (h : At conn n (wireString s ++ more) rest p m) (hs : s.length ≤ size)
    (hsize : size < 2 ^ 16) :
    wp (Gnat.readString out p)
      (fun r m' => r.1 = true ∧ r.2.1 = ⟨StringBuffer.fill out.data s, s.length⟩ ∧
        At conn n more rest r.2.2 m') E m := by
  refine h.readString_length (by omega) fun p₁ m₁ h₁ => ?_
  simp only [readStringBytes, wp_ite, wp_bind]
  rw [if_neg (Nat.not_lt.mpr hs)]
  refine wp_imp (h₁.client_read s.length rfl) ?_
  rintro ⟨_, p₂⟩ m₂ ⟨rfl, h₂⟩
  exact ⟨rfl, rfl, h₂⟩

/-- A string that does not fit is not read. -/
theorem At.readString_long {size : Nat} {s : List UInt8} (out : StringBuffer size)
    (h : At conn n (wireString s ++ more) rest p m) (hs : size < s.length)
    (hlength : s.length < 2 ^ 16) :
    wp (Gnat.readString out p) (fun r m' => r.1 = false ∧ m'.heapCopies = n) E m := by
  refine h.readString_length hlength fun p₁ m₁ h₁ => ?_
  rw [readStringBytes, wp_ite, if_pos hs]
  exact ⟨rfl, h₁.heapCopies⟩

theorem At.readUInt8 {b : UInt8} (out : UInt8) (h : At conn n (b :: more) rest p m) :
    wp (Gnat.readUInt8 out p)
      (fun r m' => r.1 = true ∧ r.2.1 = b ∧ At conn n more rest r.2.2 m') E m := by
  have h : At conn n ([b] ++ more) rest p m := h
  simp only [Gnat.readUInt8, readBytes, readBytesLoop, wp_bind]
  refine wp_imp (h.client_read 1 rfl) ?_
  rintro ⟨_, p₁⟩ m₁ ⟨rfl, h₁⟩
  exact ⟨rfl, rfl, h₁⟩

/-- A `uint16_t` is the number on the wire, byte order and all. -/
theorem ofMemoryUInt16_wireBytes (x : UInt16) :
    ofMemoryUInt16 [UInt8.ofNat x.toNat, UInt8.ofNat (x.toNat / 256)] = x := by
  show UInt16.ofNat (wireUInt16 (UInt8.ofNat (x.toNat / 256)) (UInt8.ofNat x.toNat)) = x
  rw [wireUInt16_wireBytes x.toNat_lt]
  exact UInt16.ofNat_toNat

theorem At.readUInt16 {x : UInt16} (out : UInt16)
    (h : At conn n (wireBytes x.toNat ++ more) rest p m) :
    wp (Gnat.readUInt16 out p)
      (fun r m' => r.1 = true ∧ r.2.1 = x ∧ At conn n more rest r.2.2 m') E m := by
  have h : At conn n ([UInt8.ofNat (x.toNat / 256)] ++ ([UInt8.ofNat x.toNat] ++ more))
    rest p m := h
  simp only [Gnat.readUInt16, readBytes, readBytesLoop, wp_bind]
  refine wp_imp (h.client_read 1 rfl) ?_
  rintro ⟨_, p₁⟩ m₁ ⟨rfl, h₁⟩
  refine wp_imp (h₁.client_read 1 rfl) ?_
  rintro ⟨_, p₂⟩ m₂ ⟨rfl, h₂⟩
  exact ⟨rfl, ofMemoryUInt16_wireBytes x, h₂⟩

/-! ### CONNECT and PUBLISH -/

/-- What `Connect::ReadFrom` is to return: it does not read a client id. -/
def connectOf (name : List UInt8) (level flags : UInt8) (keepAlive : UInt16) : Connect where
  protocolName := ⟨StringBuffer.fill (StringBuffer.empty 6).data name, name.length⟩
  protocolLevel := level
  flags := flags
  keepAlive := keepAlive

theorem At.connect {target : Target} {name payload : List UInt8} {level flags : UInt8}
    {keepAlive : UInt16} (hname : name.length ≤ 6)
    (h : At conn n ((Message.connect name level flags keepAlive payload).body 0) rest p m) :
    wp (Connect.readFrom target p)
      (fun r m' => r.1 = some (connectOf name level flags keepAlive) ∧
        At conn n payload rest r.2 m') E m := by
  have h : At conn n (wireString name ++ level :: flags :: (wireBytes keepAlive.toNat ++
      payload)) rest p m := by
    simpa only [Message.body, List.append_assoc, List.cons_append, List.nil_append] using h
  simp only [Connect.readFrom, wp_bind]
  refine wp_imp (h.readString _ hname (by decide)) ?_
  rintro ⟨_, _, p₁⟩ m₁ ⟨rfl, rfl, h₁⟩
  rw [if_pos rfl, wp_bind]
  refine wp_imp (h₁.readUInt8 _) ?_
  rintro ⟨_, _, p₂⟩ m₂ ⟨rfl, rfl, h₂⟩
  rw [if_pos rfl, wp_bind]
  refine wp_imp (h₂.readUInt8 _) ?_
  rintro ⟨_, _, p₃⟩ m₃ ⟨rfl, rfl, h₃⟩
  rw [if_pos rfl, wp_bind]
  refine wp_imp (h₃.readUInt16 _) ?_
  rintro ⟨_, _, p₄⟩ m₄ ⟨rfl, rfl, h₄⟩
  exact ⟨rfl, h₄⟩

/-- The header `Publish::ReadFrom` is to return. -/
def publishOf (topic payload : List UInt8) : Publish where
  topic := ⟨StringBuffer.fill (StringBuffer.empty 128).data topic, topic.length⟩
  payloadBytes := payload.length

theorem publishOf_bytes {topic payload : List UInt8} (h : topic.length ≤ 128) :
    (publishOf topic payload).topic.bytes = topic :=
  StringBuffer.bytes_fill h

theorem At.publish {topic payload : List UInt8} {packetId : UInt16} {flags : UInt8}
    (htopic : topic.length ≤ 128)
    (h : At conn n ((Message.publish topic packetId payload).body flags) rest p m) :
    wp (Publish.readFrom p flags)
      (fun r m' => r.1 = some (publishOf topic payload) ∧ At conn n payload rest r.2 m')
      E m := by
  simp only [Message.body] at h
  simp only [Publish.readFrom, wp_bind]
  refine wp_imp (h.readString _ htopic (by decide)) ?_
  rintro ⟨_, _, p₁⟩ m₁ ⟨rfl, rfl, h₁⟩
  rw [if_pos rfl]
  simp only [wp_ite, wp_bind, wp_pure]
  split
  · next hid =>
    -- the packet id is read and dropped, so that it is not taken for payload
    rw [if_pos hid] at h₁
    refine wp_imp (h₁.readUInt16 _) ?_
    rintro ⟨_, _, p₂⟩ m₂ ⟨rfl, rfl, h₂⟩
    exact ⟨by rw [publishOf, ← h₂.size], h₂⟩
  · next hid =>
    rw [if_neg hid, List.nil_append] at h₁
    exact ⟨by rw [publishOf, ← h₁.size], h₁⟩

/-! ### The loop of `Subscribe::ReadFrom` -/

section

variable {γ : Type} {callback : γ → List UInt8 → ServerM W (Bool × γ)}
variable {I : List Filter → γ → Nat → Prop} {R : γ → Nat → Prop}

/-- What the rounds of the loop keep: `I` of the filters to come, what the callback
captures and the number of heap copies.  A filter that the callback does not accept, or
that does not fit into the buffer, leaves `R`. -/
structure LoopInvariant (callback : γ → List UInt8 → ServerM W (Bool × γ)) (socket : Nat)
    (I : List Filter → γ → Nat → Prop) (R : γ → Nat → Prop) (E : Fault → Prop) : Prop where
  round {f : Filter} {filters : List Filter} {captured : γ} {m : Machine W} :
    f.topic.length ≤ 128 → I (f :: filters) captured m.heapCopies →
      wp (callback captured f.topic)
        (fun r m' => input socket m'.net = input socket m.net ∧
          (r.1 = true → I filters r.2 m'.heapCopies) ∧ (r.1 = false → R r.2 m'.heapCopies))
        E m
  long {f : Filter} {filters : List Filter} {captured : γ} {n : Nat} :
    128 < f.topic.length → I (f :: filters) captured n → R captured n

/-- **The rule of the loop**, over filters that arrive. -/
theorem LoopInvariant.readTopics {filters : List Filter} {fuel : Nat}
    {topic : StringBuffer 128} {captured : γ}
    (hinv : LoopInvariant callback conn.socket I R E)
    (hlength : ∀ f ∈ filters, f.topic.length < 2 ^ 16)
    (hfuel : (filters.flatMap Filter.bytes).length ≤ fuel) (hI : I filters captured n)
    (h : At conn n (filters.flatMap Filter.bytes) rest p m) :
    wp (Subscribe.readTopics callback fuel topic captured p)
      (fun r m' => r.1 = true ∧ (∃ n', I [] r.2.1 n' ∧ At conn n' [] rest r.2.2 m') ∨
        r.1 = false ∧ R r.2.1 m'.heapCopies) E m := by
  induction filters generalizing fuel topic captured p m n with
  | nil =>
      rw [Subscribe.readTopics.eq_def, wp_ite, if_neg (by simp [h.size])]
      exact .inl ⟨rfl, n, hI, h⟩
  | cons f filters ih =>
      rw [List.flatMap_cons, List.length_append, Filter.length_bytes] at hfuel
      have h : At conn n (wireString f.topic ++ f.options :: filters.flatMap Filter.bytes)
          rest p m := by
        simpa only [List.flatMap_cons, Filter.bytes, List.append_assoc, List.cons_append,
          List.nil_append] using h
      have hpos : 0 < p.bytesRemaining := by
        rw [h.size, List.length_append, length_wireString]
        omega
      obtain ⟨fuel, rfl⟩ : ∃ k, fuel = k + 1 := ⟨fuel - 1, by omega⟩
      rw [Subscribe.readTopics, wp_ite, if_pos hpos]
      simp only [wp_bind]
      rcases Nat.lt_or_ge 128 f.topic.length with hlong | hshort
      · refine wp_imp (h.readString_long topic hlong (hlength f List.mem_cons_self)) ?_
        rintro ⟨_, _, p₁⟩ m₁ ⟨rfl, hcopies⟩
        exact .inr ⟨rfl, hcopies.symm ▸ hinv.long hlong hI⟩
      refine wp_imp (h.readString topic hshort (by decide)) ?_
      rintro ⟨_, _, p₁⟩ m₁ ⟨rfl, rfl, h₁⟩
      -- the part of the buffer the callback gets is the topic
      rw [if_pos rfl, wp_bind, StringBuffer.bytes_fill hshort]
      refine wp_imp (hinv.round hshort (h₁.heapCopies.symm ▸ hI)) ?_
      rintro ⟨accepted, captured₂⟩ m₂ ⟨hinput, haccepts, hrefuses⟩
      cases accepted with
      | false => exact .inr ⟨rfl, hrefuses rfl⟩
      | true =>
          have h₂ : At conn m₂.heapCopies (f.options :: filters.flatMap Filter.bytes) rest
              p₁ m₂ :=
            ⟨h₁.connection, h₁.size, hinput.trans h₁.front, rfl⟩
          rw [if_pos rfl, wp_bind]
          refine wp_imp (h₂.readUInt8 0) ?_
          rintro ⟨_, _, p₃⟩ m₃ ⟨rfl, rfl, h₃⟩
          rw [if_pos rfl]
          exact ih (fun g hg => hlength g (List.mem_cons_of_mem f hg)) (by omega)
            (haccepts rfl) h₃

/-- The rule for the whole body. -/
theorem LoopInvariant.readFrom {packetId : UInt16} {filters : List Filter} {captured : γ}
    (hinv : LoopInvariant callback conn.socket I R E)
    (hlength : ∀ f ∈ filters, f.topic.length < 2 ^ 16) (hI : I filters captured n)
    (h : At conn n ((Message.subscribe packetId filters).body 0) rest p m) :
    wp (Subscribe.readFrom callback captured p)
      (fun r m' =>
        (∃ subscribe, r.1 = some subscribe ∧ subscribe.packetId = packetId) ∧
          (∃ n', I [] r.2.1 n' ∧ At conn n' [] rest r.2.2 m') ∨
        r.1 = none ∧ R r.2.1 m'.heapCopies) E m := by
  simp only [Message.body] at h
  simp only [Subscribe.readFrom, wp_bind]
  refine wp_imp (h.readUInt16 _) ?_
  rintro ⟨_, _, p₁⟩ m₁ ⟨rfl, rfl, h₁⟩
  rw [if_pos rfl, wp_bind]
  refine wp_imp (hinv.readTopics hlength (Nat.le_of_eq h₁.size.symm) hI h₁) ?_
  rintro ⟨_, captured', p₂⟩ m₂ (⟨rfl, hend⟩ | ⟨rfl, hR⟩)
  · exact .inl ⟨⟨_, rfl, rfl⟩, hend⟩
  · exact .inr ⟨rfl, hR⟩

end

/-! ### SUBSCRIBE -/

variable {K : Type} [KeyType K] {target : Target}

/-- The key of a filter: of the whole topic, or of what is in front of `#`. -/
def filterKey (target : Target) (f : Filter) : Except Fault K :=
  KeyType.encodeKey target f.topic (filterKeyBytes f.topic)

/-- `topic_callback` accepts the filters, makes a heap copy for each from the
`n`-th on, and leaves the observer of the last of them. -/
def Captures (target : Target) (conn : ClientConnection) :
    (n : Nat) → Captured K W → List Filter → Captured K W → Prop
  | _, captured, [], captured' => captured' = captured
  | n, _, f :: filters, captured' => plus ∉ f.topic ∧ ∃ key, filterKey target f = .ok key ∧
      Captures target conn (n + 1) (some (subscriptionTo conn f.topic key n).entry.handler)
        filters captured'

theorem captures_last {captured captured' : Captured K W} {filters : List Filter} {f : Filter}
    (h : Captures target conn n captured (filters ++ [f]) captured') :
    (∀ g ∈ filters ++ [f], plus ∉ g.topic) ∧ ∃ key, filterKey target f = .ok key ∧
      captured' =
        some (subscriptionTo conn f.topic key (n + filters.length)).entry.handler := by
  induction filters generalizing n captured with
  | nil =>
      obtain ⟨hplus, key, hkey, rfl⟩ := h
      exact ⟨by simpa using hplus, key, hkey, rfl⟩
  | cons g filters ih =>
      obtain ⟨hplus, _, _, h⟩ := h
      obtain ⟨hall, key, hkey, hcaptured⟩ := ih h
      refine ⟨?_, key, hkey, ?_⟩
      · rintro f' (- | ⟨_, hf'⟩)
        · exact hplus
        · exact hall f' hf'
      · rw [hcaptured, List.length_cons, Nat.add_assoc, Nat.add_comm 1]

/-- `topic_callback` rejects a filter with `+`, after the heap copies for it and
the filters in front of it were made. -/
structure Rejects (filters : List Filter) (copies : Nat) : Prop where
  rejected : ∃ before f after, filters = before ++ f :: after ∧
    (∀ g ∈ before, plus ∉ g.topic) ∧ plus ∈ f.topic ∧ copies = before.length + 1

/-- The keys of the filters can be made, as long as none is rejected. -/
def FiltersEncodable (K : Type) [KeyType K] (target : Target) (filters : List Filter) : Prop :=
  ∀ f ∈ filters, ∃ key : K, filterKey target f = .ok key

theorem wp_topicCallback {captured : Captured K W} {topic : List UInt8}
    {Q : Bool × Captured K W → Machine W → Prop} :
    wp (topicCallback target conn captured topic) Q E m ↔
      if plus ∈ topic then Q (false, captured) { m with heapCopies := m.heapCopies + 1 }
      else match (KeyType.encodeKey target topic (filterKeyBytes topic) : Except Fault K) with
        | .ok key => Q (true, some (subscriptionTo conn topic key m.heapCopies).entry.handler)
            { m with heapCopies := m.heapCopies + 1 }
        | .error e => E e := by
  simp only [topicCallback, wp_bind, wp_createHeapCopy, wp_ite, wp_ofExcept, wp_pure]
  cases (KeyType.encodeKey target topic (filterKeyBytes topic) : Except Fault K) <;> rfl

/-- `topic_callback` accepts one more filter. -/
theorem captures_snoc {captured captured' : Captured K W} {filters : List Filter} {f : Filter}
    {key : K} (h : Captures target conn n captured filters captured') (hplus : plus ∉ f.topic)
    (hkey : filterKey target f = .ok key) :
    Captures target conn n captured (filters ++ [f])
      (some (subscriptionTo conn f.topic key (n + filters.length)).entry.handler) := by
  induction filters generalizing n captured with
  | nil => exact ⟨hplus, key, hkey, rfl⟩
  | cons g filters ih =>
      obtain ⟨hg, key', hkey', h⟩ := h
      refine ⟨hg, key', hkey', ?_⟩
      rw [List.length_cons, Nat.add_comm filters.length, ← Nat.add_assoc]
      exact ih h

theorem captures_no_plus {captured captured' : Captured K W} {filters : List Filter}
    (h : Captures target conn n captured filters captured') :
    ∀ g ∈ filters, plus ∉ g.topic := by
  induction filters generalizing n captured with
  | nil => exact List.forall_mem_nil _
  | cons g filters ih =>
      obtain ⟨hg, _, _, h⟩ := h
      exact List.forall_mem_cons.mpr ⟨hg, ih h⟩

/-- **`topic_callback` in the loop**: the filters that are done were accepted, with a
heap copy for each. -/
theorem topicCallback_loop {filters : List Filter} (n : Nat) (captured : Captured K W)
    (socket : Nat) (hlength : ∀ f ∈ filters, f.topic.length ≤ 128) :
    LoopInvariant (topicCallback target conn) socket
      (fun left captured' k => ∃ done, filters = done ++ left ∧
        Captures target conn n captured done captured' ∧ k = n + done.length)
      (fun _ k => ∃ copies, Rejects filters copies ∧ k = n + copies)
      (fun _ => ¬ FiltersEncodable K target filters) where
  round {f left captured' m} hf hI := by
    obtain ⟨done, rfl, hcaptures, hcopies⟩ := hI
    rw [wp_topicCallback]
    split
    -- the copy of the connection is made before the topic is looked at
    · next hplus =>
      refine ⟨rfl, fun h => absurd h Bool.false_ne_true, fun _ => ⟨done.length + 1, ?_, ?_⟩⟩
      · exact ⟨done, f, left, rfl, captures_no_plus hcaptures, hplus, rfl⟩
      · rw [hcopies, Nat.add_assoc]
    next hplus =>
    split
    · next key hkey =>
      refine ⟨rfl, fun _ => ⟨done ++ [f], by simp, ?_, ?_⟩, fun h => absurd h (by simp)⟩
      · rw [hcopies]
        exact captures_snoc hcaptures hplus hkey
      · rw [hcopies, List.length_append, List.length_singleton, Nat.add_assoc]
    · next e he =>
      intro hall
      obtain ⟨key, hkey⟩ := hall f (by simp)
      cases he.symm.trans hkey
  long {f left captured' k} hlong hI := by
    obtain ⟨done, rfl, -⟩ := hI
    exact absurd (hlength f (by simp)) (Nat.not_le.mpr hlong)

theorem At.subscribe {packetId : UInt16} {filters : List Filter}
    (hlength : ∀ f ∈ filters, f.topic.length ≤ 128)
    (h : At conn n ((Message.subscribe packetId filters).body 0) rest p m) :
    wp (Subscribe.readFrom (topicCallback (K := K) target conn) none p)
      (fun r m' =>
        (∃ subscribe, r.1 = some subscribe ∧ subscribe.packetId = packetId) ∧
          Captures target conn n none filters r.2.1 ∧
          At conn (n + filters.length) [] rest r.2.2 m' ∨
        r.1 = none ∧ ∃ copies, Rejects filters copies ∧ m'.heapCopies = n + copies)
      (fun _ => ¬ FiltersEncodable K target filters) m := by
  refine wp_imp ((topicCallback_loop n none conn.socket hlength).readFrom
    (fun f hf => Nat.lt_of_le_of_lt (hlength f hf) (by decide)) ⟨[], rfl, rfl, rfl⟩ h) ?_
  rintro ⟨_, captured, p'⟩ m' (⟨hsome, _, ⟨done, hdone, hcaptures, rfl⟩, hend⟩ | hrejects)
  · obtain rfl : filters = done := hdone.trans (List.append_nil done)
    exact .inl ⟨hsome, hcaptures, hend⟩
  · exact .inr hrejects

end Gnat
