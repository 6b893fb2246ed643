/-
Gnat/Grammar.lean

What the parsers make of a body that is any bytes at all.

`Gnat.Received` says that a parser reads the message a body is.  Here the body is
arbitrary, and the lemmas go the other way: where a parser returns, the bytes it
read are those of the fields it returns, or it met a string that is too long for
its buffer (`LongString`).  A body that ends inside a field is neither, and stops
the parser on the assertion of `Packet::Read`.  So what the broker accepts is
well formed, field by field.
-/
import Gnat.Received

namespace Gnat

open Lib Prog StreamNetwork

/-- A body starts with the length of a string that does not fit. -/
def LongString (size : Nat) (body : List UInt8) : Prop :=
  ∃ high low more, body = high :: low :: more ∧ size < wireUInt16 high low

theorem wireBytes_wireUInt16 (high low : UInt8) :
    wireBytes (wireUInt16 high low) = [high, low] := by
  have hlow := low.toNat_lt
  have hhigh : (high.toNat * 256 + low.toNat) / 256 = high.toNat := by omega
  rw [wireBytes, wireUInt16, hhigh, UInt8.ofNat_toNat]
  congr 2
  rw [← UInt8.toNat_inj, UInt8.toNat_ofNat']
  omega

theorem wireUInt16_lt (high low : UInt8) : wireUInt16 high low < 2 ^ 16 := by
  have hhigh := high.toNat_lt
  have hlow := low.toNat_lt
  unfold wireUInt16
  omega

variable {W : Type} [ReliableNetwork W] {conn : ClientConnection} {n : Nat}
variable {body rest : List UInt8} {p : Packet} {m : Machine W}

/-! ### The field readers -/

/-- A read that returns has read the bytes in front. -/
theorem At.read_any (h : At conn n body rest p m) (size : Nat) :
    wp (Client.read p size)
      (fun r m' => ∃ (taken more : List UInt8) (hsize : taken.length = size),
        body = taken ++ more ∧ r.1 = some ⟨taken, hsize⟩ ∧ At conn n more rest r.2 m')
      (fun _ => True) m := by
  rcases Nat.lt_or_ge body.length size with hlt | hle
  · -- there is less left than that
    show wp (p.read size) _ _ m
    rw [Packet.read, wp_bind, wp_check, if_neg (by rw [h.size]; omega)]
    trivial
  · have hsize : (body.take size).length = size := by
      rw [List.length_take, Nat.min_eq_left hle]
    have hsplit : body.take size ++ body.drop size = body := List.take_append_drop size body
    have h : At conn n (body.take size ++ body.drop size) rest p m := by rwa [hsplit]
    exact wp_imp (h.client_read size hsize) fun r m' hr =>
      ⟨_, _, hsize, hsplit.symm, hr.1, hr.2⟩

theorem At.readUInt8_any (h : At conn n body rest p m) (out : UInt8) :
    wp (Gnat.readUInt8 out p)
      (fun r m' => ∃ b more, body = b :: more ∧ r.1 = true ∧ r.2.1 = b ∧
        At conn n more rest r.2.2 m') (fun _ => True) m := by
  simp only [Gnat.readUInt8, readBytes, readBytesLoop, wp_bind]
  refine wp_imp (h.read_any 1) ?_
  rintro ⟨_, p₁⟩ m₁ ⟨taken, more, hsize, rfl, rfl, h₁⟩
  obtain ⟨b, rfl⟩ := List.length_eq_one_iff.mp hsize
  exact ⟨b, more, rfl, rfl, rfl, h₁⟩

theorem At.readUInt16_any (h : At conn n body rest p m) (out : UInt16) :
    wp (Gnat.readUInt16 out p)
      (fun r m' => ∃ (x : UInt16) (more : List UInt8), body = wireBytes x.toNat ++ more ∧
        r.1 = true ∧ r.2.1 = x ∧ At conn n more rest r.2.2 m') (fun _ => True) m := by
  simp only [Gnat.readUInt16, readBytes, readBytesLoop, wp_bind]
  refine wp_imp (h.read_any 1) ?_
  rintro ⟨_, p₁⟩ m₁ ⟨front, more₁, hfront, rfl, rfl, h₁⟩
  obtain ⟨high, rfl⟩ := List.length_eq_one_iff.mp hfront
  refine wp_imp (h₁.read_any 1) ?_
  rintro ⟨_, p₂⟩ m₂ ⟨back, more, hback, rfl, rfl, h₂⟩
  obtain ⟨low, rfl⟩ := List.length_eq_one_iff.mp hback
  have hvalue : (UInt16.ofNat (wireUInt16 high low)).toNat = wireUInt16 high low :=
    UInt16.toNat_ofNat_of_lt' (wireUInt16_lt high low)
  refine ⟨UInt16.ofNat (wireUInt16 high low), more, ?_, rfl, rfl, h₂⟩
  rw [hvalue, wireBytes_wireUInt16]
  rfl

theorem At.readString_any {size : Nat} (h : At conn n body rest p m) (out : StringBuffer size) :
    wp (Gnat.readString out p)
      (fun r m' =>
        (r.1 = true ∧ ∃ s more, body = wireString s ++ more ∧ s.length ≤ size ∧
          r.2.1 = ⟨StringBuffer.fill out.data s, s.length⟩ ∧ At conn n more rest r.2.2 m') ∨
        (r.1 = false ∧ LongString size body ∧ m'.heapCopies = n))
      (fun _ => True) m := by
  simp only [Gnat.readString, wp_bind]
  refine wp_imp (h.read_any 2) ?_
  rintro ⟨_, p₁⟩ m₁ ⟨front, more₁, hfront, rfl, rfl, h₁⟩
  obtain ⟨high, low, rfl⟩ := List.length_eq_two.mp hfront
  show wp (readStringBytes out (wireUInt16 high low) p₁) _ _ m₁
  rw [readStringBytes, wp_ite]
  split
  · next hlong => exact .inr ⟨rfl, ⟨high, low, more₁, rfl, hlong⟩, h₁.heapCopies⟩
  next hfits =>
  rw [wp_bind]
  refine wp_imp (h₁.read_any (wireUInt16 high low)) ?_
  rintro ⟨_, p₂⟩ m₂ ⟨s, more, hs, rfl, rfl, h₂⟩
  refine .inl ⟨rfl, s, more, ?_, ?_, ?_, h₂⟩
  · rw [wireString, hs, wireBytes_wireUInt16, List.append_assoc]
  · rw [hs]
    exact Nat.le_of_not_lt hfits
  · rw [hs]
    rfl

/-! ### CONNECT and PUBLISH -/

/-- The body of a CONNECT that is read is one of a well-formed CONNECT. -/
theorem At.connect_any {target : Target} (h : At conn n body rest p m) :
    wp (Connect.readFrom target p)
      (fun r m' =>
        (∃ name level flags keepAlive payload, name.length ≤ 6 ∧
          body = (Message.connect name level flags keepAlive payload).body 0) ∨
        (r.1 = none ∧ LongString 6 body ∧ m'.heapCopies = n))
      (fun _ => True) m := by
  simp only [Connect.readFrom, wp_bind]
  refine wp_imp (h.readString_any _) ?_
  rintro ⟨_, name, p₁⟩ m₁ (⟨rfl, s, more₁, rfl, hs, -, h₁⟩ | ⟨rfl, hlong, hcopies⟩)
  swap
  · exact .inr ⟨rfl, hlong, hcopies⟩
  rw [if_pos rfl, wp_bind]
  refine wp_imp (h₁.readUInt8_any _) ?_
  rintro ⟨_, level, p₂⟩ m₂ ⟨_, more₂, rfl, rfl, rfl, h₂⟩
  rw [if_pos rfl, wp_bind]
  refine wp_imp (h₂.readUInt8_any _) ?_
  rintro ⟨_, flags, p₃⟩ m₃ ⟨_, more₃, rfl, rfl, rfl, h₃⟩
  rw [if_pos rfl, wp_bind]
  refine wp_imp (h₃.readUInt16_any _) ?_
  rintro ⟨_, keepAlive, p₄⟩ m₄ ⟨_, payload, rfl, rfl, rfl, h₄⟩
  exact .inl ⟨s, level, flags, keepAlive, payload, hs, by simp [Message.body]⟩

/-- The body of a PUBLISH that is read is one of a well-formed PUBLISH. -/
theorem At.publish_any (h : At conn n body rest p m) (flags : UInt8) :
    wp (Publish.readFrom p flags)
      (fun r m' =>
        (∃ topic packetId payload, topic.length ≤ 128 ∧
          body = (Message.publish topic packetId payload).body flags) ∨
        (r.1 = none ∧ LongString 128 body ∧ m'.heapCopies = n))
      (fun _ => True) m := by
  simp only [Publish.readFrom, wp_bind]
  refine wp_imp (h.readString_any _) ?_
  rintro ⟨_, topic, p₁⟩ m₁ (⟨rfl, s, more₁, rfl, hs, -, h₁⟩ | ⟨rfl, hlong, hcopies⟩)
  swap
  · exact .inr ⟨rfl, hlong, hcopies⟩
  rw [if_pos rfl]
  simp only [wp_ite, wp_bind, wp_pure]
  split
  · next hid =>
    refine wp_imp (h₁.readUInt16_any _) ?_
    rintro ⟨_, packetId, p₂⟩ m₂ ⟨_, payload, rfl, rfl, rfl, h₂⟩
    exact .inl ⟨s, packetId, payload, hs, by rw [Message.body, if_pos hid]⟩
  · next hid =>
    -- there is no packet id, so any will do
    exact .inl ⟨s, 0, more₁, hs, by rw [Message.body, if_neg hid, List.nil_append]⟩

/-! ### SUBSCRIBE -/

variable {K : Type} [KeyType K] {target : Target}

/-- The loop of `Subscribe::ReadFrom` stops in front of `more`, with the given number of
heap copies made there: at a topic that is too long, or at one with a `+`. -/
inductive StopsAt : (more : List UInt8) → (copies : Nat) → Prop
  | long {more : List UInt8} : LongString 128 more → StopsAt more 0
  | plus {topic more : List UInt8} : topic.length ≤ 128 → plus ∈ topic →
      StopsAt (wireString topic ++ more) 1

/-- The loop goes on behind a filter. -/
def Filter.Accepted (f : Filter) : Prop :=
  f.topic.length ≤ 128 ∧ Gnat.plus ∉ f.topic

/-- What the loop is to make of a body: filters to its end, or up to where it stops. -/
theorem At.readTopics_any (fuel : Nat) (topic : StringBuffer 128) (captured : Captured K W)
    (h : At conn n body rest p m) :
    wp (Subscribe.readTopics (topicCallback target conn) fuel topic captured p)
      (fun r m' =>
        (r.1 = true ∧ ∃ filters : List Filter, body = filters.flatMap Filter.bytes ∧
          (∀ f ∈ filters, f.Accepted) ∧ (filters = [] → r.2.1 = captured) ∧
          m'.heapCopies = n + filters.length) ∨
        (r.1 = false ∧ ∃ (filters : List Filter) (more : List UInt8) (copies : Nat),
          body = filters.flatMap Filter.bytes ++ more ∧
          (∀ f ∈ filters, f.Accepted) ∧ StopsAt more copies ∧
          m'.heapCopies = n + filters.length + copies))
      (fun _ => True) m := by
  induction fuel generalizing body n topic captured p m with
  | zero =>
      rw [Subscribe.readTopics, wp_ite]
      split
      · trivial
      · next hzero =>
        have hnil : body = [] := List.length_eq_zero_iff.mp (by rw [← h.size]; omega)
        exact .inl ⟨rfl, [], hnil, List.forall_mem_nil _, fun _ => rfl, h.heapCopies⟩
  | succ fuel ih =>
      rw [Subscribe.readTopics, wp_ite]
      split
      swap
      · next hzero =>
        have hnil : body = [] := List.length_eq_zero_iff.mp (by rw [← h.size]; omega)
        exact .inl ⟨rfl, [], hnil, List.forall_mem_nil _, fun _ => rfl, h.heapCopies⟩
      simp only [wp_bind]
      refine wp_imp (h.readString_any topic) ?_
      rintro ⟨_, _, p₁⟩ m₁ (⟨rfl, s, more₁, rfl, hs, rfl, h₁⟩ | ⟨rfl, hlong, hcopies⟩)
      swap
      · exact .inr ⟨rfl, [], body, 0, rfl, List.forall_mem_nil _, .long hlong, hcopies⟩
      rw [if_pos rfl, wp_bind, StringBuffer.bytes_fill hs, wp_topicCallback]
      split
      -- the copy of the connection is made before the topic is looked at
      · next hplus =>
        refine .inr ⟨rfl, [], _, 1, rfl, List.forall_mem_nil _, .plus hs hplus, ?_⟩
        show m₁.heapCopies + 1 = n + 0 + 1
        rw [h₁.heapCopies]
      split
      swap
      · trivial
      next hplus _ key hkey =>
      have hs : Filter.Accepted ⟨s, 0⟩ := ⟨hs, hplus⟩
      have h₂ : At conn (n + 1) more₁ rest p₁ { m₁ with heapCopies := m₁.heapCopies + 1 } :=
        ⟨h₁.connection, h₁.size, h₁.front, congrArg (· + 1) h₁.heapCopies⟩
      rw [if_pos rfl, wp_bind]
      refine wp_imp (h₂.readUInt8_any 0) ?_
      rintro ⟨_, options, p₃⟩ m₃ ⟨_, more₂, rfl, rfl, rfl, h₃⟩
      rw [if_pos rfl]
      refine wp_imp (ih _ _ h₃) ?_
      have hcons : ∀ tail : List UInt8, wireString s ++ options :: tail =
          Filter.bytes ⟨s, options⟩ ++ tail := by
        intro tail
        rw [Filter.bytes, List.append_assoc]
        rfl
      rintro r m₄ (⟨hr, filters, rfl, hall, -, hcopies⟩ |
        ⟨hr, filters, more, copies, rfl, hall, hstops, hcopies⟩)
      · refine .inl ⟨hr, ⟨s, options⟩ :: filters, ?_, List.forall_mem_cons.mpr ⟨hs, hall⟩,
          fun hnil => absurd hnil (List.cons_ne_nil _ _), ?_⟩
        · rw [hcons, List.flatMap_cons]
        · rw [hcopies, List.length_cons]
          omega
      · refine .inr ⟨hr, ⟨s, options⟩ :: filters, more, copies, ?_,
          List.forall_mem_cons.mpr ⟨hs, hall⟩, hstops, ?_⟩
        · rw [hcons, List.flatMap_cons, List.append_assoc]
        · rw [hcopies, List.length_cons]
          omega

/-- The body of a SUBSCRIBE that is read is a packet id and filters; otherwise the
loop stopped in front of a filter. -/
theorem At.subscribe_any (h : At conn n body rest p m) :
    wp (Subscribe.readFrom (topicCallback (K := K) target conn) none p)
      (fun r m' => ∃ (packetId : UInt16) (filters : List Filter),
        (∀ f ∈ filters, f.Accepted) ∧
        ((∃ subscribe, r.1 = some subscribe ∧ subscribe.packetId = packetId ∧
            body = (Message.subscribe packetId filters).body 0 ∧
            (filters = [] → r.2.1 = none) ∧ m'.heapCopies = n + filters.length) ∨
          (r.1 = none ∧ ∃ more copies,
            body = (Message.subscribe packetId filters).body 0 ++ more ∧ StopsAt more copies ∧
            m'.heapCopies = n + filters.length + copies)))
      (fun _ => True) m := by
  simp only [Subscribe.readFrom, wp_bind]
  refine wp_imp (h.readUInt16_any _) ?_
  rintro ⟨_, packetId, p₁⟩ m₁ ⟨_, more₁, rfl, rfl, rfl, h₁⟩
  rw [if_pos rfl, wp_bind]
  refine wp_imp (h₁.readTopics_any _ _ none) ?_
  rintro ⟨_, captured, p₂⟩ m₂ (⟨rfl, filters, rfl, hall, hnil, hcopies⟩ |
    ⟨rfl, filters, more, copies, rfl, hall, hstops, hcopies⟩)
  · exact ⟨packetId, filters, hall, .inl ⟨_, rfl, rfl, rfl, hnil, hcopies⟩⟩
  · refine ⟨packetId, filters, hall, .inr ⟨rfl, more, copies, ?_, hstops, hcopies⟩⟩
    rw [Message.body, List.append_assoc]

end Gnat
