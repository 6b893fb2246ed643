/-
Gnat/FilterList.lean

`Subscribe::ReadFrom` on any list of filters, and `Subscribe::SendOn`.

The loop reads every topic into the same buffer, but what the callback gets is the
part of it the topic fills, so nothing of a longer topic before it shows.  The
callback is arbitrary here: `recording` adds the list of its calls, with what it
answered, to whatever it captures, and `recording_loop` is what the rounds of the loop
keep of that list.

That the loop ends does not depend on what arrives.  A round that goes on has read the
two bytes of a length, whatever else failed, so the bytes that remain bound the
rounds.
-/
import Gnat.Bounds
import Gnat.RoundTrip

namespace Gnat

open Lib Prog StreamNetwork

/-! ### The calls of a callback -/

section

variable {W γ : Type} [ReliableNetwork W]

/-- The callback, with a list of its calls and of what it answered. -/
def recording (callback : γ → List UInt8 → ServerM W (Bool × γ)) :
    List (List UInt8 × Bool) × γ → List UInt8 →
      ServerM W (Bool × List (List UInt8 × Bool) × γ) :=
  fun (calls, captured) topic => do
    let (accepted, captured) ← callback captured topic
    return (accepted, calls ++ [(topic, accepted)], captured)

/-- The callback returns, and leaves the stream of a socket as it is. -/
def LeavesStream (callback : γ → List UInt8 → ServerM W (Bool × γ)) (socket : Nat) : Prop :=
  ∀ captured topic m, ∃ r m', callback captured topic m = .ok (r, m') ∧
    input socket m'.net = input socket m.net

/-- The callback accepts every topic. -/
def Accepts (callback : γ → List UInt8 → ServerM W (Bool × γ)) : Prop :=
  ∀ captured topic m r m', callback captured topic m = .ok (r, m') → r.1 = true

/-- A call for a filter. -/
def Filter.call (accepted : Bool) (f : Filter) : List UInt8 × Bool :=
  (f.topic, accepted)

variable {callback : γ → List UInt8 → ServerM W (Bool × γ)} {E : Fault → Prop}
variable {conn : ClientConnection} {n : Nat} {rest : List UInt8} {p : Packet} {m : Machine W}

omit [ReliableNetwork W] in
theorem recording_ok {calls : List (List UInt8 × Bool)} {captured captured' : γ}
    {f : Filter} {accepted : Bool} {m' : Machine W}
    (h : callback captured f.topic m = .ok ((accepted, captured'), m')) :
    recording callback (calls, captured) f.topic m =
      .ok ((accepted, calls ++ [f.call accepted], captured'), m') := by
  simp only [recording]
  rw [bind_of_ok h]
  rfl

/-- **The calls of a callback in the loop**: one for each filter that is done, in order;
the loop stops at the first that is not accepted. -/
theorem recording_loop {filters : List Filter} {socket : Nat}
    (hcb : LeavesStream callback socket) (hlength : ∀ f ∈ filters, f.topic.length ≤ 128) :
    LoopInvariant (recording callback) socket
      (fun left s _ => ∃ done, filters = done ++ left ∧ s.1 = done.map (Filter.call true))
      (fun s _ => ¬ Accepts callback ∧ ∃ before f after, filters = before ++ f :: after ∧
        s.1 = before.map (Filter.call true) ++ [f.call false]) E where
  round {f left s m} hf hI := by
    obtain ⟨calls, captured⟩ := s
    obtain ⟨done, rfl, rfl⟩ := hI
    obtain ⟨⟨accepted, captured'⟩, m', hcall, hinput⟩ := hcb captured f.topic m
    rw [wp_of_ok (recording_ok hcall)]
    refine ⟨hinput, ?_, ?_⟩
    · rintro rfl
      refine ⟨done ++ [f], by simp, ?_⟩
      rw [List.map_append]
      rfl
    · rintro rfl
      refine ⟨fun haccepts => ?_, done, f, left, rfl, rfl⟩
      exact absurd (haccepts _ _ _ _ _ hcall) Bool.false_ne_true
  long {f left s k} hlong hI := by
    obtain ⟨done, rfl, -⟩ := hI
    exact absurd (hlength f (by simp)) (Nat.not_le.mpr hlong)

theorem At.readFiltersFrom {packetId : UInt16} {filters : List Filter} {captured : γ}
    (hcb : LeavesStream callback conn.socket)
    (hlength : ∀ f ∈ filters, f.topic.length ≤ 128)
    (h : At conn n ((Message.subscribe packetId filters).body 0) rest p m) :
    wp (Subscribe.readFrom (recording callback) ([], captured) p)
      (fun r m' =>
        (∃ subscribe, r.1 = some subscribe ∧ subscribe.packetId = packetId) ∧
          r.2.1.1 = filters.map (Filter.call true) ∧
          r.2.2.bytesRemaining = 0 ∧ input conn.socket m'.net = rest ∨
        r.1 = none ∧ ¬ Accepts callback ∧ ∃ before f after, filters = before ++ f :: after ∧
          r.2.1.1 = before.map (Filter.call true) ++ [f.call false])
      E m := by
  refine wp_imp ((recording_loop hcb hlength).readFrom
    (fun f hf => Nat.lt_of_le_of_lt (hlength f hf) (by decide)) ⟨[], rfl, rfl⟩ h) ?_
  rintro ⟨_, s, p'⟩ m' (⟨hsome, _, ⟨done, hdone, hcalls⟩, hend⟩ | hrefused)
  · obtain rfl : filters = done := hdone.trans (List.append_nil done)
    exact .inl ⟨hsome, hcalls, hend.size, hend.front⟩
  · exact .inr hrefused

end

/-! ### The loop ends -/

section

variable {W γ : Type} [Network W] {callback : γ → List UInt8 → ServerM W (Bool × γ)}

/-- A read that succeeds uses up its bytes. -/
theorem client_read_consumes (p : Packet) (size : Nat) (m : Machine W) :
    wp (Client.read p size)
      (fun r _ => r.1.isSome → r.2.bytesRemaining + size ≤ p.bytesRemaining)
      (fun _ => True) m := by
  show wp (p.read size) _ _ m
  simp only [Packet.read, wp_bind, wp_check, wp_read]
  split
  · next hle =>
    rcases (Network.read p.connection.socket size m.net).1 with - | bytes
    · exact fun h => absurd h (by simp)
    · intro _
      exact Nat.le_of_eq (Nat.sub_add_cancel hle)
  · trivial

/-- A string that was read has used up the two bytes of its length. -/
theorem readString_consumes {size : Nat} (out : StringBuffer size) (p : Packet)
    (m : Machine W) :
    wp (readString out p) (fun r _ => r.1 = true → r.2.2.bytesRemaining + 2 ≤ p.bytesRemaining)
      (fun _ => True) m := by
  simp only [readString, wp_bind]
  refine wp_imp (client_read_consumes p 2 m) ?_
  rintro ⟨- | lengthRaw, p₁⟩ m₁ h₁
  · exact fun h => absurd h Bool.false_ne_true
  have h₁ : p₁.bytesRemaining + 2 ≤ p.bytesRemaining := h₁ rfl
  simp only [readStringBytes, wp_ite, wp_pure]
  split
  · exact fun h => absurd h Bool.false_ne_true
  rw [wp_bind]
  refine wp_imp (client_read_reads p₁ _ m₁) ?_
  rintro ⟨- | src, p₂⟩ m₂ h₂
  · exact fun h => absurd h Bool.false_ne_true
  · intro _
    have hle : p₂.bytesRemaining ≤ p₁.bytesRemaining := h₂.sameOutput.bytesRemaining
    show p₂.bytesRemaining + 2 ≤ p.bytesRemaining
    omega

/-- **The loop ends**: as many rounds as there are bytes left are enough, whatever the
bytes are and whichever reads fail. -/
theorem Subscribe.readTopics_ends
    (hcb : ∀ captured topic m, callback captured topic m ≠ .error .outOfFuel) {fuel : Nat}
    {topic : StringBuffer 128} {captured : γ} {p : Packet} (hfuel : p.bytesRemaining ≤ fuel)
    (m : Machine W) :
    wp (readTopics callback fuel topic captured p) (fun _ _ => True) (· ≠ .outOfFuel) m := by
  have hassert : Fault.packetReadAssert ≠ .outOfFuel := by decide
  induction fuel generalizing topic captured p m with
  | zero =>
      rw [readTopics, wp_ite, if_neg (by omega)]
      trivial
  | succ fuel ih =>
      rw [readTopics, wp_ite]
      split
      · simp only [wp_bind]
        refine wp_imp (wp_and_left (readString_consumes topic p m)
          (stops_readString hassert topic p m)) ?_
        rintro ⟨- | -, topic₁, p₁⟩ m₁ ⟨hconsumed, -⟩
        · trivial
        have hconsumed : p₁.bytesRemaining + 2 ≤ p.bytesRemaining := hconsumed rfl
        rw [if_pos rfl, wp_bind]
        refine wp_imp (ne_error_iff.mp (hcb captured topic₁.bytes m₁)) ?_
        rintro ⟨- | -, captured₂⟩ m₂ -
        · trivial
        rw [if_pos rfl, wp_bind]
        refine wp_imp (wp_and_left (readUInt8_reads 0 p₁ m₂)
          (stops_readUInt8 hassert 0 p₁ m₂)) ?_
        rintro ⟨- | -, flags, p₃⟩ m₃ ⟨h₃, -⟩
        · trivial
        have hle : p₃.bytesRemaining ≤ p₁.bytesRemaining := h₃.sameOutput.bytesRemaining
        rw [if_pos rfl]
        exact ih (show p₃.bytesRemaining ≤ fuel by omega) m₃
      · trivial

theorem Subscribe.readFrom_ends
    (hcb : ∀ captured topic m, callback captured topic m ≠ .error .outOfFuel) (captured : γ)
    (p : Packet) (m : Machine W) : readFrom callback captured p m ≠ .error .outOfFuel := by
  rw [ne_error_iff]
  simp only [readFrom, wp_bind]
  refine wp_imp (stops_readUInt16 (by decide) _ p m) ?_
  rintro ⟨- | -, packetId, p₁⟩ m₁ -
  · trivial
  rw [if_pos rfl, wp_bind]
  refine wp_imp (readTopics_ends hcb (Nat.le_refl _) m₁) ?_
  rintro ⟨- | -, captured₂, p₂⟩ m₂ - <;> trivial

end

/-! ### A SUBSCRIBE that is sent -/

namespace Subscribe

/-- The SUBSCRIBE that carries the one topic. -/
def message (subscribe : Subscribe) : Message :=
  .subscribe subscribe.packetId [⟨subscribe.topicName.bytes, 0⟩]

theorem length_message (subscribe : Subscribe) (htopic : subscribe.topicName.length ≤ 25) :
    (subscribe.message.body 0).length = subscribe.topicName.length + 5 := by
  have htopic' := StringBuffer.length_bytes htopic
  simp [message, Message.body, wireBytes, htopic']

theorem frame_holds (subscribe : Subscribe) (buffer : List.Vector UInt8 128)
    (htopic : subscribe.topicName.length ≤ 25) :
    ∃ c length, subscribe.frame buffer = some (c, length) ∧ length < 127 ∧
      c.Holds (framed 0x82 (subscribe.message.body 0)) := by
  have htopic' := StringBuffer.length_bytes htopic
  have hlength := subscribe.length_message htopic
  obtain ⟨c₁, hc₁, h₁⟩ := (Cursor.holds_start buffer).put 0x82 (by decide) (by decide)
  obtain ⟨b, h₂⟩ := h₁.skip (by decide) (by decide)
  obtain ⟨c₃, c₄, hc₃, hc₄, h₄⟩ := holds_putUInt16 h₂ subscribe.packetId (by simp) (by simp)
  obtain ⟨c₅, c₆, c₇, hc₅, hc₆, hc₇, h₇⟩ := holds_putString h₄ subscribe.topicName htopic
    (by decide) (by simp [wireBytes]; omega) (by simp [wireBytes]; omega)
  obtain ⟨c₈, hc₈, h₈⟩ := h₇.put 0
    (by simp [wireBytes, htopic']; omega) (by simp [wireBytes, htopic']; omega)
  have hheld : c₈.Holds (0x82 :: b :: subscribe.message.body 0) := by
    simpa [message, Message.body, Filter.bytes] using h₈
  refine ⟨c₈.patch 1 (UInt8.ofNat c₈.current - 2), UInt8.ofNat c₈.current - 2, ?_, ?_,
    holds_framed hheld (by omega)⟩
  · simp only [frame, hc₁, hc₃, hc₄, hc₅, hc₆, hc₇, hc₈, h₁.current_eq,
      Option.bind_eq_bind, Option.bind_some]
    rfl
  · have hlast : UInt8.ofNat c₈.current - 2 =
        UInt8.ofNat (subscribe.message.body 0).length := by
      rw [hheld.current_eq]
      exact ofNat_add_sub _ 2
    rw [hlast, UInt8.lt_iff_toNat_lt, UInt8.toNat_ofNat_of_lt' (by rw [UInt8.size]; omega)]
    show _ < 127
    omega

theorem sendOn_wrote {W : Type} [ReliableNetwork W] (subscribe : Subscribe)
    (htopic : subscribe.topicName.length ≤ 25) {conn : ClientConnection} {m : Machine W}
    {E : Fault → Prop} :
    wp (subscribe.sendOn conn) (fun r m' => r = true ∧
      Wrote [⟨conn, framed 0x82 (subscribe.message.body 0), true⟩] m m') E m := by
  obtain ⟨c, length, hc, hfits, hholds⟩ :=
    subscribe.frame_holds (List.Vector.replicate 128 0) htopic
  rw [sendOn, hc, ← hholds.sent_eq]
  simp only [wp_bind, wp_check, if_pos hfits]
  exact wp_write_wrote c.sent

end Subscribe

/-- **SUBSCRIBE, parsed and sent.**  On a body that is a packet id and a list of
filters, with any callback: the packet id is returned, the callback was called once for
each filter with its topic, in order, and nothing is left; or a filter was not
accepted, which was the last call, and nothing is returned.  What `SendOn` writes is
such a frame, with one filter.  And on any body and any network the loop ends. -/
theorem subscribe_filters_exact :
    (∀ {W γ : Type} [ReliableNetwork W] (callback : γ → List UInt8 → ServerM W (Bool × γ))
      (captured : γ) (packetId : UInt16) (filters : List Filter) (conn : ClientConnection)
      (n : Nat) (rest : List UInt8) (p : Packet) (m : Machine W),
      LeavesStream callback conn.socket → (∀ f ∈ filters, f.topic.length ≤ 128) →
      At conn n (wireBytes packetId.toNat ++ filters.flatMap Filter.bytes) rest p m →
      ∃ result calls captured' p' m',
        Subscribe.readFrom (recording callback) ([], captured) p m =
          .ok ((result, (calls, captured'), p'), m') ∧
        ((∃ subscribe, result = some subscribe ∧ subscribe.packetId = packetId) ∧
            calls = filters.map (Filter.call true) ∧
            p'.bytesRemaining = 0 ∧ input conn.socket m'.net = rest ∨
          result = none ∧ ¬ Accepts callback ∧
            ∃ before f after, filters = before ++ f :: after ∧
              calls = before.map (Filter.call true) ++ [f.call false])) ∧
    (∀ {W : Type} [ReliableNetwork W] (subscribe : Subscribe) (conn : ClientConnection)
      (m : Machine W), subscribe.topicName.length ≤ 25 →
      ∃ m', subscribe.sendOn conn m = .ok (true, m') ∧ m'.written = m.written ++
        [⟨conn, framed 0x82 (wireBytes subscribe.packetId.toNat ++
          Filter.bytes ⟨subscribe.topicName.bytes, 0⟩), true⟩]) ∧
    (∀ {W γ : Type} [Network W] (callback : γ → List UInt8 → ServerM W (Bool × γ)),
      (∀ captured topic m, callback captured topic m ≠ .error .outOfFuel) →
      ∀ (captured : γ) (p : Packet) (m : Machine W),
        Subscribe.readFrom callback captured p m ≠ .error .outOfFuel) := by
  refine ⟨?_, ?_, ?_⟩
  · intro W γ _ callback captured packetId filters conn n rest p m hcb hlength hat
    have hreads : wp (Subscribe.readFrom (recording callback) ([], captured) p) _
      (fun _ => False) m := hat.readFiltersFrom hcb hlength
    obtain ⟨⟨result, ⟨calls, captured'⟩, p'⟩, m', hrun, hresult⟩ := hreads.exists_ok
    exact ⟨result, calls, captured', p', m', hrun, hresult⟩
  · intro W _ subscribe conn m htopic
    obtain ⟨m', hsend, hwrote⟩ := exists_sent (x := subscribe.sendOn conn) (m := m)
      (subscribe.sendOn_wrote htopic)
    refine ⟨m', hsend, ?_⟩
    have hbody : subscribe.message.body 0 = wireBytes subscribe.packetId.toNat ++
        Filter.bytes ⟨subscribe.topicName.bytes, 0⟩ := by
      simp [Subscribe.message, Message.body]
    rw [← hbody]
    exact hwrote.written
  · intro W γ _ callback hcb captured p m
    exact Subscribe.readFrom_ends hcb captured p m

/-- A callback that accepts everything. -/
def acceptAll (_ : Unit) (_ : List UInt8) : ServerM Wire (Bool × Unit) :=
  pure (true, ())

theorem acceptAll_leaves (socket : Nat) : LeavesStream acceptAll socket :=
  fun _ _ m => ⟨_, m, rfl, rfl⟩

theorem accepts_acceptAll : Accepts acceptAll := by
  intro captured topic m r m' h
  obtain rfl : (true, ()) = r := (Prod.mk.inj (Except.ok.inj h)).1
  rfl

/-- The topics `abc` and `d`, one after the other in the same buffer. -/
theorem subscribe_filters_exact_two :
    ∃ subscribe calls p' m',
      Subscribe.readFrom (recording acceptAll) ([], ()) ⟨0x82, 12, { socket := 1, id := 7 }⟩
        { net := ⟨fun _ => [0, 5, 0, 3, 0x61, 0x62, 0x63, 0, 0, 1, 0x64, 1]⟩ } =
          .ok ((some subscribe, (calls, ()), p'), m') ∧
      subscribe.packetId = 5 ∧
      calls = [([0x61, 0x62, 0x63], true), ([0x64], true)] ∧ p'.bytesRemaining = 0 := by
  obtain ⟨result, calls, captured', p', m', hrun, hresult⟩ :=
    subscribe_filters_exact.1 acceptAll () 5 [⟨[0x61, 0x62, 0x63], 0⟩, ⟨[0x64], 1⟩]
      { socket := 1, id := 7 } 0 [] ⟨0x82, 12, { socket := 1, id := 7 }⟩
      { net := ⟨fun _ => [0, 5, 0, 3, 0x61, 0x62, 0x63, 0, 0, 1, 0x64, 1]⟩ }
      (acceptAll_leaves 1) (by decide) ⟨rfl, rfl, rfl, rfl⟩
  rcases hresult with ⟨⟨subscribe, rfl, hid⟩, hcalls, hend, -⟩ | ⟨-, hrefused, -⟩
  · exact ⟨subscribe, calls, p', m', hrun, hid, hcalls, hend⟩
  · exact absurd accepts_acceptAll hrefused

end Gnat
