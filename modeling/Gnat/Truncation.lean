/-
Gnat/Truncation.lean

What the parsers make of a message that is cut short.

The reader of fixed-width fields does not look at what `Read` returns, so only
a cut inside a string is noticed: `RejectedAt` says of a message which of the
reads of its fields may be the first to fail for `ReadFrom` to return nothing.
-/
import Gnat.Message
import Gnat.Overrun

namespace Gnat

open Lib Prog

variable {p : Packet} {m : Machine Net} {target : Target}

/-! ### What the parsers return -/

/-- A CONNECT is read if its protocol name is; the fields behind it count as
read in any case. -/
theorem readConnect_fits (target : Target) (h : Left.ConnectFits (p.left m)) :
    ∃ r m', Connect.readFrom target p m = .ok (r, m') ∧
      r.1.isSome = (Left.afterString 6 (p.left m)).isSome := by
  obtain ⟨⟨read, name, p₁⟩, m₁, hname, -, hnext⟩ := readString_fits (.empty 6) h.1
  -- without the name there is no packet; the fields behind it are not looked at
  rcases hafter : Left.afterString 6 (p.left m) with - | y
  · rw [hafter] at hnext
    obtain rfl : read = false := hnext
    exact ⟨_, _, bind_of_ok hname, rfl⟩
  rw [hafter] at hnext
  obtain ⟨rfl, rfl, -⟩ := hnext
  have hfour := h.2 _ hafter
  rw [show 4 = 1 + (1 + 2) from rfl, Left.bytesFit_add, Left.bytesFit_add] at hfour
  obtain ⟨hlevel, hflags, hkeep⟩ := hfour
  obtain ⟨⟨-, level, p₂⟩, m₂, hrun₂, rfl, -, hleft₂⟩ :=
    readUInt8_fits target.stackLevel hlevel
  rw [← hleft₂] at hflags hkeep
  obtain ⟨⟨-, flags, p₃⟩, m₃, hrun₃, rfl, -, hleft₃⟩ :=
    readUInt8_fits target.stackFlags hflags
  rw [← hleft₃] at hkeep
  obtain ⟨⟨-, keepAlive, p₄⟩, m₄, hrun₄, rfl, -, -⟩ :=
    readUInt16_fits target.stackKeepAlive hkeep
  refine ⟨(some ⟨name, level, flags, keepAlive, .empty 23⟩, p₄), m₄,
    (bind_of_ok hname).trans ?_, rfl⟩
  exact (bind_of_ok hrun₂).trans ((bind_of_ok hrun₃).trans (bind_of_ok hrun₄))

/-- A PUBLISH is read if its topic is. -/
theorem readPublish_fits {flags : UInt8} (h : Left.PublishFits flags (p.left m)) :
    ∃ r m', Publish.readFrom p flags m = .ok (r, m') ∧
      r.1.isSome = (Left.afterString 128 (p.left m)).isSome := by
  obtain ⟨⟨read, topic, p₁⟩, m₁, htopic, -, hnext⟩ := readString_fits (.empty 128) h.1
  rcases hafter : Left.afterString 128 (p.left m) with - | y
  · rw [hafter] at hnext
    obtain rfl : read = false := hnext
    exact ⟨_, _, bind_of_ok htopic, rfl⟩
  rw [hafter] at hnext
  obtain ⟨rfl, rfl, -⟩ := hnext
  rcases hid : hasPacketId flags with - | -
  · refine ⟨(some ⟨topic, p₁.bytesRemaining⟩, p₁), m₁, (bind_of_ok htopic).trans ?_, rfl⟩
    simp only [hid, if_true, Bool.false_eq_true, if_false]
    rfl
  · obtain ⟨⟨-, id, p₂⟩, m₂, hrun₂, rfl, -, -⟩ :=
      readUInt16_fits 0 (h.2 _ hafter hid)
    refine ⟨(some ⟨topic, p₂.bytesRemaining⟩, p₂), m₂, (bind_of_ok htopic).trans ?_, rfl⟩
    simp only [hid, if_true]
    exact bind_of_ok hrun₂

/-- A CONNACK counts as read in any case. -/
theorem readConnack_fits (h : Left.BytesFit 2 (p.left m)) :
    ∃ r m', ConnectAck.readFrom p m = .ok (r, m') ∧ r.1.isSome = true := by
  rw [show 2 = 1 + 1 from rfl, Left.bytesFit_add] at h
  obtain ⟨⟨-, flags, p₁⟩, m₁, hrun₁, rfl, -, hleft₁⟩ := readUInt8_fits 0 h.1
  obtain ⟨⟨-, code, p₂⟩, m₂, hrun₂, rfl, -, -⟩ := readUInt8_fits 0 (hleft₁ ▸ h.2)
  exact ⟨_, m₂, (bind_of_ok hrun₁).trans (bind_of_ok hrun₂), rfl⟩

/-- So does a SUBACK. -/
theorem readSuback_fits (h : Left.BytesFit 3 (p.left m)) :
    ∃ r m', SubscribeAck.readFrom p m = .ok (r, m') ∧ r.1.isSome = true := by
  rw [show 3 = 2 + 1 from rfl, Left.bytesFit_add] at h
  obtain ⟨⟨-, id, p₁⟩, m₁, hrun₁, rfl, -, hleft₁⟩ := readUInt16_fits 0 h.1
  obtain ⟨⟨-, response, p₂⟩, m₂, hrun₂, rfl, -, -⟩ :=
    readUInt8_fits (({} : SubscribeAck).responses.get 0) (hleft₁ ▸ h.2)
  exact ⟨_, m₂, (bind_of_ok hrun₁).trans (bind_of_ok hrun₂), rfl⟩

/-! ### Connections that are cut -/

namespace Left

theorem bytesFit_of_le {count : Nat} {x : Left} (h : count ≤ x.size) : BytesFit count x := by
  induction count generalizing x with
  | zero => trivial
  | succ n ih => exact ⟨by omega, fun _ => ih (by dsimp only; omega)⟩

section

variable {n k capacity : Nat} {s l : List UInt8}

theorem announced_wireString (r : Option Nat) (hs : s.length < 2 ^ 16) :
    announced ⟨n, ⟨wireString s ++ l, r⟩⟩ = s.length :=
  wireUInt16_wireBytes hs

theorem stringFits_wireString (r : Option Nat) (hs : s.length < 2 ^ 16)
    (hn : 2 + s.length ≤ n) : StringFits capacity ⟨n, ⟨wireString s ++ l, r⟩⟩ := by
  refine ⟨by dsimp only; omega, fun _ _ => ?_⟩
  rw [announced_wireString r hs]
  exact hn

/-- A string arrives if two reads are left. -/
theorem afterString_wireString (hs : s.length ≤ capacity) (hcap : capacity < 2 ^ 16) :
    afterString capacity ⟨n, ⟨wireString s ++ l, some k⟩⟩ =
      if 2 ≤ k then some ⟨n - (2 + s.length), ⟨l, some (k - 2)⟩⟩ else none := by
  have hlen : s.length < 2 ^ 16 := hs.trans_lt hcap
  -- the length takes one read and the string another
  have hafter : (Socket.mk (wireString s ++ l) (some k)).after 2 =
      ⟨s ++ l, some (k - 1)⟩ := rfl
  have harrives : ((Socket.mk (wireString s ++ l) (some k)).Delivers 2 ∧
      s.length ≤ capacity ∧ (Socket.mk (s ++ l) (some (k - 1))).Delivers s.length) ↔
        2 ≤ k := by
    simp only [Socket.Delivers, List.length_append, length_wireString, ne_eq,
      Option.some.injEq]
    omega
  unfold afterString
  rw [announced_wireString _ hlen]
  simp only [hafter, harrives]
  split
  · simp [Socket.after, Nat.sub_sub]
  · rfl

/-- A packet that starts with a string, on a connection that is cut somewhere. -/
theorem string_cut (capacity : Nat) {x : Left} (hx : x = ⟨n, ⟨wireString s ++ l, some k⟩⟩)
    (hs : s.length ≤ capacity) (hcap : capacity < 2 ^ 16) (hn : 2 + s.length ≤ n) :
    StringFits capacity x ∧ ((afterString capacity x).isSome = false ↔ k < 2) ∧
      ∀ y, afterString capacity x = some y → y.size = n - (2 + s.length) := by
  have hafter := afterString_wireString (n := n) (l := l) (k := k) hs hcap
  subst hx
  rw [hafter]
  refine ⟨stringFits_wireString _ (hs.trans_lt hcap) hn, ?_, ?_⟩
  · split
    · next hk => exact iff_of_false Bool.noConfusion (Nat.not_lt.mpr hk)
    · next hk => exact iff_of_true rfl (Nat.lt_of_not_le hk)
  · intro y hy
    split at hy
    · cases hy
      rfl
    · cases hy

/-- A byte arrives if a read is left. -/
theorem afterBytes_one (b : UInt8) :
    afterBytes 1 ⟨n, ⟨b :: l, some k⟩⟩ =
      if k = 0 then ⟨n, ⟨b :: l, some 0⟩⟩ else ⟨n - 1, ⟨l, some (k - 1)⟩⟩ := by
  rcases k with - | k
  · simp [afterBytes, Socket.Delivers, Socket.dead]
  · simp [afterBytes, Socket.Delivers, Socket.after]

/-- Two bytes arrive if two reads are left. -/
theorem afterBytes_two (a b : UInt8) :
    (2 ≤ k → afterBytes 2 ⟨n, ⟨a :: b :: l, some k⟩⟩ = ⟨n - 2, ⟨l, some (k - 2)⟩⟩) ∧
    (k < 2 → ∃ input, afterBytes 2 ⟨n, ⟨a :: b :: l, some k⟩⟩ = ⟨n - k, ⟨input, some 0⟩⟩) := by
  rcases k with - | - | k
  · refine ⟨fun h => by omega, fun _ => ⟨a :: b :: l, ?_⟩⟩
    simp [afterBytes, Socket.Delivers, Socket.dead]
  · refine ⟨fun h => by omega, fun _ => ⟨b :: l, ?_⟩⟩
    simp [afterBytes, Socket.Delivers, Socket.dead, Socket.after]
  · refine ⟨fun _ => ?_, fun h => by omega⟩
    simp [afterBytes, Socket.Delivers, Socket.after, Nat.sub_sub]

end

end Left

/-- The remaining length in front of a connection that is cut behind it. -/
theorem lengthField_numeral (target : Target) {digits l : List UInt8}
    (hdigits : VarInt.IsNumeral digits) {j k : Nat} (hj : j + digits.length ≤ 4) :
    lengthField target j (digits ++ l) (some (digits.length + k)) =
      some (128 ^ j * VarInt.value digits, ⟨l, some k⟩) := by
  induction digits generalizing j with
  | nil => exact hdigits.elim
  | cons b digits ih =>
      rw [List.length_cons] at hj
      have hread : ¬ (some (digits.length + 1 + k) = some 0 ∨
          target.trapsUndefined ∧ 4 ≤ j) := by
        rintro (h | h)
        · have := Option.some.inj h
          omega
        · omega
      rw [List.cons_append, List.length_cons, lengthField, if_neg hread]
      rcases hdigits.cases with ⟨b', heq, hlt⟩ | ⟨b', digits', heq, hge, hdigits'⟩
      · obtain ⟨rfl, rfl⟩ := List.cons.inj heq
        rw [if_pos hlt]
        simp [VarInt.value, Nat.mul_comm]
      · obtain ⟨rfl, rfl⟩ := List.cons.inj heq
        have hleft : digits.length + 1 + k - 1 = digits.length + k := by omega
        rw [if_neg (by omega), Option.map_some, hleft, ih hdigits' (by omega), VarInt.value,
          Option.map_some, Nat.pow_succ]
        ring_nf

/-- The header of a frame on a connection that is cut behind it. -/
theorem header_frame (target : Target) (f : Frame) (rest : List UInt8) (k : Nat) :
    (Socket.mk (f.bytes ++ rest) (some (f.header.length + k))).header target =
      some (f.control, ⟨f.body.length, ⟨f.body ++ rest, some k⟩⟩) := by
  have hd : (Socket.mk (f.bytes ++ rest) (some (f.header.length + k))).Delivers 1 := by
    refine ⟨by simp [Frame.bytes, Frame.header], ?_⟩
    simp [Frame.header]
  have hfield := lengthField_numeral target (l := f.body ++ rest) f.numeral
    (j := 0) (k := k) (by have := f.length_le; omega)
  rw [Socket.header, if_pos hd]
  have hsize : f.body.length % 2 ^ 32 = f.body.length :=
    Nat.mod_eq_of_lt (f.body_length_lt.trans (by decide))
  simp only [Frame.bytes, Frame.header, List.cons_append, List.append_assoc, List.drop_one,
    List.tail_cons, List.length_cons, Option.map_some, Nat.add_right_comm,
    Nat.add_sub_cancel, hfield, f.value_eq, Nat.pow_zero, Nat.one_mul, hsize]
  rfl

/-! ### SUBSCRIBE -/

section

variable {γ : Type} {callback : γ → List UInt8 → ServerM Net (Bool × γ)}

/-- A callback that accepts every topic and leaves the sockets as they are. -/
def AcceptsAll (callback : γ → List UInt8 → ServerM Net (Bool × γ)) : Prop :=
  ∀ captured topic m, ∃ captured' m',
    callback captured topic m = .ok ((true, captured'), m') ∧ m'.net = m.net

/-- On a connection that is dead, the loop ends without success, unless there is
too little left of the packet for a length. -/
theorem readTopics_dead (callback : γ → List UInt8 → ServerM Net (Bool × γ)) {fuel : Nat}
    (topic : StringBuffer 128) (captured : γ) {input : List UInt8}
    (hdead : (p.left m).socket = ⟨input, some 0⟩) (hpos : 0 < fuel) :
    (p.bytesRemaining = 1 →
      Subscribe.readTopics callback fuel topic captured p m = .error .packetReadAssert) ∧
    (2 ≤ p.bytesRemaining → ∃ r m',
      Subscribe.readTopics callback fuel topic captured p m = .ok (r, m') ∧ r.1 = false) := by
  -- one byte is less than a length, and `Packet::Read` asserts; with two it fails
  obtain ⟨fuel, rfl⟩ := Nat.exists_eq_add_of_le' hpos
  constructor
  · intro hsize
    rw [Subscribe.readTopics, if_pos (by omega)]
    refine bind_of_error (readString_over fun h => ?_)
    have hone : (p.left m).size = 1 := hsize
    have htwo := h.1
    omega
  · intro hsize
    have hd : ¬ (p.left m).socket.Delivers 2 := fun h => by
      rw [hdead] at h
      exact h.2 rfl
    obtain ⟨⟨read, topic', p'⟩, m', hrun, -, hnext⟩ :=
      readString_fits topic ⟨hsize, fun h => absurd h hd⟩
    rw [Left.afterString, if_neg fun h => hd h.1] at hnext
    obtain rfl : read = false := hnext
    rw [Subscribe.readTopics, if_pos (by omega)]
    exact ⟨_, m', bind_of_ok hrun, rfl⟩

/-- One round of the loop over filters on a connection that is cut somewhere.  If
the topic arrives the loop goes on, on a dead connection if the options do not. -/
theorem readTopics_round (hcb : AcceptsAll callback) {s : List UInt8} {options : UInt8}
    {l : List UInt8} {n k : Nat} (fuel : Nat) (topic : StringBuffer 128) (captured : γ)
    (htopic : s.length ≤ 128) (hn : s.length + 3 ≤ n)
    (hleft : p.left m = ⟨n, ⟨wireString s ++ options :: l, some k⟩⟩) :
    (k < 2 → ∃ r m',
      Subscribe.readTopics callback (fuel + 1) topic captured p m = .ok (r, m') ∧ r.1 = false) ∧
    (2 ≤ k → ∃ topic₁ captured₁ p₁ m₁,
      Subscribe.readTopics callback (fuel + 1) topic captured p m =
        Subscribe.readTopics callback fuel topic₁ captured₁ p₁ m₁ ∧
      p₁.left m₁ = if k = 2 then ⟨n - (2 + s.length), ⟨options :: l, some 0⟩⟩
        else ⟨n - (3 + s.length), ⟨l, some (k - 3)⟩⟩) := by
  have hsize : p.bytesRemaining = n := congrArg Left.size hleft
  have hfits : Left.StringFits 128 (p.left m) := by
    rw [hleft]
    exact Left.stringFits_wireString _ (by omega) (by omega)
  obtain ⟨⟨read, topic₁, p₁⟩, m₁, hrun₁, -, hnext⟩ := readString_fits topic hfits
  rw [hleft, Left.afterString_wireString htopic (by decide)] at hnext
  rw [Subscribe.readTopics, if_pos (by omega), bind_of_ok hrun₁]
  constructor
  · intro hk
    rw [if_neg (by omega)] at hnext
    obtain rfl : read = false := hnext
    exact ⟨_, m₁, rfl, rfl⟩
  · intro hk
    rw [if_pos hk] at hnext
    obtain ⟨rfl, hleft₁, -⟩ := hnext
    obtain ⟨captured₂, m₂, hrun₂, hnet⟩ := hcb captured topic₁.bytes m₁
    have hleft₂ : p₁.left m₂ = p₁.left m₁ := by rw [Packet.left, hnet, Packet.left]
    have hleft₁ := hleft₂.trans hleft₁
    obtain ⟨⟨-, read₃, p₃⟩, m₃, hrun₃, rfl, -, hleft₃⟩ :=
      readUInt8_fits 0 (Left.bytesFit_of_le (x := p₁.left m₂)
        (by rw [hleft₁]; dsimp only; omega))
    rw [hleft₁, Left.afterBytes_one] at hleft₃
    simp only [if_true]
    rw [bind_of_ok hrun₂]
    simp only [if_true]
    rw [bind_of_ok hrun₃]
    refine ⟨topic₁, captured₂, p₃, m₃, rfl, hleft₃.trans ?_⟩
    have hlast : (k - 2 = 0) = (k = 2) := by
      rw [eq_iff_iff]
      omega
    simp only [hlast, show n - (2 + s.length) - 1 = n - (3 + s.length) by omega,
      show k - 2 - 1 = k - 3 by omega]

/-- The loop over filters on a connection that is cut between them: it ends
without success, unless only the options of the last filter are missing. -/
theorem readTopics_cut (hcb : AcceptsAll callback) {filters : List Filter} {k fuel : Nat}
    (topic : StringBuffer 128) (captured : γ) {rest : List UInt8}
    (htopics : ∀ f ∈ filters, f.topic.length ≤ 128) (hk : k < 3 * filters.length)
    (hleft : p.left m = ⟨(filters.flatMap Filter.bytes).length,
      ⟨filters.flatMap Filter.bytes ++ rest, some k⟩⟩)
    (hfuel : p.bytesRemaining ≤ fuel) :
    (k + 1 = 3 * filters.length →
      Subscribe.readTopics callback fuel topic captured p m = .error .packetReadAssert) ∧
    (k + 1 ≠ 3 * filters.length → ∃ r m',
      Subscribe.readTopics callback fuel topic captured p m = .ok (r, m') ∧ r.1 = false) := by
  induction filters generalizing k fuel topic captured p m with
  | nil => exact absurd hk (Nat.not_lt_zero _)
  | cons f filters ih =>
      have htopic : f.topic.length ≤ 128 := htopics f List.mem_cons_self
      rw [List.length_cons] at hk ⊢
      have hsize : p.bytesRemaining =
          f.topic.length + 3 + (filters.flatMap Filter.bytes).length := by
        have := congrArg Left.size hleft
        rw [List.flatMap_cons, List.length_append, Filter.length_bytes] at this
        exact this
      have hleft : p.left m = ⟨p.bytesRemaining, ⟨wireString f.topic ++
          (f.options :: (filters.flatMap Filter.bytes ++ rest)), some k⟩⟩ := by
        rw [hleft, hsize]
        simp [Filter.bytes, List.flatMap_cons]
        omega
      obtain ⟨fuel, rfl⟩ := Nat.exists_eq_add_of_le' (by omega : 1 ≤ fuel)
      obtain ⟨hstops, hgoes⟩ :=
        readTopics_round hcb fuel topic captured htopic (by omega) hleft
      rcases Nat.lt_or_ge k 2 with hlt | hge
      · exact ⟨fun heq => by omega, fun _ => hstops hlt⟩
      obtain ⟨topic₁, captured₁, p₁, m₁, hround, hleft₁⟩ := hgoes hge
      rw [hround]
      split at hleft₁
      · -- the options are missing
        have hsize₁ : p₁.bytesRemaining = p.bytesRemaining - (2 + f.topic.length) :=
          congrArg Left.size hleft₁
        obtain ⟨hone, htwo⟩ := readTopics_dead callback (p := p₁) (m := m₁) topic₁ captured₁
          (congrArg Left.socket hleft₁) (by omega : 0 < fuel)
        rcases filters with - | ⟨g, filters⟩
        · rw [List.flatMap_nil, List.length_nil] at hsize
          exact ⟨fun _ => hone (by omega), fun hne => absurd (by simp; omega) hne⟩
        · rw [List.flatMap_cons, List.length_append, Filter.length_bytes] at hsize
          rw [List.length_cons]
          exact ⟨fun heq => by omega, fun _ => htwo (by omega)⟩
      · have hsize₁ : p₁.bytesRemaining = p.bytesRemaining - (3 + f.topic.length) :=
          congrArg Left.size hleft₁
        rw [show p.bytesRemaining - (3 + f.topic.length) =
          (filters.flatMap Filter.bytes).length by omega] at hleft₁
        have hrest := ih topic₁ captured₁
          (fun g hg => htopics g (List.mem_cons_of_mem f hg)) (by omega) hleft₁
          (by omega : p₁.bytesRemaining ≤ fuel)
        exact ⟨fun heq => hrest.1 (by omega), fun hne => hrest.2 (by omega)⟩

end

/-! ### Messages -/

namespace Message

/-- How often `ReadFrom` of the message's type calls `Read`. -/
def reads (flags : UInt8) : Message → Nat
  | connect .. => 6
  | connack .. => 2
  | publish .. => if hasPacketId flags then 4 else 2
  | subscribe _ filters => 2 + 3 * filters.length
  | suback .. => 3
  | other .. => 0

/-- `ReadFrom` of the message's type: whether it returns a packet. -/
def readFrom {γ : Type} (callback : γ → List UInt8 → ServerM Net (Bool × γ)) (captured : γ)
    (target : Target) (packet : Packet) : Message → ServerM Net Bool
  | connect .. => do
      let (out, _) ← Connect.readFrom target packet
      return out.isSome
  | connack .. => do
      let (out, _) ← ConnectAck.readFrom packet
      return out.isSome
  | publish .. => do
      let (out, _) ← Publish.readFrom packet packet.typeFlags
      return out.isSome
  | subscribe .. => do
      let (out, _, _) ← Subscribe.readFrom callback captured packet
      return out.isSome
  | suback .. => do
      let (out, _) ← SubscribeAck.readFrom packet
      return out.isSome
  | other .. => return false

/-- The read that is the first to fail is one that `ReadFrom` notices: one of the
two for the first string, and for a SUBSCRIBE any but that of the last byte. -/
def RejectedAt (k : Nat) : Message → Prop
  | connect .. => k < 2
  | connack .. => False
  | publish .. => k < 2
  | subscribe _ filters => k ≠ 3 * filters.length + 1
  | suback .. => False
  | other .. => False

end Message

theorem returns_false_iff {x : ServerM Net Bool} {b : Bool} {m' : Machine Net}
    (h : x m = .ok (b, m')) : (∃ m', x m = .ok (false, m')) ↔ b = false := by
  rw [h]
  refine ⟨fun ⟨_, heq⟩ => ?_, fun hb => ⟨m', by rw [hb]⟩⟩
  cases heq
  rfl

section

variable {γ : Type} {callback : γ → List UInt8 → ServerM Net (Bool × γ)}
variable {rest : List UInt8} {k : Nat}

/-- A packet id and filters, cut somewhere. -/
theorem readSubscribe_cut (hcb : AcceptsAll callback) (captured : γ) {packetId : UInt16}
    {filters : List Filter} (hne : filters ≠ [])
    (htopics : ∀ f ∈ filters, f.topic.length ≤ 128) (hk : k < 2 + 3 * filters.length)
    (hleft : p.left m = ⟨2 + (filters.flatMap Filter.bytes).length,
      ⟨wireBytes packetId.toNat ++ (filters.flatMap Filter.bytes ++ rest), some k⟩⟩) :
    (k = 3 * filters.length + 1 →
      Subscribe.readFrom callback captured p m = .error .packetReadAssert) ∧
    (k ≠ 3 * filters.length + 1 → ∃ r m',
      Subscribe.readFrom callback captured p m = .ok (r, m') ∧ r.1 = none) := by
  have hfilters : 1 ≤ filters.length := List.length_pos_iff.mpr hne
  obtain ⟨⟨-, id, p₁⟩, m₁, hrun₁, rfl, -, hleft₁⟩ := readUInt16_fits 0
    (Left.bytesFit_of_le (x := p.left m) (by rw [hleft]; exact Nat.le_add_right ..))
  rw [hleft] at hleft₁
  obtain ⟨hge, hlt⟩ := Left.afterBytes_two (k := k)
    (n := 2 + (filters.flatMap Filter.bytes).length)
    (l := filters.flatMap Filter.bytes ++ rest)
    (UInt8.ofNat (packetId.toNat / 256)) (UInt8.ofNat packetId.toNat)
  rw [Subscribe.readFrom, bind_of_ok hrun₁]
  simp only [if_true]
  rcases Nat.lt_or_ge k 2 with hk2 | hk2
  · -- the packet id is missing, so are the filters
    obtain ⟨input, hdead⟩ := hlt hk2
    have hleft₁ : p₁.left m₁ = _ := hleft₁.trans hdead
    have hlong : 3 ≤ (filters.flatMap Filter.bytes).length := by
      obtain - | ⟨f, filters⟩ := filters
      · exact absurd rfl hne
      · rw [List.flatMap_cons, List.length_append, Filter.length_bytes]
        omega
    have hsize : p₁.bytesRemaining = 2 + (filters.flatMap Filter.bytes).length - k :=
      congrArg Left.size hleft₁
    obtain ⟨⟨read, captured', p'⟩, m', hrun, hr⟩ := (readTopics_dead callback
      (p := p₁) (m := m₁) (.empty 128) captured (congrArg Left.socket hleft₁)
      (by omega : 0 < p₁.bytesRemaining)).2 (by omega)
    obtain rfl : read = false := hr
    exact ⟨fun heq => by omega, fun _ => ⟨_, m', bind_of_ok hrun, rfl⟩⟩
  · have hleft₁ : p₁.left m₁ = ⟨(filters.flatMap Filter.bytes).length,
        ⟨filters.flatMap Filter.bytes ++ rest, some (k - 2)⟩⟩ := by
      refine (hleft₁.trans (hge hk2)).trans ?_
      rw [Nat.add_sub_cancel_left]
    have htopics := readTopics_cut hcb (.empty 128) captured htopics (by omega) hleft₁
      (Nat.le_refl p₁.bytesRemaining)
    refine ⟨fun heq => bind_of_error (htopics.1 (by omega)), fun hne' => ?_⟩
    obtain ⟨⟨read, captured', p'⟩, m', hrun, hr⟩ := htopics.2 (by omega)
    obtain rfl : read = false := hr
    exact ⟨_, m', bind_of_ok hrun, rfl⟩

end

/-- **Truncated messages.**  A connection delivers the header of a well-formed
message and then `k` of the reads of its fields.  `ReadFrom` returns nothing
if and only if the read that fails is one that it notices. -/
theorem truncated_rejected_iff {γ : Type}
    {callback : γ → List UInt8 → ServerM Net (Bool × γ)} (captured : γ)
    {msg : Message} {f : Frame} (conn : ClientConnection) {rest : List UInt8} {k : Nat}
    (hcb : AcceptsAll callback) (hmsg : msg.WellFormed) (hf : f.Carries msg)
    (hk : k < msg.reads f.typeFlags)
    (hsocket : m.net.sockets conn.socket = ⟨f.bytes ++ rest, some (f.header.length + k)⟩) :
    ∃ p m₁, Packet.readNext target conn m = .ok (some p, m₁) ∧
      ((∃ m', msg.readFrom callback captured target p m₁ = .ok (false, m')) ↔
        msg.RejectedAt k) := by
  have hheader := header_frame target f rest k
  rw [← hsocket] at hheader
  refine ⟨_, _, readNext_header hheader, ?_⟩
  set p : Packet := ⟨f.control, f.body.length, conn⟩ with hp
  set m₁ := m.setSocket conn.socket ⟨f.body ++ rest, some k⟩ with hm₁
  have hleft : p.left m₁ = ⟨f.body.length, ⟨f.body ++ rest, some k⟩⟩ := by
    simp [Packet.left, hp, hm₁]
  rw [hf.body] at hleft
  cases msg with
  | connect name level flags keepAlive payload =>
      simp only [Message.body, List.append_assoc] at hleft
      obtain ⟨hname, hcut, hsize⟩ :=
        Left.string_cut 6 hleft hmsg (by decide) (by simp)
      have hfits : Left.ConnectFits (p.left m₁) := by
        refine ⟨hname, fun y hy => Left.bytesFit_of_le ?_⟩
        rw [hsize y hy]
        simp [wireBytes]
      obtain ⟨r, m', hrun, hsome⟩ := readConnect_fits target hfits
      rw [returns_false_iff (bind_of_ok hrun), hsome]
      exact hcut
  | connack flags returnCode =>
      obtain ⟨r, m', hrun, hsome⟩ := readConnack_fits (p := p) (m := m₁)
        (Left.bytesFit_of_le (by rw [hleft]; exact Nat.le_refl _))
      rw [returns_false_iff (bind_of_ok hrun)]
      simp [hsome, Message.RejectedAt]
  | publish topic packetId payload =>
      simp only [Message.body, List.append_assoc] at hleft
      obtain ⟨htopic, hcut, hsize⟩ :=
        Left.string_cut 128 hleft hmsg (by decide) (by simp)
      have hfits : Left.PublishFits p.typeFlags (p.left m₁) := by
        refine ⟨htopic, fun y hy hid => Left.bytesFit_of_le ?_⟩
        rw [hsize y hy, show f.typeFlags = p.typeFlags from rfl, if_pos hid]
        simp [wireBytes]
      obtain ⟨r, m', hrun, hsome⟩ := readPublish_fits hfits
      rw [returns_false_iff (bind_of_ok hrun), hsome]
      exact hcut
  | subscribe packetId filters =>
      rw [Message.body, List.append_assoc, List.length_append] at hleft
      obtain ⟨hassert, hnone⟩ := readSubscribe_cut hcb captured hmsg.1 hmsg.2 hk
        hleft
      rw [Message.RejectedAt]
      by_cases hlast : k = 3 * filters.length + 1
      · refine iff_of_false ?_ (fun h => h hlast)
        rintro ⟨m', h⟩
        rw [show Message.readFrom _ _ _ _ _ _ = _ from bind_of_error (hassert hlast)] at h
        cases h
      · obtain ⟨⟨-, captured', p'⟩, m', hrun, rfl⟩ := hnone hlast
        exact iff_of_true ⟨m', bind_of_ok hrun⟩ hlast
  | suback packetId codes =>
      have hcodes : 1 ≤ codes.length := List.length_pos_iff.mpr hmsg
      obtain ⟨r, m', hrun, hsome⟩ := readSuback_fits (p := p) (m := m₁)
        (Left.bytesFit_of_le (by
          rw [hleft]
          simp only [Message.body, wireBytes, List.length_append, List.length_cons,
            List.length_nil]
          omega))
      rw [returns_false_iff (bind_of_ok hrun)]
      simp [hsome, Message.RejectedAt]
  | other type body => exact absurd hk (Nat.not_lt_zero _)

/-- A callback that accepts every topic and captures nothing. -/
def acceptTopic (captured : Unit) (_topic : List UInt8) : ServerM Net (Bool × Unit) :=
  return (true, captured)

/-- A connection that delivers its header and then `k` more reads. -/
def cutAfter (f : Frame) (k : Nat) : Machine Net :=
  { net := { sockets := fun _ => ⟨f.bytes, some (f.header.length + k)⟩ } }

/-- The topic of a PUBLISH is missing. -/
theorem truncated_rejected_iff_publish :
    ∃ p m₁, Packet.readNext {} { socket := 1, id := 7 } (cutAfter publishHiFrame 1) =
        .ok (some p, m₁) ∧
      ∃ m', (Message.publish [0x61] 0 [0x68, 0x69]).readFrom acceptTopic () {} p m₁ =
        .ok (false, m') := by
  have hcb : AcceptsAll acceptTopic := fun captured topic m => ⟨captured, m, rfl, rfl⟩
  have hf : publishHiFrame.Carries (.publish [0x61] 0 [0x68, 0x69]) :=
    ⟨by decide, by decide⟩
  have hsocket : (cutAfter publishHiFrame 1).net.sockets 1 =
      ⟨publishHiFrame.bytes ++ [], some (publishHiFrame.header.length + 1)⟩ := by
    rw [List.append_nil]
    rfl
  obtain ⟨p, m₁, hnext, hiff⟩ := truncated_rejected_iff () { socket := 1, id := 7 } hcb
    (by decide) hf (by decide) hsocket
  exact ⟨p, m₁, hnext, hiff.mpr (show 1 < 2 by decide)⟩

/-- The server refused the connection, but all the client got is the header. -/
def refusedFrame : Frame :=
  ⟨0x20, [2], [0, 5], by decide, by decide, rfl⟩

/-- A CONNACK of which only the header arrived is read as one that accepts. -/
theorem cut_connack_accepted :
    ∃ p m₁ p' m', Packet.readNext {} { socket := 1, id := 7 } (cutAfter refusedFrame 0) =
        .ok (some p, m₁) ∧
      ConnectAck.readFrom p m₁ = .ok ((some { returnCode := 0 }, p'), m') := by
  have hrun : ((do
      let (p, m₁) ← Packet.readNext {} { socket := 1, id := 7 } (cutAfter refusedFrame 0)
      let ((ack, _), _) ← ConnectAck.readFrom (p.getD ⟨0, 0, { socket := 1, id := 7 }⟩) m₁
      return (p.isSome, ack)) : Except Fault _) = .ok (true, some { returnCode := 0 }) := by
    decide +kernel
  obtain ⟨p, m₁, hnext, h⟩ := exists_ok_of_bind hrun
  obtain ⟨⟨ack, p'⟩, m', hread, h⟩ := exists_ok_of_bind h
  simp only [pure, Except.pure, Except.ok.injEq, Prod.mk.injEq] at h
  obtain ⟨hsome, rfl⟩ := h
  obtain ⟨p, rfl⟩ := Option.isSome_iff_exists.mp hsome
  exact ⟨p, m₁, p', m', hnext, hread⟩

end Gnat
