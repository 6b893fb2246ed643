/-
Gnat/NetReads.lean

The field readers on a connection that may start to fail at any point.

`Left` is what the readers depend on: how many bytes a packet still has to
read, and its socket.  For a string and for single bytes, `StringFits` and
`BytesFit` say that the field stays within the packet, and `afterString` and
`afterBytes` what is left behind it.  If the field fits, the reader returns and
leaves exactly that; if it does not, the reader runs into the assertion of
`Packet::Read`.
-/
import Gnat.Network
import Gnat.Proto3

namespace Gnat

open Lib Prog

/-- What is left of a packet: its remaining size and its socket. -/
structure Left where
  size : Nat
  socket : Socket
  deriving DecidableEq, Repr

/-- The size a packet still has to read and the socket it reads from. -/
def Packet.left (p : Packet) (m : Machine Net) : Left :=
  ⟨p.bytesRemaining, m.net.sockets p.connection.socket⟩

/-- A packet but for what it still has to read. -/
structure Packet.Same (p p' : Packet) : Prop where
  control : p'.control = p.control
  connection : p'.connection = p.connection

theorem Packet.Same.refl (p : Packet) : p.Same p :=
  ⟨rfl, rfl⟩

namespace Left

/-! ### Strings -/

/-- The length in front of the stream. -/
def announced (x : Left) : Nat :=
  wireUInt16 (x.socket.input.getD 0 0) (x.socket.input.getD 1 0)

/-- The string behind it. -/
def string (x : Left) : List UInt8 :=
  (x.socket.input.drop 2).take x.announced

/-- A string read into a buffer of the given capacity stays within the packet:
its length does, and so does the string if its length arrives and is not over
the capacity. -/
def StringFits (capacity : Nat) (x : Left) : Prop :=
  2 ≤ x.size ∧ (x.socket.Delivers 2 → x.announced ≤ capacity → 2 + x.announced ≤ x.size)

/-- What is left behind a string, if it arrives and is not too long. -/
def afterString (capacity : Nat) (x : Left) : Option Left :=
  if x.socket.Delivers 2 ∧ x.announced ≤ capacity ∧
      (x.socket.after 2).Delivers x.announced then
    some ⟨x.size - (2 + x.announced), (x.socket.after 2).after x.announced⟩
  else none

/-! ### Single bytes -/

/-- Reading single bytes stays within the packet.  A byte that does not arrive
does not count, and none arrives after it. -/
def BytesFit : (count : Nat) → Left → Prop
  | 0, _ => True
  | n + 1, x =>
      1 ≤ x.size ∧ (x.socket.Delivers 1 → BytesFit n ⟨x.size - 1, x.socket.after 1⟩)

/-- What is left behind single bytes. -/
def afterBytes : (count : Nat) → Left → Left
  | 0, x => x
  | n + 1, x =>
      if x.socket.Delivers 1 then afterBytes n ⟨x.size - 1, x.socket.after 1⟩
      else ⟨x.size, x.socket.dead⟩

end Left

theorem Socket.not_delivers_dead (s : Socket) (size : Nat) : ¬ s.dead.Delivers size :=
  fun h => h.2 rfl

namespace Left

theorem bytesFit_dead {count size : Nat} (s : Socket) (h : 1 ≤ size) :
    BytesFit count ⟨size, s.dead⟩ := by
  cases count with
  | zero => trivial
  | succ n => exact ⟨h, fun hd => absurd hd (s.not_delivers_dead 1)⟩

theorem afterBytes_dead (count size : Nat) (s : Socket) :
    afterBytes count ⟨size, s.dead⟩ = ⟨size, s.dead⟩ := by
  cases count with
  | zero => rfl
  | succ n => exact if_neg (s.not_delivers_dead 1)

end Left

namespace Left

theorem bytesFit_add {a b : Nat} {x : Left} :
    BytesFit (a + b) x ↔ BytesFit a x ∧ BytesFit b (afterBytes a x) := by
  induction a generalizing x with
  | zero => simp [BytesFit, afterBytes]
  | succ a ih =>
      rw [Nat.succ_add, BytesFit, BytesFit, afterBytes, and_assoc]
      refine and_congr_right fun hsize => ?_
      by_cases hd : x.socket.Delivers 1
      · simp only [hd, if_true, forall_const, ih]
      · simp only [hd, if_false, false_imp_iff, true_and, true_iff]
        exact bytesFit_dead _ hsize

end Left

/-! ### `Packet::Read` -/

/-- A machine with one socket replaced. -/
def Machine.setSocket (m : Machine Net) (socket : Nat) (s : Socket) : Machine Net :=
  { m with net := m.net.update socket s }

@[simp] theorem setSocket_sockets (m : Machine Net) (socket : Nat) (s : Socket) :
    (m.setSocket socket s).net.sockets socket = s :=
  Net.update_sockets_self ..

@[simp] theorem setSocket_setSocket (m : Machine Net) (socket : Nat) (s s' : Socket) :
    (m.setSocket socket s).setSocket socket s' = m.setSocket socket s' := by
  simp [Machine.setSocket, Net.update]

theorem left_setSocket (p : Packet) (size : Nat) (m : Machine Net) (s : Socket) :
    Packet.left { p with bytesRemaining := size } (m.setSocket p.connection.socket s) =
      ⟨size, s⟩ := by
  simp [Packet.left, Machine.setSocket]

theorem ClientConnection.read_of {conn : ClientConnection} {size : Nat} {m : Machine Net}
    {r : Option (List.Vector UInt8 size)} {w : Net}
    (h : Net.read conn.socket size m.net = (r, w)) :
    conn.read size m = .ok (r, { m with net := w }) := by
  show Except.ok ((Net.read conn.socket size m.net).1, _) = _
  rw [show Network.read conn.socket size m.net = (r, w) from h, h]

theorem Packet.read_over {W : Type} [Network W] {p : Packet} {size : Nat} {m : Machine W}
    (h : p.bytesRemaining < size) : p.read size m = .error .packetReadAssert := by
  refine bind_of_error ?_
  rw [check, if_neg (Nat.not_le.mpr h)]
  rfl

variable {p : Packet} {m : Machine Net}

theorem Packet.read_delivers {size : Nat} (hle : size ≤ p.bytesRemaining)
    (hd : (p.left m).socket.Delivers size) :
    p.read size m = .ok
      ((some ⟨(p.left m).socket.input.take size, by
          rw [List.length_take, Nat.min_eq_left hd.1]⟩,
        { p with bytesRemaining := p.bytesRemaining - size }),
        m.setSocket p.connection.socket ((p.left m).socket.after size)) := by
  unfold Packet.read
  rw [check, if_pos hle, pure_bind,
    bind_of_ok (ClientConnection.read_of (Net.read_of_delivers hd))]
  rfl

theorem Packet.read_dies {size : Nat} (hle : size ≤ p.bytesRemaining)
    (hd : ¬ (p.left m).socket.Delivers size) :
    p.read size m = .ok
      ((none, p), m.setSocket p.connection.socket (p.left m).socket.dead) := by
  unfold Packet.read
  rw [check, if_pos hle, pure_bind,
    bind_of_ok (ClientConnection.read_of (Net.read_of_not_delivers hd))]
  rfl

/-! ### Reading single bytes -/

theorem readBytesLoop_over {count : Nat} {out : List UInt8}
    (h : ¬ Left.BytesFit count (p.left m)) :
    readBytesLoop count out p m = .error .packetReadAssert := by
  induction count generalizing out p m with
  | zero => exact absurd trivial h
  | succ n ih =>
      rcases Nat.lt_or_ge p.bytesRemaining 1 with hlt | hle
      · exact bind_of_error (Packet.read_over hlt)
      · have hd : (p.left m).socket.Delivers 1 := by
          by_contra hd
          exact h ⟨hle, fun hd' => absurd hd' hd⟩
        refine (bind_of_ok (Packet.read_delivers hle hd)).trans (ih fun hfit => ?_)
        rw [left_setSocket] at hfit
        exact h ⟨hle, fun _ => hfit⟩

theorem readBytesLoop_fits {count : Nat} (out : List UInt8)
    (h : Left.BytesFit count (p.left m)) :
    ∃ out' p' m', readBytesLoop count out p m = .ok ((out', p'), m') ∧ p.Same p' ∧
      p'.left m' = Left.afterBytes count (p.left m) := by
  induction count generalizing out p m with
  | zero => exact ⟨out, p, m, rfl, .refl p, rfl⟩
  | succ n ih =>
      obtain ⟨hle, hrest⟩ := h
      by_cases hd : (p.left m).socket.Delivers 1
      · have hleft := left_setSocket p (p.bytesRemaining - 1) m ((p.left m).socket.after 1)
        obtain ⟨out', p', m', hrun, hsame, hafter⟩ := ih _ (hleft ▸ hrest hd)
        refine ⟨out', p', m', (bind_of_ok (Packet.read_delivers hle hd)).trans hrun,
          ⟨hsame.control, hsame.connection⟩, ?_⟩
        rw [hafter, hleft, Left.afterBytes, if_pos hd]
        rfl
      · have hleft := left_setSocket p p.bytesRemaining m (p.left m).socket.dead
        obtain ⟨out', p', m', hrun, hsame, hafter⟩ :=
          ih _ (hleft ▸ Left.bytesFit_dead _ hle)
        refine ⟨out', p', m', (bind_of_ok (Packet.read_dies hle hd)).trans hrun, hsame, ?_⟩
        rw [hafter, Left.afterBytes, if_neg hd]
        exact (congrArg _ hleft).trans (Left.afterBytes_dead ..)

theorem readUInt8_over {out : UInt8} (h : ¬ Left.BytesFit 1 (p.left m)) :
    readUInt8 out p m = .error .packetReadAssert :=
  bind_of_error (bind_of_error (readBytesLoop_over h))

/-- A byte that fits counts as read. -/
theorem readUInt8_fits (out : UInt8) (h : Left.BytesFit 1 (p.left m)) :
    ∃ r m', readUInt8 out p m = .ok (r, m') ∧ r.1 = true ∧ p.Same r.2.2 ∧
      r.2.2.left m' = Left.afterBytes 1 (p.left m) := by
  obtain ⟨out', p', m', hrun, hsame, hleft⟩ := readBytesLoop_fits [out] h
  have hbytes : readBytes 1 [out] p m = .ok ((true, out', p'), m') := bind_of_ok hrun
  exact ⟨_, m', bind_of_ok hbytes, rfl, hsame, hleft⟩

theorem readUInt16_over {out : UInt16} (h : ¬ Left.BytesFit 2 (p.left m)) :
    readUInt16 out p m = .error .packetReadAssert :=
  bind_of_error (bind_of_error (readBytesLoop_over h))

/-- Two bytes that fit count as read. -/
theorem readUInt16_fits (out : UInt16) (h : Left.BytesFit 2 (p.left m)) :
    ∃ r m', readUInt16 out p m = .ok (r, m') ∧ r.1 = true ∧ p.Same r.2.2 ∧
      r.2.2.left m' = Left.afterBytes 2 (p.left m) := by
  obtain ⟨out', p', m', hrun, hsame, hleft⟩ :=
    readBytesLoop_fits (memoryUInt16 out) h
  have hbytes : readBytes 2 (memoryUInt16 out) p m = .ok ((true, out', p'), m') :=
    bind_of_ok hrun
  exact ⟨_, m', bind_of_ok hbytes, rfl, hsame, hleft⟩

/-! ### Reading a string -/

section

variable {size : Nat} {out : StringBuffer size}

/-- The packet and the machine behind the length of a string. -/
def Packet.behindLength (p : Packet) (m : Machine Net) : Packet × Machine Net :=
  ({ p with bytesRemaining := p.bytesRemaining - 2 },
    m.setSocket p.connection.socket ((p.left m).socket.after 2))

theorem left_behindLength (p : Packet) (m : Machine Net) :
    (p.behindLength m).1.left (p.behindLength m).2 =
      ⟨(p.left m).size - 2, (p.left m).socket.after 2⟩ :=
  left_setSocket p _ m _

theorem wireUInt16_get {l : List UInt8} (h : (l.take 2).length = 2) :
    wireUInt16 (List.Vector.get ⟨l.take 2, h⟩ 0) (List.Vector.get ⟨l.take 2, h⟩ 1) =
      wireUInt16 (l.getD 0 0) (l.getD 1 0) :=
  match l, h with
  | [], h => nomatch h
  | [_], h => nomatch h
  | _ :: _ :: _, _ => rfl

/-- What is left to do once the length of a string has arrived. -/
theorem readString_length (hle : 2 ≤ p.bytesRemaining)
    (hd : (p.left m).socket.Delivers 2) :
    readString out p m =
      readStringBytes out (p.left m).announced (p.behindLength m).1 (p.behindLength m).2 := by
  refine (bind_of_ok (Packet.read_delivers hle hd)).trans ?_
  simp only [wireUInt16_get]
  rfl

theorem readString_over (h : ¬ Left.StringFits size (p.left m)) :
    readString out p m = .error .packetReadAssert := by
  rcases Nat.lt_or_ge (p.left m).size 2 with hlt | hle
  · exact bind_of_error (Packet.read_over hlt)
  · have hd : (p.left m).socket.Delivers 2 := by
      by_contra hd
      exact h ⟨hle, fun hd' => absurd hd' hd⟩
    have hover : (p.left m).announced ≤ size ∧
        (p.left m).size < 2 + (p.left m).announced := by
      by_contra hover
      exact h ⟨hle, fun _ hcap => Nat.le_of_not_lt fun hlt => hover ⟨hcap, hlt⟩⟩
    rw [readString_length hle hd, readStringBytes, if_neg (Nat.not_lt.mpr hover.1)]
    refine bind_of_error (Packet.read_over ?_)
    show (p.left m).size - 2 < _
    omega

theorem StringBuffer.bytes_fill_of_eq {data : List.Vector UInt8 size} {src : List UInt8}
    {n : Nat} (hn : src.length = n) (h : n ≤ size) :
    (⟨StringBuffer.fill data src, n⟩ : StringBuffer size).bytes = src := by
  subst hn
  exact StringBuffer.bytes_fill h

/-- A string that fits is read if all of it arrives and it is not too long. -/
theorem readString_fits (out : StringBuffer size) (h : Left.StringFits size (p.left m)) :
    ∃ r m', readString out p m = .ok (r, m') ∧ p.Same r.2.2 ∧
      match Left.afterString size (p.left m) with
      | none => r.1 = false
      | some left => r.1 = true ∧ r.2.2.left m' = left ∧
          r.2.1.bytes = (p.left m).string := by
  obtain ⟨hle, hrest⟩ := h
  unfold Left.afterString
  by_cases hd : (p.left m).socket.Delivers 2
  swap
  · rw [if_neg fun hall => hd hall.1]
    exact ⟨_, _, bind_of_ok (Packet.read_dies hle hd), .refl p, rfl⟩
  -- the length arrives, and the buffer may be too small for it
  rw [readString_length hle hd, readStringBytes]
  rcases Nat.lt_or_ge size (p.left m).announced with hlt | hcap
  · rw [if_pos hlt, if_neg fun hall => Nat.not_le.mpr hlt hall.2.1]
    exact ⟨_, _, rfl, ⟨rfl, rfl⟩, rfl⟩
  rw [if_neg (Nat.not_lt.mpr hcap)]
  have hfit : (p.left m).announced ≤ (p.behindLength m).1.bytesRemaining := by
    have := hrest hd hcap
    show _ ≤ (p.left m).size - 2
    omega
  have hleft := left_behindLength p m
  by_cases hd' : ((p.left m).socket.after 2).Delivers (p.left m).announced
  · rw [if_pos ⟨hd, hcap, hd'⟩]
    have hread := Packet.read_delivers hfit (by rw [hleft]; exact hd')
    refine ⟨_, _, bind_of_ok hread, ⟨rfl, rfl⟩, rfl, ?_, ?_⟩
    · refine (left_setSocket _ _ _ _).trans ?_
      rw [hleft]
      simp only [Left.mk.injEq, and_true]
      show (p.left m).size - 2 - _ = _
      omega
    · refine (StringBuffer.bytes_fill_of_eq (List.Vector.toList_length _) hcap).trans ?_
      simp only [List.Vector.toList, hleft]
      rfl
  · rw [if_neg fun hall => hd' hall.2.2]
    have hread := Packet.read_dies hfit (by rw [hleft]; exact hd')
    exact ⟨_, _, bind_of_ok hread, ⟨rfl, rfl⟩, rfl⟩

end

/-! ### Reading a header -/

/-- The remaining length in front of a stream, from its `k`-th byte on, and the
socket behind it; `none` if it does not arrive.  A build that traps undefined
behaviour does not get over the fifth byte. -/
def lengthField (target : Target) :
    (k : Nat) → (input : List UInt8) → (reads : Option Nat) → Option (Nat × Socket)
  | _, [], _ => none
  | k, b :: input, reads =>
      if reads = some 0 ∨ target.trapsUndefined ∧ 4 ≤ k then none
      else if b.toNat < 128 then
        some (b.toNat % 128 * 128 ^ k, ⟨input, reads.map (· - 1)⟩)
      else
        (lengthField target (k + 1) input (reads.map (· - 1))).map fun r =>
          (b.toNat % 128 * 128 ^ k + r.1, r.2)

/-- The control byte and the packet in front of a stream. -/
def Socket.header (target : Target) (s : Socket) : Option (UInt8 × Left) :=
  if s.Delivers 1 then
    (lengthField target 0 (s.input.drop 1) (s.readsLeft.map (· - 1))).map fun r =>
      (s.input.getD 0 0, ⟨r.1 % 2 ^ 32, r.2⟩)
  else none

/-- What the loop has reached before the `k`-th byte: the power, up to a
multiple of `2 ^ 32` where products wrap. -/
def PowerReached (target : Target) (k : Nat) (multiplier : Int) : Prop :=
  if target.trapsUndefined then k ≤ 4 ∧ multiplier = (128 ^ k : Nat)
  else multiplier % 2 ^ 32 = ((128 ^ k : Nat) : Int) % 2 ^ 32

theorem intMul_wraps {target : Target} (h : target.trapsUndefined = false) (a b : Int) :
    ∃ c, target.intMul a b = .ok c ∧ c % 2 ^ 32 = a * b % 2 ^ 32 := by
  unfold Target.intMul
  split
  · exact ⟨_, rfl, rfl⟩
  · rw [if_neg (by simp [h])]
    exact ⟨_, rfl, Int.bmod_emod ..⟩

theorem mul_emod_of_emod {a b c n : Int} (h : b % n = c % n) : a * b % n = a * c % n := by
  rw [Int.mul_emod, h, ← Int.mul_emod]

/-- The two products of a round, where the build gets over it. -/
theorem products_of_round {target : Target} {k d : Nat} {multiplier : Int}
    (hmul : PowerReached target k multiplier) (hd : d < 128)
    (hk : ¬ (target.trapsUndefined ∧ 4 ≤ k)) :
    ∃ product next, target.intMul d multiplier = .ok product ∧
      product % 2 ^ 32 = ((d * 128 ^ k : Nat) : Int) % 2 ^ 32 ∧
      target.intMul multiplier 128 = .ok next ∧ PowerReached target (k + 1) next := by
  unfold PowerReached at hmul ⊢
  cases htraps : target.trapsUndefined with
  -- nothing overflows in the first four rounds
  | true =>
      rw [htraps, if_pos rfl] at hmul
      obtain ⟨-, rfl⟩ := hmul
      have hk : k < 4 := by simpa [htraps] using hk
      have hpow : 128 ^ k ≤ 128 ^ 3 := Nat.pow_le_pow_right (by decide) (by omega)
      have hproduct : d * 128 ^ k ≤ 127 * 128 ^ k := Nat.mul_le_mul_right _ (by omega)
      refine ⟨_, _, Target.intMul_natCast (by omega), rfl,
        Target.intMul_natCast (a := 128 ^ k) (b := 128) (by omega), ?_⟩
      rw [if_pos rfl]
      exact ⟨hk, rfl⟩
  -- whatever overflows, the low 32 bits are right
  | false =>
      rw [htraps, if_neg (by decide)] at hmul
      obtain ⟨product, hproduct, hproduct'⟩ := intMul_wraps htraps d multiplier
      obtain ⟨next, hnext, hnext'⟩ := intMul_wraps htraps multiplier 128
      refine ⟨product, next, hproduct, ?_, hnext, ?_⟩
      · rw [hproduct', mul_emod_of_emod hmul, Int.natCast_mul]
      · rw [if_neg (by decide), hnext', Int.mul_comm, mul_emod_of_emod hmul, Nat.pow_succ,
          Nat.mul_comm, Int.natCast_mul]
        rfl

/-- The fifth byte of a length, where undefined behaviour is trapped. -/
theorem fifth_byte_traps {target : Target} {k : Nat} {multiplier : Int}
    (hmul : PowerReached target k multiplier) (hk : target.trapsUndefined ∧ 4 ≤ k) :
    target.intMul multiplier 128 = .error .signedOverflow := by
  unfold PowerReached at hmul
  rw [hk.1, if_pos rfl] at hmul
  obtain ⟨hle, rfl⟩ := hmul
  obtain rfl : k = 4 := Nat.le_antisymm hle hk.2
  unfold Target.intMul
  rw [hk.1]
  rfl

theorem intMul_error {target : Target} {a b : Int} {e : Fault}
    (h : target.intMul a b = .error e) : e = .signedOverflow := by
  unfold Target.intMul at h
  split at h
  · cases h
  · split at h <;> cases h
    rfl

variable {target : Target} {conn : ClientConnection}

/-- A byte of a connection that delivers. -/
theorem read_byte (conn : ClientConnection) {b : UInt8} {input : List UInt8}
    (hin : (m.net.sockets conn.socket).input = b :: input)
    (hreads : (m.net.sockets conn.socket).readsLeft ≠ some 0) :
    conn.read 1 m = .ok (some ⟨[b], rfl⟩, m.setSocket conn.socket
      ⟨input, (m.net.sockets conn.socket).readsLeft.map (· - 1)⟩) := by
  have hd : (m.net.sockets conn.socket).Delivers 1 := ⟨by simp [hin], hreads⟩
  rw [ClientConnection.read_of (Net.read_of_delivers hd)]
  simp [hin, Socket.after, Machine.setSocket]

/-- The loop ends where the next byte does not arrive. -/
theorem readVariableByteLoop_ends (fuel out : Nat) (multiplier : Int)
    (hd : ¬ (m.net.sockets conn.socket).Delivers 1) :
    readVariableByteLoop target conn (fuel + 1) multiplier out m =
      .ok ((false, out), m.setSocket conn.socket (m.net.sockets conn.socket).dead) :=
  bind_of_ok (ClientConnection.read_of (Net.read_of_not_delivers hd))

/-- One round of the loop, over the `k`-th byte, where the build gets over it. -/
theorem readVariableByteLoop_round {b : UInt8} {input : List UInt8} {reads : Option Nat}
    {k : Nat} {multiplier : Int} (out : Nat)
    (hsocket : m.net.sockets conn.socket = ⟨b :: input, reads⟩) (hreads : reads ≠ some 0)
    (hmul : PowerReached target k multiplier)
    (hk : ¬ (target.trapsUndefined ∧ 4 ≤ k)) :
    ∃ next, PowerReached target (k + 1) next ∧
      ∀ fuel, readVariableByteLoop target conn (fuel + 1) multiplier out m =
        (if b.toNat < 128 then pure (true, (out + b.toNat % 128 * 128 ^ k) % 2 ^ 32)
        else readVariableByteLoop target conn fuel next
          ((out + b.toNat % 128 * 128 ^ k) % 2 ^ 32))
          (m.setSocket conn.socket ⟨input, reads.map (· - 1)⟩) := by
  have hread := read_byte (m := m) conn (by rw [hsocket]) (by rw [hsocket]; exact hreads)
  simp only [hsocket] at hread
  have hd : b.toNat % 128 < 128 := Nat.mod_lt _ (by decide)
  obtain ⟨product, next, hproduct, hproduct', hnext, hpower⟩ := products_of_round hmul hd hk
  have hsum : (((out : Int) + product) % 2 ^ 32).toNat =
      (out + b.toNat % 128 * 128 ^ k) % 2 ^ 32 := by
    omega
  refine ⟨next, hpower, fun fuel => ?_⟩
  refine (bind_of_ok hread).trans ?_
  refine (bind_of_ok (ofExcept_of_ok hproduct)).trans ?_
  refine (bind_of_ok (ofExcept_of_ok hnext)).trans ?_
  rw [hsum]
  rfl

/-- The round over a fifth byte, where undefined behaviour is trapped. -/
theorem readVariableByteLoop_traps {b : UInt8} {input : List UInt8} {reads : Option Nat}
    {k : Nat} {multiplier : Int} (fuel out : Nat)
    (hsocket : m.net.sockets conn.socket = ⟨b :: input, reads⟩) (hreads : reads ≠ some 0)
    (hmul : PowerReached target k multiplier) (hk : target.trapsUndefined ∧ 4 ≤ k) :
    readVariableByteLoop target conn (fuel + 1) multiplier out m = .error .signedOverflow := by
  have hread := read_byte (m := m) conn (by rw [hsocket]) (by rw [hsocket]; exact hreads)
  refine (bind_of_ok hread).trans ?_
  have htrap := fifth_byte_traps hmul hk
  -- the first product may overflow already
  rcases hproduct : target.intMul ((b.toNat % 128 : Nat) : Int) multiplier with e | product
  · obtain rfl := intMul_error hproduct
    refine bind_of_error ?_
    show ofExcept (target.intMul ((b.toNat % 128 : Nat) : Int) multiplier) _ = _
    rw [hproduct]
    rfl
  · refine (bind_of_ok (ofExcept_of_ok hproduct)).trans (bind_of_error ?_)
    rw [htrap]
    rfl

/-- A loop that reads on from the `k`-th byte. -/
theorem readVariableByteLoop_net {input : List UInt8} {reads : Option Nat}
    {k fuel out : Nat} {multiplier : Int}
    (hsocket : m.net.sockets conn.socket = ⟨input, reads⟩) (hfuel : input.length < fuel)
    (hmul : PowerReached target k multiplier) (hout : out < 2 ^ 32) :
    match lengthField target k input reads with
    | some (v, s) =>
        readVariableByteLoop target conn fuel multiplier out m =
          .ok ((true, (out + v) % 2 ^ 32), m.setSocket conn.socket s)
    | none =>
        wp (readVariableByteLoop target conn fuel multiplier out)
          (fun r _ => r.1 = false) (· = .signedOverflow) m := by
  induction input generalizing k fuel out multiplier reads m with
  | nil =>
      obtain ⟨fuel, rfl⟩ := Nat.exists_eq_add_of_le' hfuel
      have hd : ¬ (m.net.sockets conn.socket).Delivers 1 := by
        rw [hsocket]
        exact fun hd => by simpa using hd.1
      exact (wp_of_ok (readVariableByteLoop_ends fuel out multiplier hd)).mpr rfl
  | cons b input ih =>
      obtain ⟨fuel, rfl⟩ := Nat.exists_eq_add_of_le' (by omega : 1 ≤ fuel)
      rw [List.length_cons] at hfuel
      -- the connection fails, or the build traps the overflow, or the round is over
      by_cases hreads : reads = some 0
      · have hd : ¬ (m.net.sockets conn.socket).Delivers 1 := by
          rw [hsocket]
          exact fun hd => hd.2 hreads
        rw [lengthField, if_pos (.inl hreads)]
        exact (wp_of_ok (readVariableByteLoop_ends fuel out multiplier hd)).mpr rfl
      by_cases hk : target.trapsUndefined ∧ 4 ≤ k
      · rw [lengthField, if_pos (.inr hk), wp,
          readVariableByteLoop_traps _ _ hsocket hreads hmul hk]
      · obtain ⟨next, hpower, hround⟩ :=
          readVariableByteLoop_round out hsocket hreads hmul hk
        have hround := hround fuel
        rw [lengthField, if_neg (not_or.mpr ⟨hreads, hk⟩)]
        by_cases hlast : b.toNat < 128
        · rw [if_pos hlast] at hround ⊢
          exact hround
        rw [if_neg hlast] at hround ⊢
        have hsocket₁ : (m.setSocket conn.socket ⟨input, reads.map (· - 1)⟩).net.sockets
            conn.socket = ⟨input, reads.map (· - 1)⟩ :=
          setSocket_sockets ..
        have hrest := ih hsocket₁ (by omega : input.length < fuel) hpower
          (Nat.mod_lt (out + b.toNat % 128 * 128 ^ k) (by decide))
        rcases hfield : lengthField target (k + 1) input (reads.map (· - 1)) with - | ⟨v, s⟩
        · rw [hfield] at hrest
          rw [wp, hround]
          exact hrest
        · rw [hfield] at hrest
          simp only [Option.map_some]
          rw [hround, hrest]
          simp [Machine.setSocket, Net.update, Nat.add_assoc]

/-- The control byte of a header. -/
theorem readUInt8_byte {b : UInt8} {m' : Machine Net}
    (h : conn.read 1 m = .ok (some ⟨[b], rfl⟩, m')) :
    readUInt8 0 conn m = .ok ((true, b, conn), m') := by
  have hread : Client.read conn 1 m = .ok ((some ⟨[b], rfl⟩, conn), m') := bind_of_ok h
  have hloop : readBytesLoop 1 [0] conn m = .ok (([b], conn), m') := bind_of_ok hread
  have hbytes : readBytes 1 [0] conn m = .ok ((true, [b], conn), m') := bind_of_ok hloop
  exact bind_of_ok hbytes

theorem readVariableByteInteger_eq {s : Socket} (h : m.net.sockets conn.socket = s) :
    readVariableByteInteger target conn m =
      readVariableByteLoop target conn (s.input.length + 1) 1 0 m := by
  subst h
  rfl

theorem power_start (target : Target) : PowerReached target 0 1 := by
  simp [PowerReached]

/-- The length of a packet, if it arrives. -/
theorem readVariableByteInteger_some {v : Nat} {s s' : Socket}
    (hs : m.net.sockets conn.socket = s)
    (hfield : lengthField target 0 s.input s.readsLeft = some (v, s')) :
    readVariableByteInteger target conn m =
      .ok ((true, v % 2 ^ 32), m.setSocket conn.socket s') := by
  subst hs
  have hloop := readVariableByteLoop_net (rfl : m.net.sockets conn.socket = ⟨_, _⟩)
    (Nat.lt_succ_self _) (power_start target) (by decide : 0 < 2 ^ 32)
  simp only [hfield, Nat.zero_add] at hloop
  exact hloop

theorem readVariableByteInteger_none {s : Socket} (hs : m.net.sockets conn.socket = s)
    (hfield : lengthField target 0 s.input s.readsLeft = none) :
    wp (readVariableByteInteger target conn) (fun r _ => r.1 = false)
      (· = .signedOverflow) m := by
  subst hs
  have hloop := readVariableByteLoop_net (rfl : m.net.sockets conn.socket = ⟨_, _⟩)
    (Nat.lt_succ_self _) (power_start target) (by decide : 0 < 2 ^ 32)
  rw [hfield] at hloop
  rw [wp, readVariableByteInteger_eq rfl]
  exact hloop

/-- The control byte, if it arrives. -/
theorem readControl (hd : (m.net.sockets conn.socket).Delivers 1) :
    readUInt8 0 conn m = .ok ((true, (m.net.sockets conn.socket).input.getD 0 0, conn),
      m.setSocket conn.socket ((m.net.sockets conn.socket).after 1)) := by
  rcases hs : m.net.sockets conn.socket with ⟨- | ⟨b, input⟩, reads⟩
  · rw [hs] at hd
    exact absurd hd.1 (by simp)
  · have hbyte := readUInt8_byte (read_byte conn (by rw [hs]) hd.2)
    rw [hs] at hbyte
    exact hbyte

/-- `ReadNext` returns the packet whose header arrives. -/
theorem readNext_header {control : UInt8} {left : Left}
    (h : (m.net.sockets conn.socket).header target = some (control, left)) :
    Packet.readNext target conn m =
      .ok (some ⟨control, left.size, conn⟩, m.setSocket conn.socket left.socket) := by
  unfold Socket.header at h
  split at h
  swap
  · cases h
  next hd =>
  obtain ⟨⟨v, s⟩, hfield, heq⟩ := Option.map_eq_some_iff.mp h
  obtain ⟨rfl, rfl⟩ := Prod.mk.inj heq
  have hlength := readVariableByteInteger_some
    (setSocket_sockets m conn.socket ((m.net.sockets conn.socket).after 1)) hfield
  rw [setSocket_setSocket] at hlength
  have hheader : FixedHeader.readFrom target conn m = .ok (some _, _) :=
    (bind_of_ok (readControl hd)).trans (bind_of_ok hlength)
  exact bind_of_ok hheader

theorem lengthField_dead (s : Socket) :
    lengthField target 0 s.dead.input s.dead.readsLeft = none := by
  unfold lengthField Socket.dead
  split
  · rfl
  · exact if_pos (.inl rfl)

/-- A control byte that does not arrive counts as read. -/
theorem readControl_dead (hd : ¬ (m.net.sockets conn.socket).Delivers 1) :
    readUInt8 0 conn m = .ok ((true, 0, conn),
      m.setSocket conn.socket (m.net.sockets conn.socket).dead) := by
  have hread := bind_of_ok (f := fun r => (pure (r, conn) : ServerM Net _))
    (ClientConnection.read_of (Net.read_of_not_delivers hd))
  have hloop : readBytesLoop 1 [0] conn m = .ok (([0], conn), _) := bind_of_ok hread
  have hbytes : readBytes 1 [0] conn m = .ok ((true, [0], conn), _) := bind_of_ok hloop
  exact bind_of_ok hbytes

/-- Without a header `ReadNext` returns no packet. -/
theorem readNext_no_header (h : (m.net.sockets conn.socket).header target = none) :
    wp (Packet.readNext target conn) (fun r _ => r = none) (· ≠ .packetReadAssert) m := by
  obtain ⟨control, s, hcontrol, hfield⟩ : ∃ control s,
      readUInt8 0 conn m = .ok ((true, control, conn), m.setSocket conn.socket s) ∧
      lengthField target 0 s.input s.readsLeft = none := by
    by_cases hd : (m.net.sockets conn.socket).Delivers 1
    · rw [Socket.header, if_pos hd, Option.map_eq_none_iff] at h
      exact ⟨_, _, readControl hd, h⟩
    · exact ⟨_, _, readControl_dead hd, lengthField_dead _⟩
  simp only [Packet.readNext, FixedHeader.readFrom, wp_bind]
  rw [wp_of_ok hcontrol, if_pos rfl, wp_bind]
  refine wp_mono (readVariableByteInteger_none (setSocket_sockets ..) hfield) ?_ ?_
  · rintro ⟨- | -, v⟩ m' hfail
    · rfl
    · cases hfail
  · rintro e rfl
    decide

end Gnat
