/-
Gnat/LengthField.lean

When the remaining length of a packet is decoded as MQTT lays it out.

`ReadVariableByteInteger` has no bound on its rounds.  `DecodesLength` is what
it is to do on a connection, whatever bytes arrive there and whenever the reads
start to fail: at most four bytes are consumed, no product overflows, and the
result is the numeral in front of the stream.  `decodesLength_iff` says on which
connections it does: on all but those where four bytes that continue arrive and
a fifth byte behind them.
-/
import Gnat.Lib.VarInt
import Gnat.NetReads

namespace Gnat

open Lib Prog

/-! ### What arrives -/

/-- The bytes that single reads get from a socket before they fail. -/
def Socket.available (s : Socket) : List UInt8 :=
  match s.readsLeft with
  | none => s.input
  | some n => s.input.take n

theorem Socket.available_cons {s : Socket} {b : UInt8} {rest : List UInt8}
    (h : s.available = b :: rest) :
    ∃ input reads, s = ⟨b :: input, reads⟩ ∧ reads ≠ some 0 ∧
      (Socket.mk input (reads.map (· - 1))).available = rest := by
  obtain ⟨- | ⟨c, input⟩, - | n⟩ := s
  · cases h
  · simp [available] at h
  · obtain ⟨rfl, rfl⟩ := List.cons.inj h
    exact ⟨_, none, rfl, nofun, rfl⟩
  · cases n with
    | zero => simp [available] at h
    | succ n =>
        simp only [available, List.take_succ_cons] at h
        obtain ⟨rfl, rfl⟩ := List.cons.inj h
        exact ⟨_, some (n + 1), rfl, by simp, rfl⟩

theorem Socket.available_nil {s : Socket} (h : s.available = []) : ¬ s.Delivers 1 := by
  obtain ⟨input, - | n⟩ := s
  · rintro ⟨hlen, -⟩
    simp only [available] at h
    simp [h] at hlen
  · rintro ⟨hlen, hreads⟩
    simp only [available, List.take_eq_nil_iff] at h
    rcases h with rfl | rfl
    · exact hreads rfl
    · simp at hlen

/-! ### The rounds over bytes that continue -/

variable {target : Target} {conn : ClientConnection} {m : Machine Net}
variable {front rest : List UInt8}

/-- The loop goes on behind bytes that continue, from the `k`-th on. -/
theorem readVariableByteLoop_continues (hfront : ∀ c ∈ front, 128 ≤ c.toNat)
    {k out : Nat} {multiplier : Int} (hout : out < 2 ^ 32)
    (havailable : (m.net.sockets conn.socket).available = front ++ rest)
    (hmul : PowerReached target k multiplier)
    (hk : target.trapsUndefined → k + front.length ≤ 4) :
    ∃ next m', PowerReached target (k + front.length) next ∧
      (m'.net.sockets conn.socket).available = rest ∧
      (m.net.sockets conn.socket).input = front ++ (m'.net.sockets conn.socket).input ∧
      ∀ fuel, readVariableByteLoop target conn (fuel + front.length) multiplier out m =
        readVariableByteLoop target conn fuel next
          ((out + 128 ^ k * VarInt.value front) % 2 ^ 32) m' := by
  induction front generalizing k out multiplier m with
  | nil =>
      refine ⟨multiplier, m, hmul, havailable, rfl, fun fuel => ?_⟩
      rw [VarInt.value, Nat.mul_zero, Nat.add_zero, Nat.mod_eq_of_lt hout]
      rfl
  | cons b front ih =>
      rw [List.length_cons] at hk
      obtain ⟨input, reads, hsocket, hreads, hrest⟩ := Socket.available_cons havailable
      have hgets : ¬ (target.trapsUndefined ∧ 4 ≤ k) := fun h => by
        have := hk h.1
        omega
      obtain ⟨next, hpower, hround⟩ := readVariableByteLoop_round out hsocket hreads
        hmul hgets
      have hb : ¬ b.toNat < 128 := Nat.not_lt.mpr (hfront b List.mem_cons_self)
      simp only [if_neg hb] at hround
      have hsocket₁ := setSocket_sockets m conn.socket ⟨input, reads.map (· - 1)⟩
      have hlater : ∀ c ∈ front, 128 ≤ c.toNat := fun c hc =>
        hfront c (List.mem_cons_of_mem b hc)
      obtain ⟨next', m', hpower', havailable', hinput, hloop⟩ := ih hlater
        (Nat.mod_lt (out + b.toNat % 128 * 128 ^ k) (by decide))
        (by rw [hsocket₁]; exact hrest) hpower
        (fun htraps => by have := hk htraps; omega)
      rw [hsocket₁] at hinput
      refine ⟨next', m', ?_, havailable', ?_, fun fuel => ?_⟩
      · rwa [List.length_cons, Nat.add_comm front.length, ← Nat.add_assoc]
      · rw [hsocket]
        exact congrArg (b :: ·) hinput
      · rw [List.length_cons, ← Nat.add_assoc, hround, hloop, Nat.mod_add_mod, VarInt.value,
          Nat.pow_succ]
        congr 2
        ring

/-! ### Decoding -/

/-- What `ReadVariableByteInteger` is to do on a connection. -/
structure DecodesLength (target : Target) (conn : ClientConnection) (m : Machine Net) :
    Prop where
  /-- No product overflows: a build that traps that does not stop. -/
  products : readVariableByteInteger { target with trapsUndefined := true } conn m ≠
    .error .signedOverflow
  /-- It returns, behind at most four bytes.  The result is true exactly if one
  of the first four bytes that arrive does not continue, and then what was
  consumed ends with it and gives the number. -/
  decodes : ∃ read out m' taken,
    readVariableByteInteger target conn m = .ok ((read, out), m') ∧
    (m.net.sockets conn.socket).input = taken ++ (m'.net.sockets conn.socket).input ∧
    taken.length ≤ 4 ∧
    (read = true ↔ ∃ b ∈ (m.net.sockets conn.socket).available.take 4, b.toNat < 128) ∧
    (read = true → VarInt.IsNumeral taken ∧
      out = ∑ i : Fin taken.length, (taken.get i).toNat % 128 * 128 ^ (i : Nat))

theorem readVariableByteInteger_fuel (n : Nat) {l : List UInt8}
    (h : (m.net.sockets conn.socket).input.length = l.length + n) :
    readVariableByteInteger target conn m =
      readVariableByteLoop target conn (n + 1 + l.length) 1 0 m := by
  rw [readVariableByteInteger_eq rfl, h]
  congr 1
  omega

/-- A numeral of at most four bytes is read. -/
theorem readVariableByteInteger_last (target : Target) {b : UInt8}
    (hfront : ∀ c ∈ front, 128 ≤ c.toNat)
    (hb : b.toNat < 128) (hlength : front.length < 4)
    (havailable : (m.net.sockets conn.socket).available = front ++ b :: rest) :
    ∃ m', readVariableByteInteger target conn m =
        .ok ((true, VarInt.value (front ++ [b])), m') ∧
      (m.net.sockets conn.socket).input =
        (front ++ [b]) ++ (m'.net.sockets conn.socket).input := by
  obtain ⟨next, m₁, hpower, havailable₁, hinput, hloop⟩ := readVariableByteLoop_continues
    hfront (by decide : 0 < 2 ^ 32) havailable (power_start target) (fun _ => by omega)
  obtain ⟨input, reads, hsocket₁, hreads, -⟩ := Socket.available_cons havailable₁
  obtain ⟨next', hpower', hround⟩ := readVariableByteLoop_round
    ((0 + 128 ^ 0 * VarInt.value front) % 2 ^ 32) hsocket₁ hreads hpower (fun h => by omega)
  simp only [if_pos hb, Nat.zero_add] at hround
  have hsize : (m.net.sockets conn.socket).input.length =
      front.length + (input.length + 1) := by
    rw [hinput, hsocket₁, List.length_append, List.length_cons]
  refine ⟨m₁.setSocket conn.socket ⟨input, reads.map (· - 1)⟩, ?_, ?_⟩
  · rw [readVariableByteInteger_fuel _ hsize, hloop, Nat.zero_add, hround]
    show Except.ok ((true, _), _) = _
    congr 3
    -- four digits are less than `2 ^ 28`, so the sum in 32 bits is the number
    have hlt := VarInt.value_lt (front ++ [b])
    have hpow : 128 ^ (front ++ [b]).length ≤ 128 ^ 4 :=
      Nat.pow_le_pow_right (by decide) (by simpa using hlength)
    rw [VarInt.value_append] at hlt ⊢
    simp only [VarInt.value, Nat.mul_zero, Nat.add_zero, Nat.pow_zero,
      Nat.one_mul] at hlt ⊢
    rw [Nat.mod_add_mod, Nat.mul_comm (b.toNat % 128), Nat.mod_eq_of_lt (by omega)]
  · rw [setSocket_sockets, hinput, hsocket₁, List.append_assoc]
    rfl

/-- Without a byte that ends it no numeral is read, where at most four arrive. -/
theorem readVariableByteInteger_open (target : Target) (hfront : ∀ c ∈ front, 128 ≤ c.toNat)
    (hlength : front.length ≤ 4) (havailable : (m.net.sockets conn.socket).available = front) :
    ∃ out m', readVariableByteInteger target conn m = .ok ((false, out), m') ∧
      (m.net.sockets conn.socket).input = front ++ (m'.net.sockets conn.socket).input := by
  obtain ⟨next, m₁, -, havailable₁, hinput, hloop⟩ := readVariableByteLoop_continues
    hfront (by decide : 0 < 2 ^ 32) (havailable.trans (List.append_nil front).symm)
    (power_start target) (fun _ => by omega)
  have hsize := congrArg List.length hinput
  rw [List.length_append] at hsize
  rw [readVariableByteInteger_fuel _ hsize, hloop]
  refine ⟨_, _, readVariableByteLoop_ends _ _ next (Socket.available_nil havailable₁), ?_⟩
  rw [setSocket_sockets]
  exact hinput

/-- Five bytes that arrive, the first four of which continue, overflow. -/
theorem readVariableByteInteger_overflows {b : UInt8} (hfront : ∀ c ∈ front, 128 ≤ c.toNat)
    (hlength : front.length = 4) (htraps : target.trapsUndefined)
    (havailable : (m.net.sockets conn.socket).available = front ++ b :: rest) :
    readVariableByteInteger target conn m = .error .signedOverflow := by
  obtain ⟨next, m₁, hpower, havailable₁, hinput, hloop⟩ := readVariableByteLoop_continues
    hfront (by decide : 0 < 2 ^ 32) havailable (power_start target) (fun _ => by omega)
  obtain ⟨input, reads, hsocket₁, hreads, -⟩ := Socket.available_cons havailable₁
  have hsize := congrArg List.length hinput
  rw [List.length_append] at hsize
  rw [readVariableByteInteger_fuel _ hsize, hloop]
  exact readVariableByteLoop_traps _ _ hsocket₁ hreads hpower ⟨htraps, by omega⟩

/-- A numeral in front of what arrives is decoded. -/
theorem decodesLength_of_last {b : UInt8} (hfront : ∀ c ∈ front, 128 ≤ c.toNat)
    (hb : b.toNat < 128) (hlength : front.length < 4)
    (havailable : (m.net.sockets conn.socket).available = front ++ b :: rest) :
    DecodesLength target conn m := by
  have hmem : b ∈ (m.net.sockets conn.socket).available.take 4 := by
    rw [havailable, List.take_append, List.take_of_length_le (Nat.le_of_lt hlength),
      List.take_cons (Nat.sub_pos_of_lt hlength)]
    exact List.mem_append_right _ List.mem_cons_self
  obtain ⟨m', hread, hinput⟩ :=
    readVariableByteInteger_last target hfront hb hlength havailable
  refine ⟨?_, true, _, m', front ++ [b], hread, hinput, ?_, ?_, fun _ => ?_⟩
  · obtain ⟨m'', hread', -⟩ := readVariableByteInteger_last
      { target with trapsUndefined := true } hfront hb hlength havailable
    rw [hread']
    rintro ⟨⟩
  · simpa using hlength
  · exact iff_of_true rfl ⟨b, hmem, hb⟩
  · exact ⟨VarInt.isNumeral_append hfront hb, VarInt.value_eq_sum _⟩

/-- The length of a packet is decoded as it is to be, whatever arrives on the
connection, except where four bytes that continue and a fifth byte do. -/
theorem decodesLength_iff (target : Target) (conn : ClientConnection) (m : Machine Net) :
    DecodesLength target conn m ↔
      ¬ (4 < (m.net.sockets conn.socket).available.length ∧
        ∀ b ∈ (m.net.sockets conn.socket).available.take 4, 128 ≤ b.toNat) := by
  set available := (m.net.sockets conn.socket).available with havailable
  have hsplit := List.take_append_drop 4 available
  rcases VarInt.exists_last (available.take 4) with hall | ⟨front, b, rest, htake, hfront, hb⟩
  · rcases Nat.lt_or_ge 4 available.length with hlong | hshort
    -- a fifth byte arrives: the multiplier overflows, and a build that traps that stops
    · apply iff_of_false _ (not_not_intro ⟨hlong, hall⟩)
      intro h
      obtain ⟨b, rest, hdrop⟩ := List.exists_cons_of_length_pos
        (show 0 < (available.drop 4).length by rw [List.length_drop]; omega)
      rw [hdrop] at hsplit
      exact h.products (readVariableByteInteger_overflows hall
        (List.length_take_of_le (Nat.le_of_lt hlong)) rfl (havailable.symm.trans hsplit.symm))
    -- the connection ends within the first four bytes
    · apply iff_of_true _ fun h => Nat.not_lt.mpr hshort h.1
      rw [List.take_of_length_le hshort] at hall
      obtain ⟨out, m', hread, hinput⟩ :=
        readVariableByteInteger_open target hall hshort havailable.symm
      refine ⟨?_, false, out, m', available, hread, hinput, hshort, ?_, by rintro ⟨⟩⟩
      · obtain ⟨out', m'', hread', -⟩ := readVariableByteInteger_open
          { target with trapsUndefined := true } hall hshort havailable.symm
        rw [hread']
        rintro ⟨⟩
      · apply iff_of_false Bool.false_ne_true
        rintro ⟨b, hb, hlt⟩
        exact Nat.not_lt.mpr (hall b (List.mem_of_mem_take hb)) hlt
  · have hlength := congrArg List.length htake
    rw [List.length_take, List.length_append, List.length_cons] at hlength
    rw [htake, List.append_assoc] at hsplit
    apply iff_of_true
    · exact decodesLength_of_last hfront hb (by omega) (havailable.symm.trans hsplit.symm)
    · intro h
      have := h.2 b (by rw [htake]; exact List.mem_append_right _ List.mem_cons_self)
      omega

/-- A connection with five bytes, the first four of which continue. -/
def fiveBytes : Machine Net where
  net := { sockets := fun _ => ⟨[255, 255, 255, 255, 1], none⟩ }

/-- A numeral is read off all five bytes, and where undefined behaviour is
trapped the program stops over the last of them. -/
theorem five_bytes_are_decoded :
    ¬ DecodesLength {} { socket := 0, id := 7 } fiveBytes ∧
      (readVariableByteInteger {} { socket := 0, id := 7 } fiveBytes).map
          (fun r => (r.1, (r.2.net.sockets 0).input)) = .ok ((true, 536870911), []) ∧
      readVariableByteInteger { trapsUndefined := true } { socket := 0, id := 7 } fiveBytes =
        .error .signedOverflow := by
  have hoverflow : readVariableByteInteger { trapsUndefined := true } { socket := 0, id := 7 }
      fiveBytes = .error .signedOverflow :=
    error_of_map (g := fun _ => ()) (by decide +kernel)
  exact ⟨fun h => h.products hoverflow, by decide +kernel, hoverflow⟩

end Gnat
