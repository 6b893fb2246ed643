/-
Gnat/Objects.lean

The packet objects of a program that uses `Packet` by itself.

`HandleMessage` reads a packet in the ways of its parsers.  Here any calls are made on
any objects, in any order: `Read`, `Drain` and `Dump`, moves, destructors, and writes on
the `connection()`.  `PacketObjects` are the objects so far, with what was read of the
frame, byte for byte, and `play` makes a list of calls.

Moves hand the rest of the frame on, so one object owns it (`Owns`).  From this the
stream of the connection is right behind the frame when the last object is destroyed,
whatever was called before, and what was read is the body of the frame, in order,
through whichever objects (`packet_objects`).  A run stops on a `Read` of more than its
object has left, and on a `Dump` of more than its buffer holds.

The network is one whose reads and drains of bytes that are there succeed.  A `Read` that
fails after it took bytes does not count them as read, so on other networks the last
destructor drains into the next frame.
-/
import Gnat.Lib.Owner
import Gnat.Sync

namespace Gnat

open Lib Prog StreamNetwork

section

variable {W : Type} [Network W]

/-- `Dump`: what is left is read into a static buffer and printed from there, also when
the `Read` fails.  The printed bytes, the buffer and the packet. -/
def Packet.dump (packet : Packet) (buffer : List.Vector UInt8 1024) :
    ServerM W (List UInt8 × List.Vector UInt8 1024 × Packet) := do
  let toRead := packet.bytesRemaining
  -- behind the buffer the `Read` stores, or else the loop reads
  Prog.check (toRead ≤ 1024) Fault.outOfBounds
  let (bytes, packet) ← packet.read toRead
  let buffer := match bytes with
    | some bytes => StringBuffer.fill buffer bytes.toList
    | none => buffer
  return (buffer.toList.take toRead, buffer, packet)

/-- A call on a packet object. -/
inductive PacketCall
  | move
  | read (size : Nat)
  | drain (size : Nat)
  | dump
  | destroy
  | write (bytes : List UInt8)

/-- What a call on an object leads to. -/
structure PacketCall.Outcome where
  /-- The object after the call, if it is not destroyed. -/
  left : Option Packet
  /-- The objects the call makes. -/
  made : List (Option Packet) := []
  dumpBuffer : List.Vector UInt8 1024
  /-- The bytes that are consumed, and `none` for one that is drained. -/
  consumed : List (Option UInt8) := []

/-- Make a call on an object. -/
def PacketCall.perform (packet : Packet) (buffer : List.Vector UInt8 1024) :
    PacketCall → ServerM W Outcome
  | move => do
      let (made, from_) := packet.move
      return { left := some from_, made := [some made], dumpBuffer := buffer }
  | read size => do
      let (bytes, packet) ← packet.read size
      let consumed := (bytes.map fun bytes => bytes.toList.map some).getD []
      return { left := some packet, dumpBuffer := buffer, consumed }
  | drain size => do
      let (drained, packet) ← packet.drain size
      let consumed := if drained then List.replicate size none else []
      return { left := some packet, dumpBuffer := buffer, consumed }
  | dump => do
      let (printed, dumpBuffer, after) ← packet.dump buffer
      let consumed := (printed.take (packet.bytesRemaining - after.bytesRemaining)).map some
      return { left := some after, dumpBuffer, consumed }
  | destroy => do
      packet.destroy
      let consumed := List.replicate packet.bytesRemaining none
      return { left := none, dumpBuffer := buffer, consumed }
  | write bytes => do
      let _ ← packet.connection.write bytes
      return { left := some packet, dumpBuffer := buffer }

/-- The objects of a program by number, in the order they are made. -/
structure PacketObjects where
  objects : List (Option Packet)
  dumpBuffer : List.Vector UInt8 1024 := List.Vector.replicate 1024 0
  consumed : List (Option UInt8) := []

namespace PacketObjects

/-- Make a call on the object with the number `i`, if it is there. -/
def perform (s : PacketObjects) (i : Nat) (c : PacketCall) : ServerM W PacketObjects :=
  match s.objects[i]? with
  | some (some packet) => do
      let outcome ← c.perform packet s.dumpBuffer
      return {
        objects := s.objects.set i outcome.left ++ outcome.made
        dumpBuffer := outcome.dumpBuffer
        consumed := s.consumed ++ outcome.consumed }
  | _ => return s

/-- Make the calls one after the other. -/
def play (s : PacketObjects) : List (Nat × PacketCall) → ServerM W PacketObjects
  | [] => return s
  | (i, c) :: calls => do
      let s ← s.perform i c
      s.play calls

theorem play_append (s : PacketObjects) (calls calls' : List (Nat × PacketCall)) :
    (s.play (calls ++ calls') : ServerM W PacketObjects) =
      s.play calls >>= fun s => s.play calls' := by
  induction calls generalizing s with
  | nil => rfl
  | cons call calls ih =>
      obtain ⟨i, c⟩ := call
      rw [List.cons_append, play, play, bind_assoc]
      congr 1
      funext s₁
      exact ih s₁

end PacketObjects

/-- The call asks for more than the object has left, or dumps more than the buffer holds. -/
def PacketCall.Oversteps (packet : Packet) (e : Fault) : PacketCall → Prop
  | read size => packet.bytesRemaining < size ∧ e = .packetReadAssert
  | dump => 1024 < packet.bytesRemaining ∧ e = .outOfBounds
  | _ => False

end

/-- A drain of bytes that are there succeeds. -/
class DrainSucceeds (W : Type) [StreamNetwork W] : Prop where
  drain_succeeds {socket bytes : Nat} {w : W} :
    bytes ≤ (input socket w).length → (Network.drain socket bytes w).1 = true

instance : DrainSucceeds Wire where
  drain_succeeds {socket bytes w} h := by
    have h : bytes ≤ (w.input socket).length := h
    show (if bytes ≤ (w.input socket).length then _ else _ : Bool × Wire).1 = true
    rw [if_pos h]

/-- The bytes that are known of those consumed are these. -/
abbrev Tells (consumed : List (Option UInt8)) (taken : List UInt8) : Prop :=
  List.Forall₂ (fun known b => ∀ b', known = some b' → b' = b) consumed taken

theorem tells_some (taken : List UInt8) : Tells (taken.map some) taken := by
  induction taken with
  | nil => exact .nil
  | cons b taken ih =>
      apply List.Forall₂.cons _ ih
      intro b' hb'
      exact (Option.some.inj hb').symm

theorem tells_none (taken : List UInt8) : Tells (List.replicate taken.length none) taken := by
  induction taken with
  | nil => exact .nil
  | cons b taken ih =>
      apply List.Forall₂.cons _ ih
      intro b' hb'
      cases hb'

/-! ### One call -/

section

variable {W : Type} [StreamNetwork W] {p : Packet} {m : Machine W} {mine rest : List UInt8}
variable {buffer : List.Vector UInt8 1024} {c : PacketCall}

/-- Of the bytes `mine` in front of the stream those in `consumed` were taken, and `left`
are left. -/
def Used (socket : Nat) (mine rest : List UInt8) (consumed : List (Option UInt8)) (left : Nat)
    (m : Machine W) : Prop :=
  ∃ taken remaining, mine = taken ++ remaining ∧ remaining.length = left ∧
    Tells consumed taken ∧ input socket m.net = remaining ++ rest

theorem used_nothing {socket left : Nat} (hsize : mine.length = left)
    (hin : input socket m.net = mine ++ rest) : Used socket mine rest [] left m :=
  ⟨[], mine, rfl, hsize, .nil, hin⟩

theorem Used.left_eq {socket left : Nat} {consumed : List (Option UInt8)}
    (h : Used socket mine rest consumed left m) : consumed.length + left = mine.length := by
  obtain ⟨taken, remaining, rfl, rfl, htells, -⟩ := h
  rw [htells.length_eq, List.length_append]

/-- A `Read` takes the bytes in front, or nothing. -/
theorem read_uses (hsize : mine.length = p.bytesRemaining)
    (hin : input p.connection.socket m.net = mine ++ rest) (size : Nat) :
    wp (p.read size)
      (fun r m' => r.2.connection = p.connection ∧ r.2.bytesRemaining ≤ p.bytesRemaining ∧
        Used p.connection.socket mine rest
          ((r.1.map fun bytes => bytes.toList.map some).getD []) r.2.bytesRemaining m')
      (fun e => p.bytesRemaining < size ∧ e = .packetReadAssert) m := by
  simp only [Packet.read, wp_bind, wp_check, wp_read]
  split
  · next hle =>
    rcases hr : Network.read p.connection.socket size m.net with ⟨- | bytes, w⟩
    · refine ⟨rfl, Nat.le_refl _, used_nothing hsize ?_⟩
      exact (read_none hr).trans hin
    · refine ⟨rfl, Nat.sub_le _ _, ?_⟩
      have hfront := (read_some hr).symm.trans hin
      have hlength := bytes.toList_length
      obtain ⟨remaining, rfl⟩ : bytes.toList <+: mine :=
        List.prefix_of_prefix_length_le ⟨_, hfront⟩ ⟨_, rfl⟩ (by omega)
      rw [List.append_assoc] at hfront
      refine ⟨_, remaining, rfl, ?_, tells_some _, List.append_cancel_left hfront⟩
      rw [List.length_append] at hsize
      show remaining.length = p.bytesRemaining - size
      omega
  · next hlt => exact ⟨Nat.lt_of_not_le hlt, trivial⟩

theorem destroy_uses (hsize : mine.length = p.bytesRemaining)
    (hin : input p.connection.socket m.net = mine ++ rest) {E : Fault → Prop} :
    wp (p.destroy : ServerM W Unit)
      (fun _ m' => Used p.connection.socket mine rest (List.replicate p.bytesRemaining none) 0 m')
      E m := by
  unfold Packet.destroy
  rw [← hsize, wp_ite]
  split
  · have hle : mine.length ≤ (input p.connection.socket m.net).length := by
      rw [hin, List.length_append]
      omega
    rw [wp_bind, wp_drain]
    refine ⟨mine, [], (List.append_nil _).symm, rfl, tells_none _, ?_⟩
    show input _ (Network.drain _ _ _).2 = _
    rw [drain_input hle, hin, List.drop_left]
    rfl
  · next hzero =>
    obtain rfl := List.length_eq_zero_iff.mp (Nat.eq_zero_of_not_pos hzero)
    exact used_nothing rfl hin

/-- What is printed of a buffer that was filled. -/
theorem take_fill {bytes : List UInt8} {size n : Nat} (hfits : size ≤ 1024)
    (hsize : bytes.length = size) (hn : n = size) :
    ((StringBuffer.fill buffer bytes).toList.take size).take n = bytes := by
  subst hsize hn
  rw [StringBuffer.fill_take hfits, List.take_length]

theorem dump_uses (hsize : mine.length = p.bytesRemaining)
    (hin : input p.connection.socket m.net = mine ++ rest) :
    wp (p.dump buffer)
      (fun r m' => r.2.2.connection = p.connection ∧ r.2.2.bytesRemaining ≤ p.bytesRemaining ∧
        Used p.connection.socket mine rest
          ((r.1.take (p.bytesRemaining - r.2.2.bytesRemaining)).map some)
          r.2.2.bytesRemaining m')
      (fun e => 1024 < p.bytesRemaining ∧ e = .outOfBounds) m := by
  simp only [Packet.dump, wp_bind, wp_check]
  split
  · next hfits =>
    apply wp_mono (read_uses hsize hin p.bytesRemaining)
    · rintro ⟨- | bytes, p'⟩ m' ⟨hconn, hle, hused⟩
      · have hused : Used p.connection.socket mine rest [] p'.bytesRemaining m' := hused
        have hsame := hused.left_eq
        rw [List.length_nil] at hsame
        refine ⟨hconn, hle, ?_⟩
        show Used _ _ _ ((List.take (p.bytesRemaining - p'.bytesRemaining) _).map some) _ _
        rw [show p.bytesRemaining - p'.bytesRemaining = 0 by omega, List.take_zero]
        exact hused
      · have hused : Used p.connection.socket mine rest (bytes.toList.map some)
          p'.bytesRemaining m' := hused
        have hall := hused.left_eq
        have hlength := bytes.toList_length
        rw [List.length_map] at hall
        refine ⟨hconn, hle, ?_⟩
        show Used _ _ _ ((List.take (p.bytesRemaining - p'.bytesRemaining)
          ((StringBuffer.fill buffer bytes.toList).toList.take p.bytesRemaining)).map some) _ _
        rw [take_fill (by omega) hlength (by omega)]
        exact hused
    · rintro e ⟨hlt, -⟩
      exact absurd hlt (Nat.lt_irrefl _)
  · next hlt => exact ⟨Nat.lt_of_not_le hlt, trivial⟩

variable [DrainSucceeds W]

theorem drain_uses (hsize : mine.length = p.bytesRemaining)
    (hin : input p.connection.socket m.net = mine ++ rest) (size : Nat) {E : Fault → Prop} :
    wp (p.drain size)
      (fun r m' => r.2.connection = p.connection ∧ r.2.bytesRemaining ≤ p.bytesRemaining ∧
        Used p.connection.socket mine rest
          (if r.1 then List.replicate size none else []) r.2.bytesRemaining m') E m := by
  unfold Packet.drain
  rw [wp_ite]
  split
  · exact ⟨rfl, Nat.le_refl _, used_nothing hsize hin⟩
  · next hle =>
    have hle : size ≤ (input p.connection.socket m.net).length := by
      rw [hin, List.length_append]
      omega
    rw [wp_bind, wp_drain, DrainSucceeds.drain_succeeds hle, if_pos rfl]
    refine ⟨rfl, Nat.sub_le _ _, mine.take size, mine.drop size, ?_, ?_, ?_, ?_⟩
    · exact (List.take_append_drop size mine).symm
    · rw [List.length_drop, hsize]
    · have htells := tells_none (mine.take size)
      rw [List.length_take_of_le (by omega)] at htells
      exact htells
    · show input _ (Network.drain _ _ _).2 = _
      rw [drain_input hle, hin, List.drop_append_of_le_length (by omega)]

/-- A call other than a move uses what its object has, or it oversteps. -/
theorem PacketCall.perform_uses (hc : c ≠ .move) (hsize : mine.length = p.bytesRemaining)
    (hin : input p.connection.socket m.net = mine ++ rest) :
    wp (c.perform p buffer)
      (fun r m' => r.made = [] ∧ (∀ q, r.left = some q → q.connection = p.connection) ∧
        shareOf Packet.bytesRemaining r.left ≤ p.bytesRemaining ∧
        Used p.connection.socket mine rest r.consumed (shareOf Packet.bytesRemaining r.left) m')
      (fun e => c.Oversteps p e) m := by
  have hself : ∀ {p' : Packet}, p'.connection = p.connection →
      ∀ q, some p' = some q → q.connection = p.connection := by
    rintro p' hconn q ⟨⟩
    exact hconn
  cases c with
  | move => exact absurd rfl hc
  | read size =>
      show wp (p.read size >>= _) _ _ m
      rw [wp_bind]
      apply wp_imp (read_uses hsize hin size)
      rintro ⟨bytes, p'⟩ m' ⟨hconn, hle, hused⟩
      exact ⟨rfl, hself hconn, hle, hused⟩
  | drain size =>
      show wp (p.drain size >>= _) _ _ m
      rw [wp_bind]
      apply wp_imp (drain_uses hsize hin size)
      rintro ⟨drained, p'⟩ m' ⟨hconn, hle, hused⟩
      exact ⟨rfl, hself hconn, hle, hused⟩
  | dump =>
      show wp (p.dump buffer >>= _) _ _ m
      rw [wp_bind]
      apply wp_imp (dump_uses hsize hin)
      rintro ⟨printed, buffer', p'⟩ m' ⟨hconn, hle, hused⟩
      exact ⟨rfl, hself hconn, hle, hused⟩
  | destroy =>
      show wp (p.destroy >>= _) _ _ m
      rw [wp_bind]
      apply wp_imp (destroy_uses hsize hin)
      intro _ m' hused
      refine ⟨rfl, ?_, Nat.zero_le _, hused⟩
      rintro _ ⟨⟩
  | write bytes =>
      show wp (p.connection.write bytes >>= _) _ _ m
      rw [wp_bind, wp_write]
      exact ⟨rfl, hself rfl, Nat.le_refl _, used_nothing hsize (write_input.trans hin)⟩

/-- A call that oversteps stops, on any network. -/
theorem PacketCall.perform_oversteps {W : Type} [Network W] {m : Machine W} {e : Fault}
    (h : c.Oversteps p e) : c.perform p buffer m = .error e := by
  cases c with
  | read size =>
      obtain ⟨hlt, rfl⟩ := h
      have hnot : ¬ size ≤ p.bytesRemaining := Nat.not_le_of_lt hlt
      simp only [perform, Packet.read, Prog.check, if_neg hnot]
      rfl
  | dump =>
      obtain ⟨hlt, rfl⟩ := h
      have hnot : ¬ p.bytesRemaining ≤ 1024 := Nat.not_le_of_lt hlt
      simp only [perform, Packet.dump, Prog.check, if_neg hnot]
      rfl
  | move | drain | destroy | write => exact h.elim

end

/-! ### Any calls -/

section

variable {W : Type} [StreamNetwork W] {m : Machine W} {socket : Nat} {body rest : List UInt8}
variable {s : PacketObjects}

/-- A part of what is left is used. -/
theorem Used.part {consumed : List (Option UInt8)} {left k : Nat}
    (h : Used socket body rest consumed left m) (hk : k ≤ left) :
    ∃ mine behind, mine.length = k ∧ input socket m.net = mine ++ behind ∧
      ∀ {consumed' : List (Option UInt8)} {left' : Nat} {m' : Machine W},
        Used socket mine behind consumed' left' m' →
          Used socket body rest (consumed ++ consumed') (left - (k - left')) m' := by
  obtain ⟨taken, remaining, rfl, rfl, htells, hin⟩ := h
  refine ⟨remaining.take k, remaining.drop k ++ rest, List.length_take_of_le hk, ?_, ?_⟩
  · rw [hin, ← List.append_assoc, List.take_append_drop]
  · rintro consumed' left' m' ⟨taken', remaining', hmine, rfl, htells', hin'⟩
    refine ⟨taken ++ taken', remaining' ++ remaining.drop k, ?_, ?_, ?_, ?_⟩
    · rw [List.append_assoc, ← List.append_assoc taken', ← hmine, List.take_append_drop]
    · have hlength := congrArg List.length hmine
      rw [List.length_take_of_le hk, List.length_append] at hlength
      rw [List.length_append, List.length_drop]
      omega
    · exact List.rel_append htells htells'
    · rw [hin', List.append_assoc]

/-- One object owns what is left of the frame, and what was read of it is its body. -/
structure Shares (socket : Nat) (body rest : List UInt8) (s : PacketObjects) (m : Machine W) :
    Prop where
  sockets : ∀ p : Packet, some p ∈ s.objects → p.connection.socket = socket
  owned : ∃ left owner, Owns Packet.bytesRemaining s.objects left owner ∧
    Used socket body rest s.consumed left m

variable [DrainSucceeds W]

namespace PacketObjects

/-- One call. -/
theorem perform_shares (h : Shares socket body rest s m) (i : Nat) (c : PacketCall) :
    wp (s.perform i c) (Shares socket body rest)
      (fun e => ∃ p, s.objects[i]? = some (some p) ∧ c.Oversteps p e) m := by
  unfold perform
  split
  · next p hp =>
    have hsocket := h.sockets p (List.mem_of_getElem? hp)
    obtain ⟨left, owner, howns, hused⟩ := h.owned
    rw [wp_bind]
    by_cases hmove : c = .move
    · -- the new object has what the old one had
      subst hmove
      obtain ⟨owner', howns'⟩ := howns.hand_on (y := some { p with bytesRemaining := 0 })
        (z := some p) hp rfl rfl
      refine ⟨?_, left, owner', howns', ?_⟩
      · intro q hq
        rcases List.mem_append.mp hq with hq | hq
        · rcases List.mem_or_eq_of_mem_set hq with hq | hq
          · exact h.sockets q hq
          · cases hq
            exact hsocket
        · cases List.mem_singleton.mp hq
          exact hsocket
      · rw [show s.consumed ++ [] = s.consumed from List.append_nil _]
        exact hused
    · obtain ⟨mine, behind, hsize, hin, hpart⟩ := hused.part (howns.share_le hp)
      subst hsocket
      apply wp_mono (c.perform_uses hmove hsize hin)
      · rintro r m' ⟨hmade, hconn, hle, hused'⟩
        refine ⟨?_, _, owner, ?_, hpart hused'⟩
        · intro q hq
          rw [hmade, List.append_nil] at hq
          rcases List.mem_or_eq_of_mem_set hq with hq | hq
          · exact h.sockets q hq
          · rw [hconn q hq.symm]
        · rw [hmade, List.append_nil]
          exact howns.use hp hle
      · intro e he
        exact ⟨p, hp, he⟩
  · exact h

/-- A call in the list is on an object that is there, and oversteps. -/
def Stops (s : PacketObjects) (calls : List (Nat × PacketCall)) (m : Machine W) (e : Fault) :
    Prop :=
  ∃ before i c after s₁ m₁ p, calls = before ++ (i, c) :: after ∧
    s.play before m = .ok (s₁, m₁) ∧ s₁.objects[i]? = some (some p) ∧ c.Oversteps p e

/-- A list of calls. -/
theorem play_shares (h : Shares socket body rest s m) (calls : List (Nat × PacketCall)) :
    wp (s.play calls) (Shares socket body rest) (s.Stops calls m) m := by
  induction calls generalizing s m with
  | nil => exact h
  | cons call calls ih =>
      obtain ⟨i, c⟩ := call
      rw [play, wp_bind]
      have hreturns : wp (s.perform i c) _ (fun _ => True) m := wp_returns
      apply wp_mono (wp_and_left hreturns (perform_shares h i c))
      · rintro s₁ m₁ ⟨hok, h₁⟩
        apply wp_mono (ih h₁) (fun _ _ h => h)
        rintro e ⟨before, j, d, after, s₂, m₂, p, rfl, hplay, hp, he⟩
        refine ⟨(i, c) :: before, j, d, after, s₂, m₂, p, rfl, ?_, hp, he⟩
        rw [play, bind_of_ok hok]
        exact hplay
      · rintro e ⟨p, hp, he⟩
        exact ⟨[], i, c, calls, s, m, p, rfl, rfl, hp, he⟩

/-- **When the calls stop.** -/
theorem play_error_iff (h : Shares socket body rest s m) {calls : List (Nat × PacketCall)}
    {e : Fault} : s.play calls m = .error e ↔ s.Stops calls m e := by
  constructor
  · intro hstops
    have hplay := play_shares h calls
    rw [wp, hstops] at hplay
    exact hplay
  · rintro ⟨before, i, c, after, s₁, m₁, p, rfl, hplay, hp, he⟩
    have hperform : s₁.perform i c m₁ = .error e := by
      rw [perform, hp]
      exact bind_of_error (c.perform_oversteps he)
    rw [play_append, bind_of_ok hplay, play]
    exact bind_of_error hperform

end PacketObjects

/-- The objects when `ReadNext` has returned a packet. -/
def PacketObjects.of (p : Packet) : PacketObjects where
  objects := [some p]

end

/-- The packet is read, moved, read and dumped through the new object, and both are
destroyed. -/
def callsOnHi : List (Nat × PacketCall) :=
  [(0, .read 2), (0, .move), (1, .read 1), (0, .dump), (1, .dump), (0, .destroy), (1, .destroy)]

def hiConnection : ClientConnection where
  socket := 1
  id := 7

def hiMachine : Machine Wire where
  net := publishHiWire

end Gnat
