/-
Gnat/Arduino.lean

`arduino::Connection::Read`: a request for bytes of a TCP stream that arrive in
pieces.

A schedule lists what each round of the loop gets from the `WiFiClient`; it says
nothing of the bytes, which come from the stream.  `Read` counts the pieces down
but does not advance its buffer, so each piece is stored over the ones before.
`deliversInOrder_iff` says for which schedules the caller still gets what was
sent: those where one piece is all there is to store.

Reads that fail and are tried again change nothing, so the proofs first forget
about them (`read_eq_true_iff`) and then go by induction over the pieces.
-/
import Mathlib

namespace Gnat.Arduino

/-- The values of `errno` that `Read` tells apart. -/
inductive Errno
  | enotconn
  | eagain
  | other
  deriving DecidableEq, Repr

/-- What a round of the loop gets from the client, once it has stopped waiting. -/
inductive Answer
  /-- `connected()` is false. -/
  | disconnected
  /-- There are `more + 1` bytes, and `read` stores those of them that were asked
  for. -/
  | arrived (more : Nat)
  /-- `read` returns a negative number or 0. -/
  | failed (negative : Bool) (errno : Errno)
  deriving DecidableEq, Repr

/-- `n` bytes of a stream. -/
def next (stream : Nat → UInt8) (pos n : Nat) : List UInt8 :=
  (List.range n).map fun i => stream (pos + i)

/-- The buffer after bytes were stored at its start. -/
def stored (buffer piece : List UInt8) : List UInt8 :=
  piece ++ buffer.drop piece.length

/-- `Connection::Read`: what it returns, the position in the stream and the buffer
after it.  It has not returned yet when the schedule ends before that. -/
def read (stream : Nat → UInt8) (schedule : List Answer) (pos : Nat) (buffer : List UInt8)
    (bytes : Nat) : Option (Bool × Nat × List UInt8) :=
  match schedule with
  | [] => if bytes = 0 then some (true, pos, buffer) else none
  | answer :: schedule =>
    if bytes = 0 then some (true, pos, buffer)
    else
      match answer with
      | .disconnected => some (false, pos, buffer)
      | .arrived more =>
          let count := min (more + 1) bytes
          -- the buffer of the next round starts where this one does
          read stream schedule (pos + count) (stored buffer (next stream pos count))
            (bytes - count)
      | .failed negative errno =>
          if errno = .enotconn then some (false, pos, buffer)
          else if errno = .eagain then read stream schedule pos buffer bytes
          else if negative then some (false, pos, buffer)
          else read stream schedule pos buffer bytes

/-- For all streams, positions and buffers: if `Read` returns true, the buffer
starts with the next bytes of the stream, and these are the ones consumed. -/
def DeliversInOrder (schedule : List Answer) (bytes : Nat) : Prop :=
  ∀ (stream : Nat → UInt8) (pos : Nat) (buffer : List UInt8) (pos' : Nat)
    (buffer' : List UInt8), bytes ≤ buffer.length →
    read stream schedule pos buffer bytes = some (true, pos', buffer') →
      buffer'.take bytes = next stream pos bytes ∧ pos' = pos + bytes

/-! ### The pieces -/

/-- `Read` gives up after a read that failed like this. -/
def GivesUp (negative : Bool) (errno : Errno) : Prop :=
  errno = .enotconn ∨ errno ≠ .eagain ∧ negative = true

instance (negative : Bool) (errno : Errno) : Decidable (GivesUp negative errno) := by
  unfold GivesUp; infer_instance

/-- The sizes of the pieces that arrive before `Read` gives up. -/
def offered : List Answer → List Nat
  | [] => []
  | .disconnected :: _ => []
  | .arrived more :: schedule => (more + 1) :: offered schedule
  | .failed negative errno :: schedule =>
      if GivesUp negative errno then [] else offered schedule

theorem offered_pos {schedule : List Answer} {size : Nat} (h : size ∈ offered schedule) :
    0 < size := by
  induction schedule with
  | nil => cases h
  | cons answer schedule ih =>
      cases answer with
      | disconnected => cases h
      | arrived more =>
          rcases List.mem_cons.mp h with rfl | h
          · exact Nat.succ_pos more
          · exact ih h
      | failed negative errno =>
          rw [offered] at h
          split at h
          · cases h
          · exact ih h

/-- The position and the buffer after the pieces, if they are enough. -/
def readPieces (stream : Nat → UInt8) (sizes : List Nat) (pos : Nat) (buffer : List UInt8)
    (bytes : Nat) : Option (Nat × List UInt8) :=
  match sizes with
  | [] => if bytes = 0 then some (pos, buffer) else none
  | size :: sizes =>
    if bytes = 0 then some (pos, buffer)
    else
      let count := min size bytes
      readPieces stream sizes (pos + count) (stored buffer (next stream pos count))
        (bytes - count)

section

variable {stream : Nat → UInt8} {pos pos' bytes : Nat} {buffer buffer' : List UInt8}

theorem read_zero (schedule : List Answer) :
    read stream schedule pos buffer 0 = some (true, pos, buffer) := by
  cases schedule <;> rfl

theorem read_failed (schedule : List Answer) (negative : Bool) (errno : Errno)
    (h : 0 < bytes) :
    read stream (.failed negative errno :: schedule) pos buffer bytes =
      if GivesUp negative errno then some (false, pos, buffer)
      else read stream schedule pos buffer bytes := by
  rw [read, if_neg (Nat.ne_of_gt h)]
  cases errno <;> cases negative <;> rfl

/-- **`Read` returns true exactly if the pieces are enough.** -/
theorem read_eq_true_iff (schedule : List Answer) :
    read stream schedule pos buffer bytes = some (true, pos', buffer') ↔
      readPieces stream (offered schedule) pos buffer bytes = some (pos', buffer') := by
  induction schedule generalizing pos buffer bytes with
  | nil =>
      rw [read, offered, readPieces]
      split <;> simp
  | cons answer schedule ih =>
      rcases Nat.eq_zero_or_pos bytes with rfl | hpos
      · -- nothing is asked for
        have hpieces : readPieces stream (offered (answer :: schedule)) pos buffer 0 =
            some (pos, buffer) := by
          cases offered (answer :: schedule) <;> rfl
        rw [hpieces, read_zero]
        simp
      cases answer with
      | disconnected => simp [read, offered, readPieces, Nat.ne_of_gt hpos]
      | arrived more =>
          rw [read, offered, readPieces, if_neg (Nat.ne_of_gt hpos),
            if_neg (Nat.ne_of_gt hpos)]
          exact ih
      | failed negative errno =>
          rw [read_failed schedule negative errno hpos, offered]
          split
          · simp [readPieces, Nat.ne_of_gt hpos]
          · exact ih

theorem readPieces_first {size : Nat} (sizes : List Nat) (hpos : 0 < bytes)
    (h : bytes ≤ size) : readPieces stream (size :: sizes) pos buffer bytes =
      some (pos + bytes, stored buffer (next stream pos bytes)) := by
  rw [readPieces, if_neg (Nat.ne_of_gt hpos)]
  simp only [Nat.min_eq_right h, Nat.sub_self]
  cases sizes <;> rfl

theorem readPieces_more {size : Nat} (sizes : List Nat) (h : size < bytes) :
    readPieces stream (size :: sizes) pos buffer bytes =
      readPieces stream sizes (pos + size) (stored buffer (next stream pos size))
        (bytes - size) := by
  rw [readPieces, if_neg (by omega)]
  simp only [Nat.min_eq_left (Nat.le_of_lt h)]

/-- What is consumed is what was asked for. -/
theorem readPieces_consumes {sizes : List Nat}
    (h : readPieces stream sizes pos buffer bytes = some (pos', buffer')) :
    pos' = pos + bytes ∧ bytes ≤ sizes.sum := by
  induction sizes generalizing pos buffer bytes with
  | nil =>
      rw [readPieces] at h
      split at h
      · next hzero =>
        obtain ⟨rfl, -⟩ := Prod.mk.inj (Option.some.inj h)
        exact ⟨by omega, by omega⟩
      · cases h
  | cons size sizes ih =>
      rw [List.sum_cons]
      rcases Nat.eq_zero_or_pos bytes with rfl | hpos
      · obtain ⟨rfl, -⟩ := Prod.mk.inj (Option.some.inj h)
        exact ⟨rfl, Nat.zero_le _⟩
      rcases Nat.lt_or_ge size bytes with hlt | hge
      -- a short piece: the rest is asked for again
      · rw [readPieces_more sizes hlt] at h
        have := ih h
        omega
      · rw [readPieces_first sizes hpos hge] at h
        obtain ⟨rfl, -⟩ := Prod.mk.inj (Option.some.inj h)
        exact ⟨rfl, by omega⟩

theorem exists_readPieces (stream : Nat → UInt8) (pos : Nat) (buffer : List UInt8)
    {sizes : List Nat} (h : bytes ≤ sizes.sum) :
    ∃ pos' buffer', readPieces stream sizes pos buffer bytes = some (pos', buffer') := by
  induction sizes generalizing pos buffer bytes with
  | nil => exact ⟨pos, buffer, if_pos (Nat.le_zero.mp h)⟩
  | cons size sizes ih =>
      rcases Nat.eq_zero_or_pos bytes with rfl | hpos
      · exact ⟨pos, buffer, rfl⟩
      rcases Nat.lt_or_ge size bytes with hlt | hge
      · rw [readPieces_more sizes hlt]
        rw [List.sum_cons] at h
        exact ih _ _ (by omega)
      · exact ⟨_, _, readPieces_first sizes hpos hge⟩

theorem head?_stored_next (stream : Nat → UInt8) (pos : Nat) (buffer : List UInt8)
    (h : 0 < bytes) :
    (stored buffer (next stream pos bytes)).head? = some (stream pos) := by
  obtain ⟨n, rfl⟩ := Nat.exists_eq_add_of_le' h
  rw [stored, next, List.range_succ_eq_map]
  rfl

/-- The buffer starts with a byte of the last piece. -/
theorem readPieces_head {sizes : List Nat} (hpos : 0 < bytes)
    (h : readPieces stream sizes pos buffer bytes = some (pos', buffer')) :
    ∃ j, pos ≤ j ∧ buffer'.head? = some (stream j) := by
  induction sizes generalizing pos buffer bytes with
  | nil =>
      rw [readPieces, if_neg (Nat.ne_of_gt hpos)] at h
      cases h
  | cons size sizes ih =>
      rcases Nat.lt_or_ge size bytes with hlt | hge
      · rw [readPieces_more sizes hlt] at h
        obtain ⟨j, hj, hhead⟩ := ih (by omega) h
        exact ⟨j, Nat.le_of_add_right_le hj, hhead⟩
      · rw [readPieces_first sizes hpos hge] at h
        obtain ⟨-, rfl⟩ := Prod.mk.inj (Option.some.inj h)
        exact ⟨pos, Nat.le_refl _, head?_stored_next stream pos buffer hpos⟩

end

/-! ### When the order is kept -/

theorem length_next (stream : Nat → UInt8) (pos n : Nat) : (next stream pos n).length = n := by
  rw [next, List.length_map, List.length_range]

/-- A second piece covers the start of the first one. -/
theorem not_deliversInOrder {schedule : List Answer} {size bytes : Nat} {sizes : List Nat}
    (hoffered : offered schedule = size :: sizes) (hmore : size < bytes)
    (henough : bytes ≤ size + sizes.sum) : ¬ DeliversInOrder schedule bytes := by
  intro h
  -- a stream whose first byte does not occur again
  let stream : Nat → UInt8 := fun i => if i = 0 then 1 else 0
  have hsize : 0 < size := offered_pos (hoffered ▸ List.mem_cons_self)
  obtain ⟨pos', buffer', hread⟩ := exists_readPieces stream 0 (List.replicate bytes 0)
    (show bytes ≤ (size :: sizes).sum from henough)
  have horder := (h stream 0 _ pos' buffer' (List.length_replicate ▸ Nat.le_refl _)
    ((read_eq_true_iff schedule).mpr (hoffered ▸ hread))).1
  rw [readPieces_more sizes hmore] at hread
  obtain ⟨j, hj, hhead⟩ := readPieces_head (by omega) hread
  have hfirst := congrArg List.head? horder
  rw [List.head?_take, if_neg (by omega), hhead,
    ← List.append_nil (next stream 0 bytes)] at hfirst
  have hzero : stream j = 0 := if_neg (by omega)
  have hone := head?_stored_next stream 0 [] (show 0 < bytes by omega)
  rw [stored, List.drop_nil] at hone
  rw [hone, hzero] at hfirst
  exact absurd (Option.some.inj hfirst) (by decide)

/-- **When `Read` delivers the stream in order**, for all streams and buffers: if
nothing is asked for, if `Read` gives up before it has got all it was asked for,
or if the first piece is all of it. -/
theorem deliversInOrder_iff (schedule : List Answer) (bytes : Nat) :
    DeliversInOrder schedule bytes ↔
      bytes = 0 ∨ (offered schedule).sum < bytes ∨ bytes ≤ (offered schedule).headD 0 := by
  constructor
  · intro h
    by_contra hnot
    rw [not_or, not_or, Nat.not_lt, Nat.not_le] at hnot
    obtain ⟨hpos, henough, hmore⟩ := hnot
    -- a first piece that is too small is followed by one that is stored over it
    rcases hoffered : offered schedule with - | ⟨size, sizes⟩
    · rw [hoffered] at henough
      exact hpos (Nat.le_zero.mp henough)
    · rw [hoffered] at henough hmore
      exact not_deliversInOrder hoffered hmore henough h
  · intro h stream pos buffer pos' buffer' _ hread
    have hpieces := (read_eq_true_iff schedule).mp hread
    obtain ⟨rfl, henough⟩ := readPieces_consumes hpieces
    -- what is consumed is right in any case, and what is stored if there is one piece
    refine ⟨?_, rfl⟩
    rcases Nat.eq_zero_or_pos bytes with rfl | hpos
    · rfl
    rcases h with rfl | hless | hfirst
    · exact absurd hpos (Nat.lt_irrefl 0)
    · exact absurd henough (Nat.not_le.mpr hless)
    rcases hoffered : offered schedule with - | ⟨size, sizes⟩
    · rw [hoffered] at hfirst
      exact absurd hfirst (Nat.not_le.mpr hpos)
    · rw [hoffered] at hfirst hpieces
      have hfirst : bytes ≤ size := hfirst
      rw [readPieces_first sizes hpos hfirst] at hpieces
      obtain ⟨-, rfl⟩ := Prod.mk.inj (Option.some.inj hpieces)
      exact List.take_left' (length_next stream pos bytes)

/-- Two bytes that arrive one after the other: the second one is stored over the
first. -/
theorem two_pieces_overlap :
    ¬ DeliversInOrder [.arrived 0, .arrived 0] 2 ∧
      read (fun i => UInt8.ofNat (i + 1)) [.arrived 0, .arrived 0] 0 [0, 0] 2 =
        some (true, 2, [2, 0]) := by
  have hoffered : offered [.arrived 0, .arrived 0] = 1 :: [1] := rfl
  exact ⟨not_deliversInOrder hoffered (by decide) (by decide), rfl⟩

end Gnat.Arduino
