/-
Gnat/Transfer.lean

`arduino::Connection::Write` and `Drain`: transfers of a given number of bytes.

`Write` advances its pointer by what the client took, so what it has sent is
always the bytes between the start of the buffer and the pointer
(`write_takes`).  `Drain` calls `Read` for pieces of at most 64 bytes, all of
them into one static array.  `readRun` is `Read` once more, with what `Drain`
needs to go on and the sizes it asks the client for; `Transfers` is what one
call of either does to the position in the stream, returned or not.
-/
import Gnat.Arduino

namespace Gnat.Arduino

/-! ### Write -/

/-- What `WiFiClient::write` does with the bytes it is given. -/
inductive WriteAnswer
  /-- It takes the first `count` of them, at most all, and returns how many. -/
  | took (count : Nat)
  /-- It takes none and returns `(size_t)-1`. -/
  | refused
  deriving DecidableEq, Repr

/-- How many of `bytes` bytes the client takes. -/
def WriteAnswer.taken (bytes : Nat) : WriteAnswer → Nat
  | .took count => min count bytes
  | .refused => 0

/-- What `WiFiClient::write` returns; `sizeMax` is the largest `size_t`. -/
def WriteAnswer.written (sizeMax bytes : Nat) : WriteAnswer → Nat
  | .took count => min count bytes
  | .refused => sizeMax

/-- A round of the loop of `Write`. -/
structure WriteRound where
  answer : WriteAnswer
  /-- What `connected()` says after the write. -/
  connected : Bool
  deriving DecidableEq, Repr

/-- `Connection::Write`, of `bytes` bytes of the memory at `buffer`: what it returns,
and all bytes the client has taken then, after the ones in `sent`. -/
def write (sizeMax : Nat) (memory : Nat → UInt8) (schedule : List WriteRound)
    (buffer bytes : Nat) (sent : List UInt8) : Option (Bool × List UInt8) :=
  match schedule with
  | [] => if bytes = 0 then some (true, sent) else none
  | round :: schedule =>
    if bytes = 0 then some (true, sent)
    else
      let sent := sent ++ next memory buffer (round.answer.taken bytes)
      let written := round.answer.written sizeMax bytes
      if written = sizeMax ∨ round.connected = false then some (false, sent)
      else write sizeMax memory schedule (buffer + written) (bytes - written) sent

/-- `Connection::WritePartial`. -/
def writePartial (sizeMax : Nat) (memory : Nat → UInt8) (schedule : List WriteRound)
    (buffer bytes : Nat) (sent : List UInt8) : Option (Bool × List UInt8) :=
  write sizeMax memory schedule buffer bytes sent

theorem next_append (stream : Nat → UInt8) (pos m n : Nat) :
    next stream pos m ++ next stream (pos + m) n = next stream pos (m + n) := by
  simp only [next, List.range_add, List.map_append, List.map_map, Nat.add_assoc]
  rfl

theorem next_prefix (stream : Nat → UInt8) (pos : Nat) {m n : Nat} (h : m ≤ n) :
    next stream pos m <+: next stream pos n := by
  obtain ⟨k, rfl⟩ := Nat.exists_eq_add_of_le h
  exact ⟨_, next_append stream pos m k⟩

section

variable {sizeMax : Nat} {memory : Nat → UInt8} {schedule : List WriteRound}
variable {buffer bytes : Nat} {sent sent' : List UInt8} {returned : Bool}

theorem WriteAnswer.taken_le (answer : WriteAnswer) : answer.taken bytes ≤ bytes := by
  cases answer with
  | took count => exact Nat.min_le_right _ _
  | refused => exact Nat.zero_le _

/-- What is not refused is counted. -/
theorem WriteAnswer.written_eq_taken {answer : WriteAnswer}
    (h : answer.written sizeMax bytes ≠ sizeMax) :
    answer.written sizeMax bytes = answer.taken bytes := by
  cases answer with
  | took count => rfl
  | refused => exact absurd rfl h

/-- What has been taken are the bytes in front of the pointer. -/
theorem write_takes
    (h : write sizeMax memory schedule buffer bytes sent = some (returned, sent')) :
    ∃ n, sent' = sent ++ next memory buffer n ∧ n ≤ bytes ∧ (returned = true → n = bytes) := by
  induction schedule generalizing buffer bytes sent with
  | nil =>
      rw [write] at h
      split at h
      · next hzero =>
        cases h
        exact ⟨0, (List.append_nil _).symm, Nat.zero_le _, fun _ => hzero.symm⟩
      · cases h
  | cons round schedule ih =>
      rw [write] at h
      split at h
      · next hzero =>
        cases h
        exact ⟨0, (List.append_nil _).symm, Nat.zero_le _, fun _ => hzero.symm⟩
      simp only at h
      split at h
      · -- the round is the last one, whatever it has taken
        cases h
        exact ⟨_, rfl, round.answer.taken_le, fun hfalse => absurd hfalse Bool.false_ne_true⟩
      · next hgo =>
        have hwritten := WriteAnswer.written_eq_taken fun heq => hgo (.inl heq)
        have hle : round.answer.taken bytes ≤ bytes := round.answer.taken_le
        rw [hwritten] at h
        obtain ⟨n, rfl, hn, hall⟩ := ih h
        refine ⟨round.answer.taken bytes + n, ?_, by omega, fun htrue => ?_⟩
        · rw [List.append_assoc, next_append]
        · have := hall htrue
          omega

/-- **What `Write` has sent when it returns** is the start of its buffer, and all of
it if it returns true. -/
theorem write_sends
    (h : write sizeMax memory schedule buffer bytes sent = some (returned, sent')) :
    ∃ accepted, sent' = sent ++ accepted ∧ accepted <+: next memory buffer bytes ∧
      (returned = true → accepted = next memory buffer bytes) := by
  obtain ⟨n, rfl, hn, hall⟩ := write_takes h
  refine ⟨next memory buffer n, rfl, next_prefix memory buffer hn, fun htrue => ?_⟩
  rw [hall htrue]

end

/-- Three bytes that are taken in two pieces, with a round in between that takes none. -/
theorem write_sends_pieces :
    write 0xFFFFFFFF UInt8.ofNat [⟨.took 1, true⟩, ⟨.took 0, true⟩, ⟨.took 5, true⟩] 7 3 [] =
        some (true, [7, 8, 9]) ∧
      [7, 8, 9] = next UInt8.ofNat 7 3 := by
  have hwrite : write 0xFFFFFFFF UInt8.ofNat
      [⟨.took 1, true⟩, ⟨.took 0, true⟩, ⟨.took 5, true⟩] 7 3 [] =
        some (true, [7, 8, 9]) := rfl
  obtain ⟨accepted, hsent, -, hall⟩ := write_sends hwrite
  exact ⟨hwrite, hsent.trans (hall rfl)⟩

/-! ### Drain -/

/-- How far a call of `Read` or `Drain` gets. -/
structure ReadRun where
  /-- What it returns; it has not returned yet when the schedule ends before that. -/
  returned : Option Bool
  pos : Nat
  buffer : List UInt8
  /-- The sizes the client has been asked for, each to be stored at the start of the
  buffer. -/
  asked : List Nat
  /-- The rounds that are left. -/
  schedule : List Answer
  deriving DecidableEq, Repr

/-- The run, after the client has been asked for these. -/
def ReadRun.after (asked : List Nat) (run : ReadRun) : ReadRun :=
  { run with asked := asked ++ run.asked }

/-- `Connection::Read`, as `read` has it. -/
def readRun (stream : Nat → UInt8) (schedule : List Answer) (pos : Nat) (buffer : List UInt8)
    (bytes : Nat) : ReadRun :=
  match schedule with
  | [] => ⟨if bytes = 0 then some true else none, pos, buffer, [], []⟩
  | answer :: schedule =>
    if bytes = 0 then ⟨some true, pos, buffer, [], answer :: schedule⟩
    else
      match answer with
      | .disconnected => ⟨some false, pos, buffer, [], schedule⟩
      | .arrived more =>
          let count := min (more + 1) bytes
          (readRun stream schedule (pos + count) (stored buffer (next stream pos count))
            (bytes - count)).after [bytes]
      | .failed negative errno =>
          if errno = .enotconn then ⟨some false, pos, buffer, [bytes], schedule⟩
          else if errno = .eagain then (readRun stream schedule pos buffer bytes).after [bytes]
          else if negative then ⟨some false, pos, buffer, [bytes], schedule⟩
          else (readRun stream schedule pos buffer bytes).after [bytes]

/-- `Connection::Drain`; `buffer` is its static array, of 64 bytes. -/
def drain (stream : Nat → UInt8) (schedule : List Answer) (pos : Nat) (buffer : List UInt8)
    (bytes : Nat) : ReadRun :=
  if bytes = 0 then ⟨some true, pos, buffer, [], schedule⟩
  else
    let toDrain := min bytes 64
    let run := readRun stream schedule pos buffer toDrain
    if run.returned = some true then
      (drain stream run.schedule run.pos run.buffer (bytes - toDrain)).after run.asked
    else run
termination_by bytes

section

variable {stream : Nat → UInt8} {schedule : List Answer} {pos bytes : Nat}
variable {buffer : List UInt8} {run : ReadRun} {limit : Nat}

/-- `readRun` is `read`. -/
theorem read_eq_readRun :
    read stream schedule pos buffer bytes =
      (readRun stream schedule pos buffer bytes).returned.map fun returned =>
        (returned, (readRun stream schedule pos buffer bytes).pos,
          (readRun stream schedule pos buffer bytes).buffer) := by
  induction schedule generalizing pos buffer bytes with
  | nil =>
      unfold read readRun
      split <;> rfl
  | cons answer schedule ih =>
      unfold read readRun
      split
      · rfl
      cases answer with
      | disconnected => rfl
      | arrived more => exact ih
      | failed negative errno =>
          simp only
          split
          · rfl
          split
          · exact ih
          split
          · rfl
          · exact ih

/-- What a call for `bytes` bytes from `pos` on does, returned or not: it consumes all
of them if it returns true and fewer if not, and it asks for pieces of at most `limit`
bytes, which stay inside the buffer. -/
structure Transfers (pos bytes limit : Nat) (buffer : List UInt8) (run : ReadRun) : Prop where
  pos_le : pos ≤ run.pos
  all : run.returned = some true → run.pos = pos + bytes
  fewer : run.returned ≠ some true → run.pos < pos + bytes
  asked_le : ∀ size ∈ run.asked, size ≤ limit
  length_buffer : limit ≤ buffer.length → run.buffer.length = buffer.length

/-- Nothing is asked for. -/
theorem Transfers.zero (schedule : List Answer) :
    Transfers pos 0 limit buffer ⟨some true, pos, buffer, [], schedule⟩ where
  pos_le := Nat.le_refl _
  all _ := rfl
  fewer h := absurd rfl h
  asked_le _ hsize := absurd hsize List.not_mem_nil
  length_buffer _ := rfl

/-- The call ends with nothing consumed. -/
theorem Transfers.stop {returned : Option Bool} {asked : List Nat} (hbytes : 0 < bytes)
    (hreturned : returned ≠ some true) (hasked : ∀ size ∈ asked, size ≤ limit)
    (schedule : List Answer) :
    Transfers pos bytes limit buffer ⟨returned, pos, buffer, asked, schedule⟩ where
  pos_le := Nat.le_refl _
  all h := absurd h hreturned
  fewer _ := Nat.lt_add_of_pos_right hbytes
  asked_le := hasked
  length_buffer _ := rfl

/-- The call goes on after some bytes were consumed. -/
theorem Transfers.more {count limit' : Nat} {buffer' : List UInt8} {asked : List Nat}
    (hcount : count ≤ bytes) (hlimit : limit' ≤ limit)
    (hasked : ∀ size ∈ asked, size ≤ limit)
    (hbuffer : limit ≤ buffer.length → buffer'.length = buffer.length)
    (h : Transfers (pos + count) (bytes - count) limit' buffer' run) :
    Transfers pos bytes limit buffer (run.after asked) where
  pos_le := Nat.le_trans (Nat.le_add_right pos count) h.pos_le
  all hreturned := by
    have hall : run.pos = _ := h.all hreturned
    show run.pos = _
    omega
  fewer hreturned := by
    have hfewer : run.pos < _ := h.fewer hreturned
    show run.pos < _
    omega
  asked_le size hsize := by
    rcases List.mem_append.mp hsize with hfirst | hrest
    · exact hasked size hfirst
    · exact Nat.le_trans (h.asked_le size hrest) hlimit
  length_buffer hfits := by
    have hsame := hbuffer hfits
    exact (h.length_buffer (by omega)).trans hsame

theorem length_stored {piece : List UInt8} (h : piece.length ≤ buffer.length) :
    (stored buffer piece).length = buffer.length := by
  rw [stored, List.length_append, List.length_drop]
  omega

/-- Asking for all that is missing. -/
theorem asked_bytes (bytes : Nat) : ∀ size ∈ [bytes], size ≤ bytes := by
  intro size hsize
  rw [List.mem_singleton.mp hsize]

/-- **`Read`**, for any schedule. -/
theorem readRun_transfers (stream : Nat → UInt8) (schedule : List Answer) (pos : Nat)
    (buffer : List UInt8) (bytes : Nat) :
    Transfers pos bytes bytes buffer (readRun stream schedule pos buffer bytes) := by
  induction schedule generalizing pos buffer bytes with
  | nil =>
      rw [readRun]
      split
      · next hzero => exact hzero ▸ .zero []
      · next hpos => exact .stop (Nat.pos_of_ne_zero hpos) (by simp) (by simp) []
  | cons answer schedule ih =>
      unfold readRun
      split
      · next hzero => exact hzero ▸ .zero (answer :: schedule)
      next hpos =>
      have hpos := Nat.pos_of_ne_zero hpos
      cases answer with
      | disconnected => exact .stop hpos (by simp) (by simp) schedule
      | arrived more =>
          have hle : min (more + 1) bytes ≤ bytes := Nat.min_le_right _ _
          refine .more hle (Nat.sub_le _ _) (asked_bytes bytes) (fun hfits => ?_) (ih _ _ _)
          -- the piece is stored inside the buffer
          apply length_stored
          rw [length_next]
          omega
      | failed negative errno =>
          -- a read that failed is given up or repeated
          have hagain : Transfers pos bytes bytes buffer
              ((readRun stream schedule pos buffer bytes).after [bytes]) :=
            .more (Nat.zero_le bytes) (Nat.le_refl bytes) (asked_bytes bytes) (fun _ => rfl)
              (ih pos buffer bytes)
          have hgivesUp : Transfers pos bytes bytes buffer
              ⟨some false, pos, buffer, [bytes], schedule⟩ :=
            .stop hpos (by simp) (asked_bytes bytes) schedule
          simp only
          split
          · exact hgivesUp
          split
          · exact hagain
          split
          · exact hgivesUp
          · exact hagain

/-- **`Drain`**, for any schedule: pieces of at most 64 bytes. -/
theorem drain_transfers (stream : Nat → UInt8) (schedule : List Answer) (pos : Nat)
    (buffer : List UInt8) (bytes : Nat) :
    Transfers pos bytes 64 buffer (drain stream schedule pos buffer bytes) := by
  fun_induction drain stream schedule pos buffer bytes with
  | case1 schedule pos buffer => exact .zero schedule
  | case2 schedule pos buffer bytes hpos toDrain run hreturned ih =>
      have hread : Transfers pos toDrain toDrain buffer run := readRun_transfers ..
      have hrest : Transfers (pos + toDrain) (bytes - toDrain) 64 run.buffer
          (drain stream run.schedule run.pos run.buffer (bytes - toDrain)) := by
        rw [← hread.all hreturned]
        exact ih
      have h64 : toDrain ≤ 64 := Nat.min_le_right _ _
      exact hrest.more (Nat.min_le_left _ _) (Nat.le_refl 64)
        (fun size hsize => Nat.le_trans (hread.asked_le size hsize) h64)
        (fun hfits => hread.length_buffer (Nat.le_trans h64 hfits))
  | case3 schedule pos buffer bytes hpos toDrain run hreturned =>
      -- the piece was not read to its end
      have hread : Transfers pos toDrain toDrain buffer run := readRun_transfers ..
      have h64 : toDrain ≤ 64 := Nat.min_le_right _ _
      have hle : toDrain ≤ bytes := Nat.min_le_left _ _
      have hfewer := hread.fewer hreturned
      exact {
        pos_le := hread.pos_le
        all := fun htrue => absurd htrue hreturned
        fewer := fun _ => by omega
        asked_le := fun size hsize => Nat.le_trans (hread.asked_le size hsize) h64
        length_buffer := fun hfits => hread.length_buffer (Nat.le_trans h64 hfits) }

/-- **`Drain` consumes exactly what it is asked to** if it returns true and less if it
returns false, and no read is asked for more than the static buffer holds. -/
theorem drain_exact (stream : Nat → UInt8) (schedule : List Answer) (pos : Nat)
    (buffer : List.Vector UInt8 64) (bytes : Nat) :
    ((drain stream schedule pos buffer.toList bytes).returned = some true →
      (drain stream schedule pos buffer.toList bytes).pos = pos + bytes) ∧
    ((drain stream schedule pos buffer.toList bytes).returned = some false →
      pos ≤ (drain stream schedule pos buffer.toList bytes).pos ∧
        (drain stream schedule pos buffer.toList bytes).pos < pos + bytes) ∧
    (∀ size ∈ (drain stream schedule pos buffer.toList bytes).asked, size ≤ 64) ∧
    (drain stream schedule pos buffer.toList bytes).buffer.length = 64 := by
  have h := drain_transfers stream schedule pos buffer.toList bytes
  have hlength : buffer.toList.length = 64 := buffer.toList_length
  refine ⟨h.all, fun hfalse => ⟨h.pos_le, h.fewer ?_⟩, h.asked_le, ?_⟩
  · rw [hfalse]
    simp
  · rw [h.length_buffer (Nat.le_of_eq hlength.symm), hlength]

end

/-- Of a hundred bytes the first piece comes in two parts, with a read of no bytes in
between, and then the second one.  When the client fails in the second piece, 64 bytes
have gone. -/
theorem drain_exact_hundred :
    let buffer := List.Vector.replicate 64 (0 : UInt8)
    let whole := drain (fun _ => 7) [.arrived 29, .failed false .other, .arrived 63, .arrived 35]
      5 buffer.toList 100
    let failed := drain (fun _ => 7) [.arrived 99, .failed true .other] 5 buffer.toList 100
    whole.asked = [64, 34, 34, 36] ∧ whole.returned = some true ∧ whole.pos = 105 ∧
      failed.returned = some false ∧ 5 ≤ failed.pos ∧ failed.pos < 105 := by
  intro buffer whole failed
  have hasked : whole.asked = [64, 34, 34, 36] := by decide +kernel
  have hwhole : whole.returned = some true := by decide +kernel
  have hfailed : failed.returned = some false := by decide +kernel
  have hpos := (drain_exact (fun _ => 7) _ 5 buffer 100).1 hwhole
  have hless := (drain_exact (fun _ => 7) _ 5 buffer 100).2.1 hfailed
  exact ⟨hasked, hwhole, hpos, hfailed, hless⟩

end Gnat.Arduino
