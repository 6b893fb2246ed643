/-
Gnat/Alignment.lean

When the stream of a subscriber stays aligned with its frames.

A PUBLISH goes out in two writes, and each can fail.  `Attempt` is one call of
`Publish::SendOn` with how far it came; whatever the network does, what an
observer writes on its heap copy is a sequence of attempts (`run_sending`).
`SendOn` returns whether it succeeded, and so does the handler, but neither
`NotifyObservers` nor `AddObserver` looks at it: after a header without its
payload the next header goes out all the same.  The frames therefore stay whole
only if the connection itself takes nothing more (`frameAligned_iff_staysBroken`).
-/
import Gnat.Bounds
import Gnat.Delivery

namespace Gnat

open Lib Prog

/-! ### Attempts -/

/-- How far an attempt to send a PUBLISH came: the header was refused, the payload
was refused, or both were accepted. -/
inductive Progress
  | refused
  | half
  | sent
  deriving DecidableEq, Repr

/-- A call of `Publish::SendOn`. -/
structure Attempt where
  conn : ClientConnection
  publish : Publish
  payload : List UInt8
  progress : Progress
  topic_le : publish.topic.length ≤ 128
  payload_length : payload.length = publish.payloadBytes

namespace Attempt

def header (a : Attempt) : List UInt8 := a.publish.sentHeader

/-- The complete frame. -/
def frame (a : Attempt) : List UInt8 := a.header ++ a.payload

theorem frame_eq (a : Attempt)
    (hsize : 2 + a.publish.topic.length + a.publish.payloadBytes < 2 ^ 31) :
    a.frame = publishFrame a.publish.topic.bytes a.payload := by
  rw [frame, header, Publish.sentHeader_eq a.topic_le hsize, ← a.payload_length,
    publishHeader_append]

/-- The calls of `WritePartial` and `Write`. -/
def writes (a : Attempt) : List Write :=
  match a.progress with
  | .refused => [⟨a.conn, a.header, false⟩]
  | .half => [⟨a.conn, a.header, true⟩, ⟨a.conn, a.payload, false⟩]
  | .sent => [⟨a.conn, a.header, true⟩, ⟨a.conn, a.payload, true⟩]

theorem via_of_mem {a : Attempt} {w : Write} (h : w ∈ a.writes) : w.via = a.conn := by
  unfold writes at h
  split at h <;> simp only [List.mem_cons, List.not_mem_nil, or_false] at h
  · rw [h]
  · rcases h with rfl | rfl <;> rfl
  · rcases h with rfl | rfl <;> rfl

end Attempt

/-- The bytes a connection takes: a call that fails writes nothing. -/
def acceptedBytes (ws : List Write) : List UInt8 :=
  (ws.filter Write.accepted).flatMap Write.bytes

/-- The writes are those of the attempts, and the attempts keep the stream aligned:
what was sent is complete frames and then at most one header without its payload,
and after such a header nothing is sent. -/
structure AlignedBy (attempts : List Attempt) (ws : List Write) : Prop where
  writes : ws = attempts.flatMap Attempt.writes
  bytes : acceptedBytes ws =
    (attempts.filter fun a => a.progress = .sent).flatMap Attempt.frame ++
      (attempts.filter fun a => a.progress = .half).flatMap Attempt.header
  incomplete : (attempts.filter fun a => a.progress = .half).length ≤ 1
  stops : attempts.Pairwise fun a b => a.progress = .half → b.progress = .refused

/-- A sequence of complete PUBLISH frames, followed by at most one incomplete frame.  Each
of them is the header `SendOn` makes and the payload: below `2 ^ 31` bytes that is a PUBLISH
frame (`Attempt.frame_eq`), and from there on the length in the header is another one. -/
def FrameAligned (ws : List Write) : Prop :=
  ∃ attempts, AlignedBy attempts ws

/-- What a connection answers to attempts to send: once it took a header and then
refused the payload, it refuses everything. -/
def StaysBroken : List Bool → Prop
  | [] => True
  | false :: answers => StaysBroken answers
  | [true] => True
  | true :: true :: answers => StaysBroken answers
  | true :: false :: answers => ∀ answer ∈ answers, answer = false

/-! ### Answers -/

theorem acceptedBytes_append (ws ws' : List Write) :
    acceptedBytes (ws ++ ws') = acceptedBytes ws ++ acceptedBytes ws' := by
  rw [acceptedBytes, List.filter_append, List.flatMap_append]
  rfl

/-- Everything is refused. -/
def AllRefused (attempts : List Attempt) : Prop :=
  ∀ a ∈ attempts, a.progress = .refused

theorem AllRefused.filter {attempts : List Attempt} (h : AllRefused attempts) {progress : Progress}
    (hne : progress ≠ .refused) : attempts.filter (fun a => a.progress = progress) = [] := by
  refine List.filter_eq_nil_iff.mpr fun a ha hprogress => hne ?_
  rw [← of_decide_eq_true hprogress]
  exact h a ha

theorem allRefused_iff (attempts : List Attempt) :
    AllRefused attempts ↔
      ∀ answer ∈ (attempts.flatMap Attempt.writes).map Write.accepted, answer = false := by
  constructor
  · intro h answer hanswer
    obtain ⟨w, hw, rfl⟩ := List.mem_map.mp hanswer
    obtain ⟨a, ha, hw⟩ := List.mem_flatMap.mp hw
    rw [Attempt.writes, h a ha] at hw
    rw [List.mem_singleton.mp hw]
  · intro h a ha
    -- a header that was accepted is one of the answers
    by_contra hne
    have hheader : ⟨a.conn, a.header, true⟩ ∈ a.writes := by
      unfold Attempt.writes
      split
      · next hrefused => exact absurd hrefused hne
      · exact List.mem_cons_self
      · exact List.mem_cons_self
    have hanswer := List.mem_map_of_mem (f := Write.accepted)
      (List.mem_flatMap_of_mem ha hheader)
    cases h _ hanswer

theorem AllRefused.acceptedBytes {attempts : List Attempt} (h : AllRefused attempts) :
    acceptedBytes (attempts.flatMap Attempt.writes) = [] := by
  have hnone : (attempts.flatMap Attempt.writes).filter Write.accepted = [] := by
    refine List.filter_eq_nil_iff.mpr fun w hw haccepted => ?_
    cases haccepted.symm.trans ((allRefused_iff attempts).mp h _ (List.mem_map_of_mem hw))
  rw [Gnat.acceptedBytes, hnone]
  rfl

/-- The answers say whether attempts go on after one that came half way. -/
theorem staysBroken_iff (attempts : List Attempt) :
    StaysBroken ((attempts.flatMap Attempt.writes).map Write.accepted) ↔
      attempts.Pairwise fun a b => a.progress = .half → b.progress = .refused := by
  induction attempts with
  | nil => exact iff_of_true trivial .nil
  | cons a attempts ih =>
      rw [List.flatMap_cons, List.map_append, List.pairwise_cons]
      rcases hprogress : a.progress with - | - | -
      · rw [Attempt.writes, hprogress]
        exact ih.trans ⟨fun h => ⟨by rintro _ _ ⟨⟩, h⟩, And.right⟩
      · rw [Attempt.writes, hprogress]
        refine (allRefused_iff attempts).symm.trans ?_
        refine ⟨fun h => ⟨fun b hb _ => h b hb, ?_⟩, fun h b hb => h.1 b hb rfl⟩
        exact List.pairwise_of_forall_mem_list fun _ _ c hc _ => h c hc
      · rw [Attempt.writes, hprogress]
        exact ih.trans ⟨fun h => ⟨by rintro _ _ ⟨⟩, h⟩, And.right⟩

/-- Attempts that stop after one that came half way are aligned. -/
theorem alignedBy_of_stops {attempts : List Attempt}
    (h : attempts.Pairwise fun a b => a.progress = .half → b.progress = .refused) :
    AlignedBy attempts (attempts.flatMap Attempt.writes) := by
  refine ⟨rfl, ?_, ?_, h⟩
  · induction attempts with
    | nil => rfl
    | cons a attempts ih =>
        obtain ⟨ha, hrest⟩ := List.pairwise_cons.mp h
        rw [List.flatMap_cons, acceptedBytes_append, List.filter_cons, List.filter_cons]
        rcases hprogress : a.progress with - | - | -
        · rw [Attempt.writes, hprogress]
          exact ih hrest
        -- the header was taken, and nothing after it
        · have hrefused : AllRefused attempts := fun b hb => ha b hb hprogress
          rw [hrefused.acceptedBytes, hrefused.filter (by decide), hrefused.filter (by decide),
            Attempt.writes, hprogress]
          simp [acceptedBytes]
        · rw [Attempt.writes, hprogress, ih hrest]
          simp [acceptedBytes, Attempt.frame]
  · induction attempts with
    | nil => exact Nat.zero_le 1
    | cons a attempts ih =>
        obtain ⟨ha, hrest⟩ := List.pairwise_cons.mp h
        rw [List.filter_cons]
        split
        -- this is the one that came half way: the others were refused
        · next hhalf =>
          have hrefused : AllRefused attempts := fun b hb => ha b hb (of_decide_eq_true hhalf)
          rw [hrefused.filter (by decide)]
          exact Nat.le_refl 1
        · exact ih hrest

theorem FrameAligned.staysBroken {ws : List Write} (h : FrameAligned ws) :
    StaysBroken (ws.map Write.accepted) := by
  obtain ⟨attempts, h⟩ := h
  rw [h.writes]
  exact (staysBroken_iff attempts).mpr h.stops

theorem frameAligned_iff (attempts : List Attempt) :
    FrameAligned (attempts.flatMap Attempt.writes) ↔
      StaysBroken ((attempts.flatMap Attempt.writes).map Write.accepted) := by
  constructor
  · exact FrameAligned.staysBroken
  · intro h
    exact ⟨attempts, alignedBy_of_stops ((staysBroken_iff attempts).mp h)⟩

/-! ### The record of a machine -/

/-- The writes on the heap copy with the given number. -/
def Machine.copyWrites {W : Type} (k : Nat) (m : Machine W) : List Write :=
  m.written.filter (Write.onCopy k)

/-- What was written on a heap copy since `m` is a sequence of attempts. -/
def Sending {W : Type} (k : Nat) (m m' : Machine W) : Prop :=
  ∃ attempts : List Attempt,
    m'.copyWrites k = m.copyWrites k ++ attempts.flatMap Attempt.writes

section

variable {W : Type} {m m₁ m' : Machine W} {k : Nat}

theorem Sending.of_written_eq (h : m'.written = m.written) : Sending k m m' :=
  ⟨[], by rw [Machine.copyWrites, h, List.flatMap_nil, List.append_nil]; rfl⟩

theorem Sending.refl (m : Machine W) : Sending k m m :=
  .of_written_eq rfl

theorem Sending.trans (h : Sending k m m₁) (h' : Sending k m₁ m') : Sending k m m' := by
  obtain ⟨attempts, h⟩ := h
  obtain ⟨attempts', h'⟩ := h'
  exact ⟨attempts ++ attempts', by rw [h', h, List.flatMap_append, List.append_assoc]⟩

/-- A write that is not made on a heap copy. -/
theorem Sending.of_write {w : Write} (h : m'.written = m.written ++ [w])
    (hw : w.via.copy = none) : Sending k m m' := by
  have hother : Write.onCopy k w = false := by
    rw [Write.onCopy, hw]
    rfl
  refine ⟨[], ?_⟩
  rw [Machine.copyWrites, h, List.filter_append, List.filter_singleton, hother]
  rfl

theorem Sending.of_attempt (a : Attempt) (h : m'.written = m.written ++ a.writes) :
    Sending k m m' := by
  have hgrown : m'.copyWrites k = m.copyWrites k ++ a.writes.filter (Write.onCopy k) := by
    rw [Machine.copyWrites, h, List.filter_append]
    rfl
  have hvia : ∀ w ∈ a.writes, Write.onCopy k w = decide (a.conn.copy = some k) := by
    intro w hw
    rw [Write.onCopy, Attempt.via_of_mem hw]
  by_cases hcopy : a.conn.copy = some k
  · have hall : a.writes.filter (Write.onCopy k) = a.writes :=
      List.filter_eq_self.mpr fun w hw => (hvia w hw).trans (decide_eq_true hcopy)
    exact ⟨[a], by rw [hgrown, hall, List.flatMap_singleton]⟩
  · have hnone : a.writes.filter (Write.onCopy k) = [] := by
      refine List.filter_eq_nil_iff.mpr fun w hw haccepted => hcopy ?_
      exact of_decide_eq_true ((hvia w hw).symm.trans haccepted)
    exact ⟨[], by rw [hgrown, hnone, List.flatMap_nil]⟩

end

/-! ### What a server sends -/

section

variable {W : Type} [Network W] {K : Type} [KeyType K] {m m' : Machine W} {k : Nat}

theorem Publish.sendOn_sending {publish : Publish} {payload : List UInt8}
    (htopic : publish.topic.length ≤ 128) (hpayload : payload.length = publish.payloadBytes)
    (conn : ClientConnection) :
    wp (publish.sendOn conn payload) (fun _ m' => Sending k m m') (fun _ => True) m := by
  let attempt (progress : Progress) : Attempt :=
    ⟨conn, publish, payload, progress, htopic, hpayload⟩
  rw [sendOn_eq htopic hpayload, wp_bind, wp_writePartial]
  -- the three ways `SendOn` can go
  rcases hheader : (Network.writePartial conn.socket publish.sentHeader m.net).1 with - | -
  · exact .of_attempt (attempt .refused) rfl
  · rw [if_pos rfl, wp_write]
    rcases hrest : (Network.write conn.socket payload
        (Network.writePartial conn.socket publish.sentHeader m.net).2).1 with - | -
    · exact .of_attempt (attempt .half) (List.append_assoc ..)
    · exact .of_attempt (attempt .sent) (List.append_assoc ..)

theorem observer_sending {key : K} (hkey : Decodes key) (matcher : K → Bool)
    (conn : ClientConnection) (entry : DataStoreEntry) :
    wp (observer matcher conn key entry) (fun _ m' => Sending k m m') (fun _ => True) m := by
  obtain ⟨topic, hdecode, hlength⟩ := hkey
  rw [observer, wp_ite]
  split
  · rw [wp_bind, wp_ofExcept, hdecode]
    simp only [wp_bind]
    refine wp_imp (Publish.sendOn_sending (k := k) hlength entry.data_length conn) ?_
    rintro (- | -) m' h <;> exact h
  · exact .refl m

theorem notifyAll_sending (subs : List (Subscription K)) {key : K} (hkey : Decodes key)
    (entry : DataStoreEntry) :
    wp (DataStore.notifyAll (subs.map Subscription.entry) key entry)
      (fun _ m' => Sending k m m') (fun _ => True) m := by
  refine wp_notifyAll (I := fun m' => Sending k m m') (.refl m) fun s _ m₁ h₁ => ?_
  exact wp_imp (observer_sending hkey s.matcher s.conn entry) fun _ m₂ h₂ => h₁.trans h₂

theorem replay_sending (s : Subscription K)
    {entries : List (Sigma fun _ : K => DataStoreEntry)} (hkeys : ∀ e ∈ entries, Decodes e.1) :
    wp (DataStore.replay s.entry.handler entries)
      (fun _ m' => Sending k m m') (fun _ => True) m := by
  refine wp_replay (I := fun m' => Sending k m m') (.refl m) fun e he m₁ h₁ => ?_
  exact wp_imp (observer_sending (hkeys e he) s.matcher s.conn e.2) fun _ m₂ h₂ => h₁.trans h₂

variable [DecidableEq K]

variable [LawfulKeyType K] {target : Target} {s s' : ServerState K W} {l : Label}
variable {ls : List Label}

/-- Whatever a call of `HandleMessage` does, it sends in attempts. -/
theorem Handled.sending {env : Env K} {store store' : Store K W} {p p' : Packet}
    {status : Status} (hserved : Served store) (hkeys : KeysDecode store)
    (howned : p.connection.copy = none) (h : Handled env store p m status p' store' m') :
    Sending k m m' := by
  cases h with
  | failed hr => exact .of_written_eq hr.sameOutput.written
  | @replied p₁ m₁ _ type bytes accepted _ hr hw =>
      -- replies go out on the application's object, not on a heap copy
      have hcopy : (setConnectionType p₁ type).connection.copy = none := by
        rw [← howned, ← hr.sameOutput.connection]
        cases type <;> rfl
      exact (Sending.of_written_eq hr.sameOutput.written).trans (.of_write (write_written hw) hcopy)
  | closed _ hclose =>
      cases hclose
      exact .of_written_eq rfl
  | published _ _ hlength hkey hr hset =>
      -- the key is that of a topic that was read, so each observer decodes it
      obtain ⟨subs, hs⟩ := hserved
      have hnotify := (set_ok hset).2
      rw [hs] at hnotify
      have hsent := (notifyAll_sending (k := k) subs (decodes_of_read hlength hkey) _).ok hnotify
      exact (Sending.of_written_eq hr.sameOutput.written).trans hsent
  | @subscribed _ m₁ m₂ _ _ _ _ _ _ _ hr hw _ _ hadd =>
      have hcopy : p'.connection.copy = none := by rw [hr.sameOutput.connection, howned]
      have hack : Sending k m₁ m₂ := .of_write (write_written hw) hcopy
      have hsent := (replay_sending (k := k) (subscriptionTo p.connection _ _ _)
        (hkeys.of_visit env.order)).ok (addObserver_ok hadd).2
      exact (Sending.of_written_eq hr.sameOutput.written).trans (hack.trans hsent)

theorem Step.sending (h : Step target s l s') (hserved : Served s.store)
    (hkeys : KeysDecode s.store) : Sending k s.machine s'.machine := by
  cases h with
  | handle _ howned hok => exact (handled_of_ok hok).sending hserved hkeys howned
  | remove => exact .refl _
  | network => exact .of_written_eq rfl

/-- What a server sends over a run, it sends in attempts. -/
theorem run_sending (h : Run (Step target) s ls s') (hserved : Served s.store)
    (hkeys : KeysDecode s.store) : Sending k s.machine s'.machine := by
  induction h with
  | nil => exact .refl _
  | cons hstep _ ih =>
      exact (hstep.sending hserved hkeys).trans
        (ih (hstep.served hserved) (hstep.keysDecode hkeys))

/-- **Frame alignment.**  In every run, whatever the network does, the stream of a
subscriber stays aligned if and only if its connection takes nothing more once it
took a header and refused the payload. -/
theorem frameAligned_iff_staysBroken {net : W}
    (h : Run (Step target) (.initial K net) ls s) (k : Nat) :
    FrameAligned (s.machine.copyWrites k) ↔
      StaysBroken ((s.machine.copyWrites k).map Write.accepted) := by
  obtain ⟨attempts, hwrites⟩ := run_sending (k := k) h (served_initial net) (keysDecode_initial net)
  have hempty : (ServerState.initial K net).machine.copyWrites k = [] := rfl
  rw [hwrites, hempty, List.nil_append]
  exact frameAligned_iff attempts

end

/-! ### Answers that are not all alike -/

/-- The conversation of the two clients, and another PUBLISH; writes succeed as the
given sequence says. -/
def faltering (writeOk : Nat → Bool) : Net where
  sockets
    | 1 => { input := [0, 1, 0, 1, 0x61, 0] }
    | 2 => { input := [0, 1, 0x61, 0x68, 0x69, 0, 1, 0x61, 0x68, 0x69] }
    | _ => {}
  writeOk := writeOk

/-- Handle a packet in an environment. -/
def handleIn (env : Env StdString) (p : Packet) (owned : p.connection.copy = none) :
    Action env.target StdString Net :=
  .handle env p rfl owned

/-- The client 7 subscribes to `a`, and the client 8 publishes to it twice. -/
def publishTwice (writeOk : Nat → Bool) :
    Except Fault (List Label × ServerState StdString Net) :=
  let env : Env StdString := ⟨{}, 0, .asKept StdString⟩
  play (.initial StdString (faltering writeOk))
    [handleIn env subscribeA rfl, handleIn env publishHi rfl, handleIn env publishHi rfl]

/-- The labels of a run, and the answers of the first heap copy with what it took. -/
def copyView (r : List Label × ServerState StdString Net) :
    List Label × List Bool × List UInt8 :=
  (r.1, (r.2.machine.copyWrites 0).map Write.accepted, acceptedBytes (r.2.machine.copyWrites 0))

/-- After the SUBACK and a header, the connection takes nothing more. -/
theorem frameAligned_iff_staysBroken_lost :
    ∃ s : ServerState StdString Net,
      Run (Step {}) (.initial StdString (faltering (· < 2)))
        [.handled subscribeA .ok, .handled publishHi .ok, .handled publishHi .ok] s ∧
      acceptedBytes (s.machine.copyWrites 0) = [0x30, 5, 0, 1, 0x61] ∧
      FrameAligned (s.machine.copyWrites 0) := by
  obtain ⟨ls, s, h, hview⟩ := exists_ok_of_map (t := publishTwice (· < 2)) (g := copyView)
    (c := ([.handled subscribeA .ok, .handled publishHi .ok, .handled publishHi .ok],
      [true, false, false], [0x30, 5, 0, 1, 0x61])) (by decide +kernel)
  simp only [copyView, Prod.mk.injEq] at hview
  obtain ⟨rfl, hanswers, hbytes⟩ := hview
  refine ⟨s, play_run h, hbytes, (frameAligned_iff_staysBroken (play_run h) 0).mpr ?_⟩
  rw [hanswers]
  exact fun answer hanswer => List.mem_singleton.mp hanswer

/-- One payload is refused, and the next header is written behind its header. -/
theorem header_follows_header :
    ∃ s : ServerState StdString Net,
      Run (Step {}) (.initial StdString (faltering (· ≠ 2)))
        [.handled subscribeA .ok, .handled publishHi .ok, .handled publishHi .ok] s ∧
      acceptedBytes (s.machine.copyWrites 0) =
        [0x30, 5, 0, 1, 0x61, 0x30, 5, 0, 1, 0x61, 0x68, 0x69] ∧
      ¬ FrameAligned (s.machine.copyWrites 0) := by
  obtain ⟨ls, s, h, hview⟩ := exists_ok_of_map (t := publishTwice (· ≠ 2)) (g := copyView)
    (c := ([.handled subscribeA .ok, .handled publishHi .ok, .handled publishHi .ok],
      [true, false, true, true], [0x30, 5, 0, 1, 0x61, 0x30, 5, 0, 1, 0x61, 0x68, 0x69]))
    (by decide +kernel)
  simp only [copyView, Prod.mk.injEq] at hview
  obtain ⟨rfl, hanswers, hbytes⟩ := hview
  refine ⟨s, play_run h, hbytes, fun haligned => ?_⟩
  have hbroken := haligned.staysBroken
  rw [hanswers] at hbroken
  cases hbroken true List.mem_cons_self

end Gnat
