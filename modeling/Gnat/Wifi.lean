/-
Gnat/Wifi.lean

The broker on the sketch's own connections.

`Wifi` is the network whose calls are the loops of `arduino::Connection`: for each
call of `Read`, `Drain` or `Write` to come it has the rounds of the loop, and a call
whose rounds are used up has lost its connection.  So everything that holds on any
network holds of a broker on `WiFiClient`s.

What it sends is better than on any network: a write that fails has lost the
connection, if `write` only refuses on one that is gone (`FailsForGood`), and then
nothing goes out any more, on whatever copy of the object.  So the bytes of each
client are the start of the stream it would have got on a reliable network, and all
of it while it is connected (`wifi_sends_prefix`).
-/
import Gnat.Relay
import Gnat.Transfer

namespace Gnat.Arduino

/-! ### Write, and what becomes of the connection -/

/-- How a call of `Write` ends. -/
structure WriteRun where
  returned : Bool
  sent : List UInt8
  /-- What `connected()` said last. -/
  connected : Bool
  deriving DecidableEq, Repr

/-- `Connection::Write`, as `write` has it, with the connection after it.  When the
rounds are used up the connection is lost. -/
def writeRun (sizeMax : Nat) (memory : Nat → UInt8) (schedule : List WriteRound)
    (buffer bytes : Nat) (sent : List UInt8) : WriteRun :=
  match schedule with
  | [] => if bytes = 0 then ⟨true, sent, true⟩ else ⟨false, sent, false⟩
  | round :: schedule =>
    if bytes = 0 then ⟨true, sent, true⟩
    else
      let sent := sent ++ next memory buffer (round.answer.taken bytes)
      let written := round.answer.written sizeMax bytes
      if written = sizeMax ∨ round.connected = false then ⟨false, sent, round.connected⟩
      else writeRun sizeMax memory schedule (buffer + written) (bytes - written) sent

section

variable {sizeMax : Nat} {memory : Nat → UInt8} {schedule : List WriteRound}
variable {buffer bytes : Nat} {sent : List UInt8}

/-- `writeRun` is `write`, with the connection lost at the end of the schedule. -/
theorem write_eq_writeRun (sizeMax : Nat) (memory : Nat → UInt8) (schedule : List WriteRound)
    (buffer bytes : Nat) (sent : List UInt8) :
    write sizeMax memory (schedule ++ [⟨.took 0, false⟩]) buffer bytes sent =
      some ((writeRun sizeMax memory schedule buffer bytes sent).returned,
        (writeRun sizeMax memory schedule buffer bytes sent).sent) := by
  induction schedule generalizing buffer bytes sent with
  | nil =>
      rw [List.nil_append, write, writeRun]
      split
      · rfl
      · simp [WriteAnswer.taken, next]
  | cons round schedule ih =>
      rw [List.cons_append, write, writeRun]
      split
      · rfl
      simp only
      split
      · rfl
      · exact ih _ _ _

/-- What `Write` sends is the start of its buffer, and all of it if it returns true. -/
theorem writeRun_sends (sizeMax : Nat) (memory : Nat → UInt8) (schedule : List WriteRound)
    (bytes : Nat) (sent : List UInt8) :
    ∃ part, (writeRun sizeMax memory schedule 0 bytes sent).sent = sent ++ part ∧
      part <+: next memory 0 bytes ∧
      ((writeRun sizeMax memory schedule 0 bytes sent).returned = true →
        part = next memory 0 bytes) := by
  obtain ⟨n, hsent, hn, hall⟩ := write_takes
    (write_eq_writeRun sizeMax memory schedule 0 bytes sent)
  exact ⟨_, hsent, next_prefix memory 0 hn, fun htrue => by rw [hall htrue]⟩

/-- `write` refuses only on a connection that is gone. -/
def FailsForGood (schedule : List WriteRound) : Prop :=
  ∀ round ∈ schedule, round.answer = .refused → round.connected = false

instance (schedule : List WriteRound) : Decidable (FailsForGood schedule) := by
  unfold FailsForGood; infer_instance

/-- A call that fails has lost its connection. -/
theorem writeRun_lost (h : FailsForGood schedule) (hsize : bytes < sizeMax)
    (hfalse : (writeRun sizeMax memory schedule buffer bytes sent).returned = false) :
    (writeRun sizeMax memory schedule buffer bytes sent).connected = false := by
  induction schedule generalizing buffer bytes sent with
  | nil =>
      rw [writeRun] at hfalse ⊢
      split at hfalse
      · cases hfalse
      · next hpos => rw [if_neg hpos]
  | cons round schedule ih =>
      obtain ⟨hround, hrest⟩ := List.forall_mem_cons.mp h
      rw [writeRun] at hfalse ⊢
      split at hfalse
      · cases hfalse
      next hpos =>
      rw [if_neg hpos]
      simp only at hfalse ⊢
      split at hfalse
      · next hstop =>
        rw [if_pos hstop]
        rcases hstop with hmax | hlost
        · refine hround ?_
          cases hanswer : round.answer with
          | refused => rfl
          | took count =>
              -- what was taken is less than `sizeMax`
              rw [hanswer, WriteAnswer.written] at hmax
              omega
        · exact hlost
      · next hgo =>
        rw [if_neg hgo]
        exact ih hrest (Nat.lt_of_le_of_lt (Nat.sub_le _ _) hsize) hfalse

end

end Gnat.Arduino

namespace Gnat

open Lib Prog Arduino

/-! ### The network -/

/-- A `WiFiClient`, and what the loops around it will meet. -/
structure WifiClient where
  /-- The bytes of the peer, and how many of them are consumed. -/
  stream : Nat → UInt8 := fun _ => 0
  pos : Nat := 0
  /-- What is in the buffers the caller has read into. -/
  stale : Nat → UInt8 := fun _ => 0
  /-- The rounds of each call of `Read` or `Drain` to come. -/
  reads : List (List Arduino.Answer) := []
  /-- The rounds of each call of `Write` to come. -/
  writes : List (List WriteRound) := []
  /-- The bytes the client has taken. -/
  sent : List UInt8 := []
  /-- The connection is lost or stopped. -/
  lost : Bool := false

namespace WifiClient

/-- The rounds of the next call of `Read` or `Drain`. -/
def readRounds (c : WifiClient) : List Arduino.Answer :=
  if c.lost then [] else c.reads.headD []

/-- The rounds of the next call of `Write`. -/
def writeRounds (c : WifiClient) : List WriteRound :=
  if c.lost then [] else c.writes.headD []

/-- The next call of `Read`, of `size` bytes into a buffer of the caller. -/
def readNext (c : WifiClient) (size : Nat) : ReadRun :=
  readRun c.stream c.readRounds c.pos (next c.stale 0 size) size

/-- The client after a call of `Read` or `Drain`. -/
def afterRead (c : WifiClient) (run : ReadRun) : WifiClient :=
  { c with pos := run.pos, reads := c.reads.tail }

/-- How many bytes the rounds to come offer at most. -/
def offers (c : WifiClient) : Nat :=
  (c.reads.map fun rounds => (offered rounds).sum).sum

theorem readNext_length (c : WifiClient) (size : Nat) :
    (c.readNext size).buffer.length = size := by
  have hlength := length_next c.stale 0 size
  exact ((readRun_transfers c.stream c.readRounds c.pos _ size).length_buffer hlength.ge).trans
    hlength

/-- A read that succeeds was offered its bytes. -/
theorem offers_afterRead {c : WifiClient} {size : Nat}
    (h : (c.readNext size).returned = some true) :
    (c.afterRead (c.readNext size)).offers + size ≤ c.offers := by
  have hread : read c.stream c.readRounds c.pos (next c.stale 0 size) size =
      some (true, (c.readNext size).pos, (c.readNext size).buffer) := by
    rw [read_eq_readRun, show readRun c.stream c.readRounds c.pos (next c.stale 0 size) size =
      c.readNext size from rfl, h]
    rfl
  obtain ⟨-, hsize⟩ := readPieces_consumes ((read_eq_true_iff c.readRounds).mp hread)
  have hrounds : (offered c.readRounds).sum ≤ (offered (c.reads.headD [])).sum := by
    unfold readRounds
    split
    · exact Nat.zero_le _
    · exact Nat.le_refl _
  unfold offers afterRead
  rcases hreads : c.reads with - | ⟨rounds, reads⟩
  · rw [hreads] at hrounds
    have hnone : (offered ([] : List Arduino.Answer)).sum = 0 := rfl
    simp only [List.headD_nil, hnone] at hrounds
    simp only [List.tail_nil, List.map_nil, List.sum_nil]
    omega
  · rw [hreads] at hrounds
    simp only [List.headD_cons] at hrounds
    simp only [List.tail_cons, List.map_cons, List.sum_cons]
    omega

/-- The next call of `Write`. -/
def writeNext (sizeMax : Nat) (c : WifiClient) (bytes : List UInt8) : WriteRun :=
  writeRun sizeMax (fun i => bytes.getD i 0) c.writeRounds 0 bytes.length c.sent

/-- The client after a call of `Write`. -/
def afterWrite (c : WifiClient) (run : WriteRun) : WifiClient :=
  { c with writes := c.writes.tail, sent := run.sent, lost := c.lost || !run.connected }

end WifiClient

/-- The clients of a sketch; `sizeMax` is the largest `size_t`. -/
structure Wifi where
  sizeMax : Nat
  clients : Nat → WifiClient

namespace Wifi

/-- Replace a client. -/
def update (w : Wifi) (socket : Nat) (c : WifiClient) : Wifi :=
  { w with clients := Function.update w.clients socket c }

def read (socket size : Nat) (w : Wifi) : Option (List.Vector UInt8 size) × Wifi :=
  let c := w.clients socket
  let run := c.readNext size
  (if run.returned = some true then some ⟨run.buffer, c.readNext_length size⟩ else none,
    w.update socket (c.afterRead run))

/-- The buffer of `Drain` is a static array of 64 bytes. -/
def drain (socket bytes : Nat) (w : Wifi) : Bool × Wifi :=
  let c := w.clients socket
  let run := Arduino.drain c.stream c.readRounds c.pos (next c.stale 0 64) bytes
  (run.returned = some true, w.update socket (c.afterRead run))

def write (socket : Nat) (bytes : List UInt8) (w : Wifi) : Bool × Wifi :=
  let c := w.clients socket
  let run := c.writeNext w.sizeMax bytes
  (run.returned, w.update socket (c.afterWrite run))

def close (socket : Nat) (w : Wifi) : Wifi :=
  w.update socket { w.clients socket with lost := true }

end Wifi

instance : Network Wifi where
  pending socket w := (w.clients socket).offers
  read := Wifi.read
  drain := Wifi.drain
  writePartial := Wifi.write
  write := Wifi.write
  close := Wifi.close
  read_pending {socket size w w' bytes} h := by
    obtain ⟨hbytes, rfl⟩ := Prod.mk.inj h
    split at hbytes
    · next hreturned =>
      have hoffers := WifiClient.offers_afterRead hreturned
      simpa [Wifi.update, Function.update_self] using hoffers
    · cases hbytes

/-! ### What a client takes of the writes -/

/-- A client took all of the writes, or all up to one of which it took the start. -/
inductive Takes : List Write → List UInt8 → (whole : Bool) → Prop
  | nil : Takes [] [] true
  | all {w : Write} {ws : List Write} {sent : List UInt8} {whole : Bool} :
      w.accepted = true → Takes ws sent whole → Takes (w :: ws) (w.bytes ++ sent) whole
  | cut {w : Write} {ws : List Write} {part : List UInt8} :
      w.accepted = false → part <+: w.bytes → Takes (w :: ws) part false

section

variable {ws ws' : List Write} {w : Write} {sent part : List UInt8} {whole : Bool}

theorem Takes.accepted (h : Takes ws sent whole) (hwhole : whole = true)
    (hw : w.accepted = true) : Takes (ws ++ [w]) (sent ++ w.bytes) true := by
  induction h with
  | nil => simpa using Takes.all hw .nil
  | all ha _ ih =>
      rw [List.cons_append, List.append_assoc]
      exact .all ha (ih hwhole)
  | cut => cases hwhole

theorem Takes.refused (h : Takes ws sent whole) (hwhole : whole = true)
    (hw : w.accepted = false) (hpart : part <+: w.bytes) :
    Takes (ws ++ [w]) (sent ++ part) false := by
  induction h with
  | nil => exact .cut hw hpart
  | all ha _ ih =>
      rw [List.cons_append, List.append_assoc]
      exact .all ha (ih hwhole)
  | cut => cases hwhole

theorem Takes.no_more (h : Takes ws sent whole) (hwhole : whole = false) :
    Takes (ws ++ ws') sent false := by
  induction h with
  | nil => cases hwhole
  | all ha _ ih => exact .all ha (ih hwhole)
  | cut ha hpart => exact .cut ha hpart

end

/-- The writes on a socket, on whatever copy of the connection. -/
def Machine.socketWrites {W : Type} (socket : Nat) (m : Machine W) : List Write :=
  m.written.filter fun w => w.via.socket = socket

/-- The client fails for good, took the start of the writes, and all of them unless the
connection is lost. -/
structure WifiClient.Sane (c : WifiClient) (ws : List Write) : Prop where
  final : ∀ rounds ∈ c.writes, FailsForGood rounds
  takes : ∃ whole, Takes ws c.sent whole ∧ (c.lost = false → whole = true)

theorem next_getD (bytes : List UInt8) :
    next (fun i => bytes.getD i 0) 0 bytes.length = bytes := by
  refine List.ext_getElem (length_next _ _ _) fun i h h' => ?_
  simp [next, List.getD_eq_getElem?_getD, List.getElem?_eq_getElem h']

/-- A call of `Write` keeps a client sane. -/
theorem WifiClient.Sane.write {c : WifiClient} {ws : List Write} (h : c.Sane ws)
    {sizeMax : Nat} {conn : ClientConnection} {bytes : List UInt8}
    (hsize : bytes.length < sizeMax) :
    (c.afterWrite (c.writeNext sizeMax bytes)).Sane
      (ws ++ [⟨conn, bytes, (c.writeNext sizeMax bytes).returned⟩]) := by
  obtain ⟨part, hsent, hpart, hall⟩ := writeRun_sends sizeMax (fun i => bytes.getD i 0)
    c.writeRounds bytes.length c.sent
  rw [next_getD] at hpart hall
  obtain ⟨whole, htakes, hwhole⟩ := h.takes
  have hrun : writeRun sizeMax (fun i => bytes.getD i 0) c.writeRounds 0 bytes.length c.sent =
    c.writeNext sizeMax bytes := rfl
  rw [hrun] at hsent hall
  refine ⟨fun rounds hrounds => h.final rounds (List.mem_of_mem_tail hrounds), ?_⟩
  show ∃ whole, Takes _ (c.writeNext sizeMax bytes).sent whole ∧ _
  rw [hsent]
  rcases whole with - | -
  · -- nothing goes out on a connection that was lost
    have hlost : c.lost = true := by
      by_contra hconnected
      exact Bool.false_ne_true (hwhole (Bool.eq_false_of_not_eq_true hconnected))
    have hnothing : part = [] := by
      have hrounds : c.writeRounds = [] := if_pos hlost
      rw [← hrun, hrounds, writeRun] at hsent
      split at hsent <;> exact List.self_eq_append_right.mp hsent
    refine ⟨false, ?_, fun hconnected => ?_⟩
    · rw [hnothing, List.append_nil]
      exact htakes.no_more rfl
    · simp [afterWrite, hlost] at hconnected
  · rcases hreturned : (c.writeNext sizeMax bytes).returned with - | -
    · refine ⟨false, htakes.refused rfl rfl hpart, fun hconnected => ?_⟩
      -- the write failed, so the connection is lost
      obtain ⟨hfirst, hlast⟩ := Bool.or_eq_false_iff.mp hconnected
      have hfinal : FailsForGood c.writeRounds := by
        rw [writeRounds, if_neg (by simp [show c.lost = false from hfirst])]
        rcases hwrites : c.writes with - | ⟨rounds, writes⟩
        · exact List.forall_mem_nil _
        · exact h.final rounds (hwrites ▸ List.mem_cons_self)
      have hgone := writeRun_lost hfinal hsize hreturned
      rw [hrun] at hgone
      rw [hgone] at hlast
      cases hlast
    · rw [hall hreturned]
      exact ⟨true, htakes.accepted rfl rfl, fun _ => rfl⟩

/-! ### What every call keeps -/

section

variable {W : Type} [Network W] {K : Type} [DecidableEq K] [KeyType K] {P : Machine W → Prop}

/-- Every call on a connection keeps `P`. -/
structure CallsKeep (P : Machine W → Prop) : Prop where
  read {p p' : Packet} {m m' : Machine W} : ReadStep (p, m) (p', m') → P m → P m'
  writePartial {conn : ClientConnection} {bytes : List UInt8} {accepted : Bool}
    {m m' : Machine W} : conn.writePartial bytes m = .ok (accepted, m') → P m → P m'
  write {conn : ClientConnection} {bytes : List UInt8} {accepted : Bool} {m m' : Machine W} :
    conn.write bytes m = .ok (accepted, m') → P m → P m'
  close {conn : ClientConnection} {m m' : Machine W} :
    conn.close m = .ok ((), m') → P m → P m'

theorem CallsKeep.reads (hP : CallsKeep P) {x y : Packet × Machine W} (h : Reads x y)
    (hx : P x.2) : P y.2 := by
  induction h with
  | refl => exact hx
  | tail _ hstep ih => exact hP.read hstep ih

theorem CallsKeep.sends (hP : CallsKeep P) {on : ClientConnection → Prop} {m m' : Machine W}
    (h : Sends on m m') (hm : P m) : P m' := by
  induction h with
  | refl => exact hm
  | tail _ hstep ih =>
      cases hstep with
      | writePartial _ hw => exact hP.writePartial hw ih
      | write _ hw => exact hP.write hw ih

/-- What every call keeps, `HandleMessage` keeps. -/
theorem CallsKeep.handled (hP : CallsKeep P) {env : Env K} {store store' : Store K W}
    {p p' : Packet} {m m' : Machine W} {status : Status} (hserved : Served store)
    (h : Handled env store p m status p' store' m') (hm : P m) : P m' := by
  obtain ⟨subs, hs⟩ := hserved
  cases h with
  | failed hr => exact hP.reads hr hm
  | replied _ _ hr hw => exact hP.write hw (hP.reads hr hm)
  | closed _ hclose => exact hP.close hclose hm
  | published _ _ _ _ hr hset =>
      exact hP.sends ((set_sends hs _ _ _).ok hset) (hP.reads hr hm)
  | subscribed _ hr hw _ _ hadd =>
      exact hP.sends ((addObserver_sends _ _ _).ok hadd) (hP.write hw (hP.reads hr hm))

end

/-! ### The clients of a server -/

/-- No buffer has `SIZE_MAX` bytes. -/
def SmallWrites (sizeMax : Nat) (m : Machine Wifi) : Prop :=
  ∀ w ∈ m.written, w.bytes.length < sizeMax

/-- All clients are sane. -/
def WifiSane (sizeMax : Nat) (m : Machine Wifi) : Prop :=
  m.net.sizeMax = sizeMax ∧
    (SmallWrites sizeMax m → ∀ socket, (m.net.clients socket).Sane (m.socketWrites socket))

/-- The client went on receiving, and may have lost its connection. -/
structure WifiClient.Evolves (c c' : WifiClient) : Prop where
  sent : c'.sent = c.sent
  lost : c.lost = true → c'.lost = true
  writes : ∀ rounds ∈ c'.writes, FailsForGood rounds

theorem WifiClient.Sane.evolves {c c' : WifiClient} {ws : List Write} (h : c.Sane ws)
    (he : c.Evolves c') : c'.Sane ws := by
  obtain ⟨whole, htakes, hwhole⟩ := h.takes
  refine ⟨he.writes, whole, he.sent.symm ▸ htakes, fun hconnected => hwhole ?_⟩
  by_contra hlost
  rw [he.lost (Bool.eq_true_of_not_eq_false hlost)] at hconnected
  cases hconnected

section

variable {sizeMax : Nat} {m m' : Machine Wifi} {conn : ClientConnection}

/-- A call that writes nothing. -/
theorem WifiSane.quiet {socket : Nat} {c : WifiClient} (h : WifiSane sizeMax m)
    (hnet : m'.net = m.net.update socket c) (hwritten : m'.written = m.written)
    (hsent : c.sent = (m.net.clients socket).sent)
    (hlost : (m.net.clients socket).lost = true → c.lost = true)
    (hwrites : c.writes = (m.net.clients socket).writes) : WifiSane sizeMax m' := by
  obtain ⟨hmax, hsane⟩ := h
  refine ⟨by rw [hnet]; exact hmax, fun hsmall socket' => ?_⟩
  have hsmall : SmallWrites sizeMax m := by rwa [SmallWrites, hwritten] at hsmall
  have hs := hsane hsmall socket'
  rw [Machine.socketWrites, hwritten, hnet, Wifi.update]
  rcases eq_or_ne socket' socket with rfl | hne
  · simp only [Function.update_self]
    exact hs.evolves ⟨hsent, hlost, hwrites ▸ hs.final⟩
  · simp only [Function.update_of_ne hne]
    exact hs

theorem WifiSane.writes {bytes : List UInt8} {accepted : Bool} (h : WifiSane sizeMax m)
    (hw : conn.write bytes m = .ok (accepted, m')) : WifiSane sizeMax m' := by
  obtain ⟨rfl, hsane⟩ := h
  cases hw
  refine ⟨rfl, fun hsmall socket => ?_⟩
  obtain ⟨hsmall, hsize⟩ := List.forall_mem_append.mp hsmall
  have hs := hsane hsmall socket
  show WifiClient.Sane (Function.update m.net.clients conn.socket _ socket)
    ((m.written ++ [_]).filter _)
  rw [List.filter_append, List.filter_singleton]
  rcases eq_or_ne socket conn.socket with rfl | hne
  · rw [Function.update_self, decide_eq_true rfl]
    have hsize : bytes.length < m.net.sizeMax := hsize _ List.mem_cons_self
    exact hs.write hsize
  · rw [Function.update_of_ne hne, decide_eq_false (Ne.symm hne), cond_false, List.append_nil]
    exact hs

theorem wifiSane_calls (sizeMax : Nat) : CallsKeep (WifiSane sizeMax) where
  read hstep h := by
    cases hstep with
    | read _ hr =>
        cases (Prod.mk.inj hr).2
        exact h.quiet rfl rfl rfl id rfl
    | fail hr =>
        cases (Prod.mk.inj hr).2
        exact h.quiet rfl rfl rfl id rfl
    | copies n => exact h
  writePartial hw h := h.writes hw
  write hw h := h.writes hw
  close hclose h := by
    cases hclose
    exact h.quiet rfl rfl rfl (fun _ => rfl) rfl

end

/-! ### The stream a client would get -/

/-- What goes out in one piece: an answer, or a publication. -/
inductive Outgoing
  | reply (w : Write)
  | publication (a : Attempt)

namespace Outgoing

def writes : Outgoing → List Write
  | reply w => [w]
  | publication a => a.writes

def frame : Outgoing → List UInt8
  | reply w => w.bytes
  | publication a => a.frame

def socket : Outgoing → Nat
  | reply w => w.via.socket
  | publication a => a.conn.socket

end Outgoing

/-- The answers and publications of a step. -/
def RelayLabel.outgoing {K : Type} (l : RelayLabel K) : List Outgoing :=
  l.replies.map .reply ++ l.attempts.map .publication

/-- The frames for a socket, each of them whole. -/
def idealStream {K : Type} (socket : Nat) (rs : List (RelayLabel K)) : List UInt8 :=
  ((rs.flatMap RelayLabel.outgoing).filter fun o => o.socket = socket).flatMap Outgoing.frame

theorem outgoing_socketWrites (socket : Nat) (os : List Outgoing) :
    (os.flatMap Outgoing.writes).filter (fun w => w.via.socket = socket) =
      (os.filter fun o => o.socket = socket).flatMap Outgoing.writes := by
  induction os with
  | nil => rfl
  | cons o os ih =>
      have hvia : ∀ w ∈ o.writes, w.via.socket = o.socket := by
        intro w hw
        cases o with
        | reply w' => rw [List.mem_singleton.mp hw]; rfl
        | publication a => rw [Attempt.via_of_mem hw]; rfl
      rw [List.flatMap_cons, List.filter_append, ih, List.filter_cons]
      split
      · next hsocket =>
        rw [List.flatMap_cons, List.filter_eq_self.mpr]
        exact fun w hw => (hvia w hw).symm ▸ hsocket
      · next hsocket =>
        rw [List.filter_eq_nil_iff.mpr, List.nil_append]
        exact fun w hw => (hvia w hw).symm ▸ hsocket

theorem RelayLabel.outgoing_writes {K : Type} (l : RelayLabel K) :
    l.outgoing.flatMap Outgoing.writes = l.writes := by
  rw [outgoing, List.flatMap_append, RelayLabel.writes, List.flatMap_map, List.flatMap_map]
  congr 1
  exact List.flatMap_singleton' l.replies

/-- What a client takes of whole frames is the start of them. -/
theorem Takes.prefix_frames {os : List Outgoing} {sent : List UInt8} {whole : Bool}
    (h : Takes (os.flatMap Outgoing.writes) sent whole) :
    sent <+: os.flatMap Outgoing.frame ∧ (whole = true → sent = os.flatMap Outgoing.frame) := by
  induction os generalizing sent with
  | nil =>
      cases h
      exact ⟨List.prefix_rfl, fun _ => rfl⟩
  | cons o os ih =>
      have hcut : ∀ {part : List UInt8}, part <+: o.frame →
          part <+: (o :: os).flatMap Outgoing.frame := fun hpart =>
        hpart.trans (List.prefix_append _ _)
      have hgo : ∀ {rest : List UInt8}, Takes (os.flatMap Outgoing.writes) rest whole →
          o.frame ++ rest <+: (o :: os).flatMap Outgoing.frame ∧
            (whole = true → o.frame ++ rest = (o :: os).flatMap Outgoing.frame) := by
        intro rest hrest
        obtain ⟨hfront, hwhole⟩ := ih hrest
        exact ⟨(List.prefix_append_right_inj _).mpr hfront, fun htrue => by
          rw [hwhole htrue, List.flatMap_cons]⟩
      rw [List.flatMap_cons] at h
      cases o with
      | reply w =>
          cases h with
          | all _ hrest => exact hgo hrest
          | cut _ hpart => exact ⟨hcut hpart, fun hfalse => by cases hfalse⟩
      | publication a =>
          rw [Outgoing.writes, Attempt.writes] at h
          split at h
          · -- the header was refused
            cases h with
            | all ha => cases ha
            | cut _ hpart =>
                exact ⟨hcut (hpart.trans (List.prefix_append _ _)), fun hfalse => by cases hfalse⟩
          · -- the payload was refused
            cases h with
            | cut ha => cases ha
            | all _ h =>
                cases h with
                | all ha => cases ha
                | cut _ hpart =>
                    exact ⟨hcut ((List.prefix_append_right_inj _).mpr hpart),
                      fun hfalse => by cases hfalse⟩
          · cases h with
            | cut ha => cases ha
            | all _ h =>
                cases h with
                | cut ha => cases ha
                | @all _ _ rest _ _ hrest =>
                    show a.header ++ (a.payload ++ rest) <+: _ ∧ _
                    rw [← List.append_assoc]
                    exact hgo hrest

/-! ### Runs -/

section

variable {K : Type} [DecidableEq K] [KeyType K] {target : Target} {s s' : ServerState K Wifi}
variable {l : Label} {ls : List Label}

/-- A step of a server on `WifiClient`s: between its calls they go on receiving. -/
structure WifiStep (target : Target) (s : ServerState K Wifi) (l : Label)
    (s' : ServerState K Wifi) : Prop where
  step : Step target s l s'
  evolves : l = .network → s'.machine.net.sizeMax = s.machine.net.sizeMax ∧
    ∀ socket, (s.machine.net.clients socket).Evolves (s'.machine.net.clients socket)

theorem WifiStep.sane {sizeMax : Nat} (h : WifiStep target s l s') (hserved : Served s.store)
    (hs : WifiSane sizeMax s.machine) : WifiSane sizeMax s'.machine := by
  obtain ⟨hstep, hevolves⟩ := h
  cases hstep with
  | handle _ _ hok => exact (wifiSane_calls sizeMax).handled hserved (handled_of_ok hok) hs
  | remove => exact hs
  | network net =>
      obtain ⟨hmax, hclients⟩ := hevolves rfl
      exact ⟨hmax.trans hs.1, fun hsmall socket => (hs.2 hsmall socket).evolves (hclients socket)⟩

theorem run_wifiSane {sizeMax : Nat} (h : Run (WifiStep target) s ls s')
    (hserved : Served s.store) (hs : WifiSane sizeMax s.machine) :
    WifiSane sizeMax s'.machine := by
  have hboth := h.invariant (I := fun t => Served t.store ∧ WifiSane sizeMax t.machine)
    (fun _ _ _ hstep ht => ⟨hstep.step.served ht.1, hstep.sane ht.1 ht.2⟩) ⟨hserved, hs⟩
  exact hboth.2

/-- Nothing was sent yet, and writes fail for good. -/
def WifiClient.Fresh (c : WifiClient) : Prop :=
  c.sent = [] ∧ ∀ rounds ∈ c.writes, FailsForGood rounds

/-- What each client got of the answers and publications that were written. -/
theorem run_wifi_prefix {net : Wifi} (hnet : ∀ socket, (net.clients socket).Fresh)
    (hrun : Run (WifiStep target) (.initial K net) ls s)
    (hsmall : SmallWrites net.sizeMax s.machine) {rs : List (RelayLabel K)}
    (hwritten : s.machine.written = rs.flatMap RelayLabel.writes) (socket : Nat) :
    (s.machine.net.clients socket).sent <+: idealStream socket rs ∧
      ((s.machine.net.clients socket).lost = false →
        (s.machine.net.clients socket).sent = idealStream socket rs) := by
  have hstart : WifiSane net.sizeMax (ServerState.initial K net).machine := by
    refine ⟨rfl, fun _ socket => ⟨(hnet socket).2, true, ?_, fun _ => rfl⟩⟩
    have hnone : (net.clients socket).sent = [] := (hnet socket).1
    show Takes [] (net.clients socket).sent true
    rw [hnone]
    exact .nil
  have hsane := (run_wifiSane hrun (served_initial net) hstart).2 hsmall
  obtain ⟨whole, htakes, hwhole⟩ := (hsane socket).takes
  have houtgoing : s.machine.socketWrites socket =
      ((rs.flatMap RelayLabel.outgoing).filter fun o => o.socket = socket).flatMap
        Outgoing.writes := by
    rw [← outgoing_socketWrites, List.flatMap_assoc, Machine.socketWrites, hwritten]
    simp only [RelayLabel.outgoing_writes]
  rw [houtgoing] at htakes
  obtain ⟨hfront, hall⟩ := htakes.prefix_frames
  exact ⟨hfront, fun hconnected => hall (hwhole hconnected)⟩

/-- A server on `WifiClient`s is a broker, like any other. -/
theorem run_wifi_relays [LawfulKeyType K] {net : Wifi}
    (hrun : Run (WifiStep target) (.initial K net) ls s) :
    ∃ rs b, Run (RelayStep target) {} rs b ∧ rs.map RelayLabel.label = ls ∧ Relays b s ∧
      s.machine.written = rs.flatMap RelayLabel.writes := by
  obtain ⟨rs, b, hrs, hlabels, hwritten, h'⟩ :=
    (relays_initial net).run (keysDecode_initial net) (hrun.mono fun _ _ _ h => h.step)
  exact ⟨rs, b, hrs, hlabels, h', hwritten⟩

/-- **The bytes of each client** of a server on `WifiClient`s that fail for good: whatever
arrives, and however the writes are cut into pieces and fail, each client gets the start of
the frames the broker has for it, across all copies of its connection, and all of them while
it is connected.  No buffer may have `SIZE_MAX` bytes, as many as a failed write returns. -/
theorem wifi_sends_prefix [LawfulKeyType K] {net : Wifi}
    (hnet : ∀ socket, (net.clients socket).Fresh)
    (hrun : Run (WifiStep target) (.initial K net) ls s)
    (hsmall : SmallWrites net.sizeMax s.machine) :
    ∃ rs b, Run (RelayStep target) {} rs b ∧ rs.map RelayLabel.label = ls ∧ Relays b s ∧
      s.machine.written = rs.flatMap RelayLabel.writes ∧
      ∀ socket, (s.machine.net.clients socket).sent <+: idealStream socket rs ∧
        ((s.machine.net.clients socket).lost = false →
          (s.machine.net.clients socket).sent = idealStream socket rs) := by
  obtain ⟨rs, b, hrs, hlabels, h', hwritten⟩ := run_wifi_relays hrun
  exact ⟨rs, b, hrs, hlabels, h', hwritten, run_wifi_prefix hnet hrun hsmall hwritten⟩

end

/-- The clients of the conversation: the writes of the first one are cut into pieces, and its
connection is lost in the middle of a payload. -/
def conversationWifi : Wifi where
  sizeMax := 0xFFFFFFFF
  clients
    | 1 =>
      { stream := fun i => [0, 1, 0, 1, 0x61, 0].getD i 0
        reads := List.replicate 8 [.arrived 7]
        writes := [[⟨.took 2, true⟩, ⟨.took 9, true⟩], [⟨.took 9, true⟩],
          [⟨.took 1, true⟩, ⟨.refused, false⟩]] }
    | 2 =>
      { stream := fun i => [0, 1, 0x61, 0x68, 0x69].getD i 0
        reads := List.replicate 8 [.arrived 7] }
    | _ => {}

theorem conversationWifi_fresh (socket : Nat) : (conversationWifi.clients socket).Fresh := by
  rcases socket with - | - | - | socket
  · exact ⟨rfl, List.forall_mem_nil _⟩
  · exact ⟨rfl, by decide⟩
  · exact ⟨rfl, List.forall_mem_nil _⟩
  · exact ⟨rfl, List.forall_mem_nil _⟩

theorem conversationWifi_run :
    ∃ s : ServerState StdString Wifi, Run (WifiStep {}) (.initial StdString conversationWifi)
        [.handled subscribeA .ok, .handled publishHi .ok] s ∧
      SmallWrites conversationWifi.sizeMax s.machine ∧
      (s.machine.net.clients 1).sent =
        [0x90, 3, 0, 1, 0, 0x30, 5, 0, 1, 0x61, 0x68] := by
  obtain ⟨ls, s, h, hview⟩ := exists_ok_of_map
    (t := play (.initial StdString conversationWifi)
      ([.handle ⟨{}, 0, .asKept StdString⟩ subscribeA rfl rfl,
        .handle ⟨{}, 0, .asKept StdString⟩ publishHi rfl rfl] :
          List (Action {} StdString Wifi)))
    (g := fun r => (r.1, r.2.machine.written.map fun w => w.bytes.length,
      (r.2.machine.net.clients 1).sent))
    (c := ([.handled subscribeA .ok, .handled publishHi .ok], [5, 5, 2],
      [0x90, 3, 0, 1, 0, 0x30, 5, 0, 1, 0x61, 0x68])) (by decide +kernel)
  simp only [Prod.mk.injEq] at hview
  obtain ⟨rfl, hsizes, hsent⟩ := hview
  refine ⟨s, ?_, ?_, hsent⟩
  · cases play_run h with
    | cons hsubscribe hrun =>
      cases hrun with
      | cons hpublish hnil =>
        cases hnil
        exact .cons ⟨hsubscribe, by rintro ⟨⟩⟩ (.cons ⟨hpublish, by rintro ⟨⟩⟩ .nil)
  · intro w hw
    have hsize := List.mem_map_of_mem (f := fun w => w.bytes.length) hw
    rw [hsizes] at hsize
    simp only [List.mem_cons, List.not_mem_nil, or_false] at hsize
    show w.bytes.length < 0xFFFFFFFF
    omega

/-- The client 7 gets its SUBACK, the header and one byte of the payload. -/
theorem wifi_sends_prefix_conversation :
    ∃ (s : ServerState StdString Wifi) (rs : List (RelayLabel StdString)),
      rs.map RelayLabel.label = [.handled subscribeA .ok, .handled publishHi .ok] ∧
      (s.machine.net.clients 1).sent =
        [0x90, 3, 0, 1, 0, 0x30, 5, 0, 1, 0x61, 0x68] ∧
      s.machine.written = rs.flatMap RelayLabel.writes ∧
      (s.machine.net.clients 1).sent <+: idealStream 1 rs := by
  obtain ⟨s, hrun, hsmall, hsent⟩ := conversationWifi_run
  obtain ⟨rs, b, -, hlabels, -, hwritten, hfront⟩ :=
    wifi_sends_prefix conversationWifi_fresh hrun hsmall
  exact ⟨s, rs, hlabels, hsent, hwritten, (hfront 1).1⟩

end Gnat
