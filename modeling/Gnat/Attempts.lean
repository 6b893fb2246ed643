/-
Gnat/Attempts.lean

What becomes of a subscription, whatever the network does.

Each subscription owns a heap copy of its own, so the writes on its account are
those on that copy, and these are the attempts for the calls the board makes to
its watcher.  Two things follow of every run.  From the SUBSCRIBE on, each entry
that is retained and each that is set later is tried exactly once, in order, until
the client is removed (`attempted_once`); and the last attempt of a subscription
that is still there for a topic has what the store retains of it
(`subscribers_mirror`).
-/
import Gnat.Lib.Latest
import Gnat.Relay

namespace Gnat

open Lib Prog

variable {K : Type} [DecidableEq K] [KeyType K] {target : Target} {b b' : Broker K}
variable {r : RelayLabel K} {rs : List (RelayLabel K)} {k : Nat}

/-! ### Runs of the broker as runs of the board -/

/-- The operations of a run on the board, with their calls. -/
def relayOperations (rs : List (RelayLabel K)) :
    List (Board.Op K DataStoreEntry (Subscription K) ×
      List (Board.Call K DataStoreEntry (Subscription K))) :=
  rs.flatMap fun r => r.op.toList

theorem RelayStep.board (h : RelayStep target b r b') :
    Run Board.Step b.board r.op.toList b'.board := by
  cases h with
  | answered | network => exact .nil
  | published _ _ _ _ hstep => exact .cons hstep .nil
  | subscribed _ _ _ _ _ _ hstep => exact .cons hstep .nil
  | removed hstep => exact .cons hstep .nil

theorem relay_board (h : Run (RelayStep target) b rs b') :
    Run Board.Step b.board (relayOperations rs) b'.board := by
  induction h with
  | nil => exact .nil
  | cons hstep _ ih => exact Run.append_iff.mpr ⟨_, hstep.board, ih⟩

/-! ### Attempts and writes -/

theorem RelayStep.tries (h : RelayStep target b r b') :
    Tries (r.op.toList.flatMap Prod.snd) r.attempts := by
  cases h with
  | answered | network | removed => exact .nil
  | published _ _ _ _ _ htries =>
      rw [Option.toList_some, List.flatMap_singleton]
      exact htries
  | subscribed _ _ _ _ _ _ _ htries =>
      rw [Option.toList_some, List.flatMap_singleton]
      exact htries

/-- The attempts of a run are those for the calls of the board. -/
theorem relay_tries (h : Run (RelayStep target) b rs b') :
    Tries ((relayOperations rs).flatMap Prod.snd) (rs.flatMap RelayLabel.attempts) := by
  induction h with
  | nil => exact .nil
  | cons hstep _ ih =>
      rw [relayOperations, List.flatMap_cons, List.flatMap_append, List.flatMap_cons]
      exact hstep.tries.append ih

/-- No answer goes out on a heap copy. -/
theorem RelayStep.replies_copy (h : RelayStep target b r b') :
    r.replies.filter (Write.onCopy k) = [] := by
  have hnone : ∀ {ws : List Write}, (∀ w ∈ ws, w.via.copy = none) →
      ws.filter (Write.onCopy k) = [] := fun hws =>
    List.filter_eq_nil_iff.mpr fun w hw => by simp [Write.onCopy, hws w hw]
  cases h with
  | answered howned hanswer => exact hnone fun w hw => (hanswer.copy w hw).trans howned
  | subscribed _ howned => exact hnone (List.forall_mem_singleton.mpr howned)
  | published | removed | network => rfl

/-- What a run writes on a heap copy are the attempts for the calls of its watcher. -/
theorem relay_onCopy (h : Run (RelayStep target) b rs b') (k : Nat) :
    (rs.flatMap RelayLabel.writes).filter (Write.onCopy k) =
        ((rs.flatMap RelayLabel.attempts).filter (Attempt.onCopy k)).flatMap Attempt.writes ∧
      Tries (Board.heard (Subscription.ownsCopy k) ((relayOperations rs).flatMap Prod.snd))
        ((rs.flatMap RelayLabel.attempts).filter (Attempt.onCopy k)) := by
  refine ⟨?_, (relay_tries h).heard⟩
  induction h with
  | nil => rfl
  | cons hstep _ ih =>
      rw [List.flatMap_cons, List.filter_append, ih, RelayLabel.writes, List.filter_append,
        hstep.replies_copy, List.nil_append, writes_onCopy, List.flatMap_cons,
        List.filter_append, List.flatMap_append]

/-! ### The numbers of the heap copies -/

theorem RelayStep.copies_le (h : RelayStep target b r b') : b.copies ≤ b'.copies := by
  cases h with
  | answered => exact Nat.le_add_right _ _
  | published | removed | network => exact Nat.le_refl _
  | subscribed _ _ _ _ hle hlt => exact Nat.le_trans hle (Nat.le_of_lt hlt)

/-- Who comes in a step owns a heap copy that was made in it. -/
theorem RelayStep.came_copy (h : RelayStep target b r b') :
    ∀ w ∈ Board.came (r.op.toList.map Prod.fst),
      ∃ n, b.copies ≤ n ∧ n < b'.copies ∧ w.conn.copy = some n := by
  cases h with
  | answered | network | published | removed => exact List.forall_mem_nil _
  | @subscribed p _ filter key n _ _ _ _ _ _ _ _ hle hlt =>
      exact List.forall_mem_singleton.mpr ⟨n, hle, hlt, rfl⟩

/-- A step brings one watcher at most. -/
theorem RelayStep.came_nodup (h : RelayStep target b r b') :
    ((Board.came (r.op.toList.map Prod.fst)).map fun w => w.conn.copy).Nodup := by
  cases h with
  | answered | network | published | removed => exact List.nodup_nil
  | subscribed => exact List.nodup_singleton _

/-- The watchers that came own heap copies of their own. -/
structure CopiesNumbered (rs : List (RelayLabel K)) (b : Broker K) : Prop where
  made : ∀ w ∈ Board.came ((relayOperations rs).map Prod.fst),
    ∃ n < b.copies, w.conn.copy = some n
  nodup : ((Board.came ((relayOperations rs).map Prod.fst)).map fun w => w.conn.copy).Nodup

theorem relay_numbered (h : Run (RelayStep target) {} rs b) : CopiesNumbered rs b := by
  refine h.history ⟨List.forall_mem_nil _, List.nodup_nil⟩ ?_
  intro rs b₁ r b₂ _ ih hstep
  have hcame : Board.came ((relayOperations (rs ++ [r])).map Prod.fst) =
      Board.came ((relayOperations rs).map Prod.fst) ++
        Board.came (r.op.toList.map Prod.fst) := by
    rw [relayOperations, List.flatMap_append, List.map_append, Board.came_append,
      List.flatMap_singleton]
    rfl
  refine ⟨fun w hw => ?_, ?_⟩
  · rw [hcame] at hw
    rcases List.mem_append.mp hw with hw | hw
    · obtain ⟨n, hn, hcopy⟩ := ih.made w hw
      exact ⟨n, Nat.lt_of_lt_of_le hn hstep.copies_le, hcopy⟩
    · obtain ⟨n, -, hn, hcopy⟩ := hstep.came_copy w hw
      exact ⟨n, hn, hcopy⟩
  · rw [hcame, List.map_append]
    refine List.nodup_append.mpr ⟨ih.nodup, hstep.came_nodup, ?_⟩
    -- the number of a new copy is larger than that of any old one
    intro copy hold copy' hnew
    obtain ⟨w, hw, rfl⟩ := List.mem_map.mp hold
    obtain ⟨w', hw', rfl⟩ := List.mem_map.mp hnew
    obtain ⟨n, hn, hcopy⟩ := ih.made w hw
    obtain ⟨n', hn', -, hcopy'⟩ := hstep.came_copy w' hw'
    rw [hcopy, hcopy', ne_eq, Option.some_inj]
    omega

/-- The watchers of a board and what they were told. -/
theorem relay_upToDate (h : Run (RelayStep target) {} rs b) :
    Board.UpToDate (fun w => w.conn.copy) (relayOperations rs) b.board :=
  Board.told_latest (relay_board h) (relay_numbered h).nodup

/-- No later watcher has the number of a copy that was made. -/
theorem relay_keeps (h : Run (RelayStep target) b rs b') (hk : k < b.copies) :
    ∀ o ∈ relayOperations rs, Board.Keeps (Subscription.ownsCopy k) o.1 := by
  induction h with
  | nil => exact List.forall_mem_nil _
  | @cons b _ _ _ _ hstep _ ih =>
      intro o ho
      rw [relayOperations, List.flatMap_cons, List.mem_append] at ho
      rcases ho with ho | ho
      · cases hstep with
        | answered | network => cases ho
        | published | removed =>
            rw [List.mem_singleton.mp ho]
            trivial
        | @subscribed _ _ _ _ n _ _ _ _ _ _ _ _ hle =>
            rw [List.mem_singleton.mp ho]
            have hne : ¬ some n = some k := by
              rw [Option.some_inj]
              omega
            exact decide_eq_false hne
      · exact ih (Nat.lt_of_lt_of_le hk hstep.copies_le) o ho

/-! ### One subscription -/

section

/-- Nothing was written on a heap copy that was not made yet, and nobody owns it. -/
theorem copy_unused {n : Nat} (hrun : Run (RelayStep target) {} rs b) (hn : b.copies ≤ n) :
    (rs.flatMap RelayLabel.writes).filter (Write.onCopy n) = [] ∧
      b.board.watchers.filter (Subscription.ownsCopy n) = [] := by
  have hnumbered := relay_numbered hrun
  have hupToDate := relay_upToDate hrun
  have hother : ∀ w ∈ Board.came ((relayOperations rs).map Prod.fst),
      ¬ Subscription.ownsCopy n w = true := by
    intro w hw hown
    obtain ⟨n', hn', hcopy⟩ := hnumbered.made w hw
    have heq : some n' = some n := hcopy.symm.trans (of_decide_eq_true hown)
    exact absurd (Option.some.inj heq) (by omega)
  constructor
  · obtain ⟨hwrites, htries⟩ := relay_onCopy hrun n
    have hheard : Board.heard (Subscription.ownsCopy n) ((relayOperations rs).flatMap Prod.snd) =
        [] :=
      List.filter_eq_nil_iff.mpr fun c hc => hother _ (hupToDate.told_came c hc)
    rw [hheard] at htries
    rw [hwrites]
    generalize (rs.flatMap RelayLabel.attempts).filter (Attempt.onCopy n) = attempts at htries
    cases htries
    rfl
  · exact List.filter_eq_nil_iff.mpr fun w hw => hother w (hupToDate.watchers.subset hw)

variable {W : Type} [Network W] [LawfulKeyType K] {s₁ s₂ s₃ : ServerState K W} {l : Label}
variable {before after : List Label}

/-- **Every entry is tried exactly once.**  Whatever arrives and whatever fails: when a step
of a run adds an observer, it is that of a SUBSCRIBE, on a new heap copy of its connection.
From then on what is written on that copy is one attempt for each entry the store had then,
and after these one for each entry that is set until the client is removed, in order, as far
as the matcher accepts their keys. -/
theorem attempted_once {net : W} (hbefore : Run (Step target) (.initial K net) before s₁)
    (hstep : Step target s₁ l s₂) (hafter : Run (Step target) s₂ after s₃)
    (hadded : s₁.store.observers.length < s₂.store.observers.length) :
    ∃ (p : Packet) (w : Subscription K) (n : Nat) (entries : List (K × DataStoreEntry))
      (rs : List (RelayLabel K)) (b₂ b₃ : Broker K) (attempts : List Attempt),
      l = .handled p .ok ∧ p.type = .subscribe ∧ w.conn = heapCopy p.connection n ∧
      s₂.store.observers = s₁.store.observers ++ [w.entry] ∧
      Board.Lists s₁.store.get entries ∧
      Relays b₂ s₂ ∧ Run (RelayStep target) b₂ rs b₃ ∧ Relays b₃ s₃ ∧
      rs.map RelayLabel.label = after ∧
      Tries (Board.tells w (entries ++ Board.follow w ((relayOperations rs).map Prod.fst)))
        attempts ∧
      s₃.machine.copyWrites n = attempts.flatMap Attempt.writes := by
  have hkeys := run_keysDecode hbefore (keysDecode_initial net)
  obtain ⟨rs₁, b₁, hrun₁, -, hwritten₁, h₁⟩ :=
    (relays_initial net).run (keysDecode_initial net) hbefore
  have hwritten₁ : s₁.machine.written = rs₁.flatMap RelayLabel.writes := hwritten₁
  obtain ⟨r, b₂, ⟨hr, -, hwritten₂, -, h₂⟩, hlabel⟩ := h₁.step hkeys hstep
  obtain ⟨rs, b₃, hrun, hlabels, hwritten₃, h₃⟩ := h₂.run (hstep.keysDecode hkeys) hafter
  rw [h₁.represents.observers, h₂.represents.observers, List.length_map, List.length_map]
    at hadded
  cases hr with
  | answered | network => exact absurd hadded (Nat.lt_irrefl _)
  | published _ _ _ _ hset =>
      obtain ⟨-, rfl⟩ := hset.inv
      exact absurd hadded (Nat.lt_irrefl _)
  | removed hunwatch =>
      obtain ⟨-, rfl⟩ := hunwatch.inv
      exact absurd hadded (Nat.not_lt.mpr (List.length_filter_le _ _))
  | @subscribed p packetId filter key n copies' board' calls attempts htype howned _ _ hle hlt
      hwatch htries =>
      generalize hw : subscriptionTo p.connection filter key n = w at *
      have hconn : w.conn = heapCopy p.connection n := hw ▸ rfl
      have hown : Subscription.ownsCopy n w = true :=
        decide_eq_true (congrArg ClientConnection.copy hconn)
      obtain ⟨hquiet, hnobody⟩ := copy_unused hrun₁ hle
      obtain ⟨entries, hlists, rfl, hheard⟩ :=
        Board.heard_run hwatch (relay_board hrun) hown hnobody (relay_keeps hrun hlt)
      obtain ⟨hwrites, htried⟩ := relay_onCopy hrun n
      rw [hheard] at htried
      have hnow := htries.heard (k := n)
      rw [Board.heard_tells_self hown] at hnow
      have hget : s₁.store.get = b₁.board.value := funext h₁.represents.entries
      refine ⟨p, w, n, entries, rs, _, b₃, _, hlabel.symm, htype, hconn, ?_, hget ▸ hlists, h₂,
        hrun, h₃, hlabels, Board.tells_append w _ _ ▸ hnow.append htried, ?_⟩
      · obtain ⟨-, rfl⟩ := hwatch.inv
        rw [h₂.represents.observers, h₁.represents.observers]
        exact List.map_append
      · -- the SUBACK is not on the copy, so only the attempts are
        have hack : List.filter (Write.onCopy n)
            [⟨p.connection, subackFrame packetId [0], true⟩] = [] := by
          rw [List.filter_singleton, Write.onCopy, howned]
          rfl
        rw [Machine.copyWrites, hwritten₃, hwritten₂, List.filter_append, List.filter_append,
          hwrites, hwritten₁, hquiet, RelayLabel.writes, List.filter_append, hack, writes_onCopy,
          List.nil_append, List.nil_append, List.flatMap_append]

end

/-- The client 7 subscribes to `a`, whose second PUBLISH is sent behind a header without
its payload. -/
theorem attempted_once_faltering :
    ∃ (s₂ s₃ : ServerState StdString Net) (w : Subscription StdString) (n : Nat)
      (rs : List (RelayLabel StdString)) (attempts : List Attempt),
      Run (Step {}) s₂ [.handled publishHi .ok, .handled publishHi .ok] s₃ ∧
      w.conn = heapCopy subscribeA.connection n ∧
      rs.map RelayLabel.label = [.handled publishHi .ok, .handled publishHi .ok] ∧
      Tries (Board.tells w (Board.follow w ((relayOperations rs).map Prod.fst))) attempts ∧
      s₃.machine.copyWrites n = attempts.flatMap Attempt.writes := by
  have conversation :
      ((do
        let (ls₂, s₂) ← play (.initial StdString (faltering (· ≠ 2)))
          [handleIn ⟨{}, 0, .asKept StdString⟩ subscribeA rfl]
        let (ls₃, _) ← play s₂ [handleIn ⟨{}, 0, .asKept StdString⟩ publishHi rfl,
          handleIn ⟨{}, 0, .asKept StdString⟩ publishHi rfl]
        return (ls₂, ls₃, s₂.store.observers.length)) : Except Fault _) =
        .ok ([Label.handled subscribeA .ok],
          [Label.handled publishHi .ok, .handled publishHi .ok], 1) := by
    decide +kernel
  obtain ⟨ls₂, s₂, h₂, h⟩ := exists_ok_of_bind conversation
  obtain ⟨ls₃, s₃, h₃, h⟩ := exists_ok_of_bind h
  simp only [pure, Except.pure, Except.ok.injEq, Prod.mk.injEq] at h
  obtain ⟨rfl, rfl, hobservers⟩ := h
  cases play_run h₂ with
  | cons hsubscribe hnil =>
    cases hnil
    have hadded : (ServerState.initial StdString (faltering (· ≠ 2))).store.observers.length <
        s₂.store.observers.length := by
      rw [hobservers]
      exact Nat.zero_lt_one
    obtain ⟨p, w, n, entries, rs, -, -, attempts, hlabel, -, hconn, -, hlists, -, -, -, hlabels,
      htries, hwrites⟩ := attempted_once .nil hsubscribe (play_run h₃) hadded
    obtain ⟨rfl, -⟩ := Label.handled.inj hlabel
    -- nothing was retained yet
    obtain rfl : entries = [] := by
      refine List.eq_nil_iff_forall_not_mem.mpr fun e he => ?_
      cases (hlists.2 e.1 e.2).mp he
    exact ⟨s₂, s₃, w, n, rs, attempts, play_run h₃, hconn, hlabels, htries, hwrites⟩

/-! ### What a subscription was last sent -/

/-- The payload of the last attempt for a topic, whatever became of it. -/
def lastTried (topic : List UInt8) (attempts : List Attempt) : Option (List UInt8) :=
  ((attempts.filter fun a => a.publish.topic.bytes = topic).getLast?).map Attempt.payload

/-- The payload that was last sent for a topic, behind its header. -/
def lastSent (topic : List UInt8) (attempts : List Attempt) : Option (List UInt8) :=
  lastTried topic (attempts.filter fun a => a.progress = .sent)

/-- An attempt whose writes are accepted is complete. -/
theorem Attempt.sent_of_accepted {a : Attempt} (h : ∀ w ∈ a.writes, w.accepted = true) :
    a.progress = .sent := by
  unfold Attempt.writes at h
  split at h
  · exact absurd (h _ List.mem_cons_self) Bool.false_ne_true
  · exact absurd (h _ (List.mem_cons_of_mem _ List.mem_cons_self)) Bool.false_ne_true
  · assumption

/-- Where no write fails, what was tried was sent. -/
theorem lastSent_of_accepted {attempts : List Attempt}
    (h : ∀ w ∈ attempts.flatMap Attempt.writes, w.accepted = true) (topic : List UInt8) :
    lastSent topic attempts = lastTried topic attempts := by
  rw [lastSent, List.filter_eq_self.mpr]
  intro a ha
  exact decide_eq_true (Attempt.sent_of_accepted fun w hw =>
    h w (List.mem_flatMap.mpr ⟨a, ha, hw⟩))

/-- A string key is sent as itself. -/
theorem decodeKey_string_bytes {key : StdString} {topic : StringBuffer 128}
    (h : KeyType.decodeKey key (.empty 128) = .ok topic) : topic.bytes = key.bytes := by
  have hlength : key.bytes.length ≤ 128 := by
    by_contra hlong
    have hfault : KeyType.decodeKey key (.empty 128) = .error .outOfBounds :=
      if_pos (Nat.lt_of_not_le hlong)
    cases hfault.symm.trans h
  obtain ⟨decoded, hdecode, hbytes, -⟩ := decodeKey_string hlength
  obtain rfl : decoded = topic := Except.ok.inj (hdecode.symm.trans h)
  exact hbytes

/-- The payloads tried for a topic are the values of its key, as far as they are accepted. -/
theorem Tries.payloads {calls : List (Board.Call StdString DataStoreEntry (Subscription StdString))}
    {attempts : List Attempt} (h : Tries calls attempts) (key : StdString) :
    (attempts.filter fun a => a.publish.topic.bytes = key.bytes).map Attempt.payload =
      (calls.filter fun c => c.key = key ∧ c.watcher.matcher c.key).map fun c => c.value.data := by
  induction h with
  | nil => rfl
  | skip hskip _ ih => rw [ih, List.filter_cons, if_neg (by simp [hskip])]
  | @attempt c a calls attempts haccept hsends _ ih =>
      have htopic : a.publish.topic.bytes = key.bytes ↔ c.key = key := by
        rw [decodeKey_string_bytes hsends.topic]
        exact ⟨congrArg StdString.mk, congrArg StdString.bytes⟩
      rw [List.filter_cons, List.filter_cons]
      simp only [htopic, haccept, and_true, decide_eq_true_eq]
      split
      · rw [List.map_cons, List.map_cons, hsends.payload, ih]
      · exact ih

section

variable {W : Type} [Network W] {s : ServerState StdString W} {ls : List Label}

/-- **A subscription mirrors the store.**  In every state a server with string keys reaches,
whatever arrived and whatever failed: each observer that is there is that of a subscription
on a heap copy of its own; the last attempt for a topic its matcher accepts has the payload
that is in the store under that topic now, and there was none for any other topic.  So if no
write on its copy failed, that is what it was last sent. -/
theorem subscribers_mirror {net : W} (h : Run (Step target) (.initial StdString net) ls s) :
    ∀ o ∈ s.store.observers, ∃ (w : Subscription StdString) (n : Nat) (attempts : List Attempt),
      o = w.entry ∧ w.conn.copy = some n ∧
      s.machine.copyWrites n = attempts.flatMap Attempt.writes ∧
      ∀ key, lastTried key.bytes attempts =
          (if w.matcher key then (s.store.get key).map DataStoreEntry.data else none) ∧
        ((∀ wr ∈ s.machine.copyWrites n, wr.accepted = true) →
          lastSent key.bytes attempts =
            if w.matcher key then (s.store.get key).map DataStoreEntry.data else none) := by
  obtain ⟨rs, b, hrun, -, hwritten, h'⟩ :=
    (relays_initial net).run (keysDecode_initial net) h
  have hwritten : s.machine.written = rs.flatMap RelayLabel.writes := hwritten
  have hnumbered := relay_numbered hrun
  have hupToDate := relay_upToDate hrun
  intro o ho
  rw [h'.represents.observers] at ho
  obtain ⟨w, hw, rfl⟩ := List.mem_map.mp ho
  have hcame := hupToDate.watchers.subset hw
  obtain ⟨n, -, hcopy⟩ := hnumbered.made w hcame
  obtain ⟨hwrites, htries⟩ := relay_onCopy hrun n
  have hcopyWrites : s.machine.copyWrites n =
      ((rs.flatMap RelayLabel.attempts).filter (Attempt.onCopy n)).flatMap Attempt.writes := by
    rw [Machine.copyWrites, hwritten, hwrites]
  refine ⟨w, n, _, rfl, hcopy, hcopyWrites, fun key => ?_⟩
  suffices hlast : lastTried key.bytes ((rs.flatMap RelayLabel.attempts).filter
      (Attempt.onCopy n)) =
        if w.matcher key then (s.store.get key).map DataStoreEntry.data else none by
    refine ⟨hlast, fun haccepted => ?_⟩
    rw [lastSent_of_accepted (hcopyWrites ▸ haccepted), hlast]
  have hpayloads := htries.payloads key
  -- the calls on the copy are those of `w`
  have hnamed : Board.named (fun w => w.conn.copy) w = Subscription.ownsCopy n := by
    funext w'
    rw [Board.named, hcopy]
    rfl
  have hown : ∀ c ∈ Board.heard (Subscription.ownsCopy n)
      ((relayOperations rs).flatMap Prod.snd), c.watcher = w := by
    intro c hc
    obtain ⟨hc, hcopy'⟩ := List.mem_filter.mp hc
    exact List.inj_on_of_nodup_map hnumbered.nodup (hupToDate.told_came c hc) hcame
      ((of_decide_eq_true hcopy').trans hcopy.symm)
  have hlatest := hupToDate.latest w hw key
  rw [hnamed] at hlatest
  have hget : s.store.get key = b.board.value key := h'.represents.entries key
  generalize (rs.flatMap RelayLabel.attempts).filter (Attempt.onCopy n) = attempts at hpayloads
  generalize hcalls : Board.heard (Subscription.ownsCopy n)
    ((relayOperations rs).flatMap Prod.snd) = calls at hpayloads hown
  rw [lastTried, ← List.getLast?_map, hpayloads]
  have hfilter : calls.filter (fun c => c.key = key ∧ c.watcher.matcher c.key) =
      if w.matcher key then calls.filter fun c => c.key = key else [] := by
    split
    · next haccept =>
      refine List.filter_congr fun c hc => ?_
      rw [hown c hc]
      by_cases hkey : c.key = key
      · simp [hkey, haccept]
      · simp [hkey]
    · next hreject =>
      refine List.filter_eq_nil_iff.mpr fun c hc hboth => hreject ?_
      obtain ⟨hkey, haccept⟩ := of_decide_eq_true hboth
      rw [← hkey, ← hown c hc]
      exact haccept
  rw [hfilter]
  split
  · rw [hget, ← hlatest, Board.lastOf, Board.told, ← Board.heard, hcalls, List.filter_map,
      List.getLast?_map, List.getLast?_map, Option.map_map, Option.map_map]
    rfl
  · rfl

end

/-- After the same run the last attempt of the subscription to `a` is for `hi`. -/
theorem subscribers_mirror_faltering :
    ∃ (s : ServerState StdString Net) (n : Nat) (attempts : List Attempt),
      s.store.observers.map ObserverEntry.clientId = [7] ∧
      s.machine.copyWrites n = attempts.flatMap Attempt.writes ∧
      ∃ matcher : StdString → Bool, ∀ key, lastTried key.bytes attempts =
        if matcher key then (s.store.get key).map DataStoreEntry.data else none := by
  obtain ⟨ls, s, h, hview⟩ := exists_ok_of_map (t := publishTwice (· ≠ 2))
    (g := fun r => r.2.store.observers.map ObserverEntry.clientId) (c := [7]) (by decide +kernel)
  obtain ⟨o, ho, -⟩ := List.mem_map.mp (hview ▸ List.mem_cons_self : (7 : UInt32) ∈
    s.store.observers.map ObserverEntry.clientId)
  obtain ⟨w, n, attempts, -, -, hwrites, hmirror⟩ := subscribers_mirror (play_run h) o ho
  exact ⟨s, n, attempts, hview, hwrites, w.matcher, fun key => (hmirror key).1⟩

end Gnat
