/-
Gnat/Readable.lean

Which frames stop the broker.

A frame is readable if it carries a well-formed message, or if its parser gives up
before it comes to the end of the body: at a protocol name or a topic that is too
long, at a filter with a `+`; a SUBSCRIBE without filters is readable as well.
That is all: an ordinary build of the server returns from a list of complete frames
if and only if each of them is readable, and the first one that is not stops it on
the assertion of `Packet::Read` (`frames_processed_iff`).
-/
import Gnat.Endings
import Gnat.Frames

namespace Gnat

open Lib Prog StreamNetwork

/-- The parser of the frame's type does not come to the end of the body too early. -/
inductive Frame.Readable (f : Frame) : Prop
  | message (msg : Message) : f.Carries msg → msg.WellFormed → Readable f
  | longName : f.type = .connect → LongString 6 f.body → Readable f
  | longTopic : f.type = .publish → LongString 128 f.body → Readable f
  | noFilter (packetId : UInt16) : f.type = .subscribe →
      f.body = wireBytes packetId.toNat → Readable f
  | filter (packetId : UInt16) (filters : List Filter) (more : List UInt8) (copies : Nat) :
      f.type = .subscribe → (∀ g ∈ filters, g.Accepted) →
      f.body = (Message.subscribe packetId filters).body 0 ++ more → StopsAt more copies →
      Readable f

/-- What the server returns from is readable. -/
theorem Malformed.readable {conn : ClientConnection} {f : Frame} {status : Status}
    {replies : List Write} {copies : Nat} (h : Malformed conn f status replies copies) :
    f.Readable := by
  cases h with
  | connect hf hlong => exact .longName hf hlong
  | publish hf hlong => exact .longTopic hf hlong
  | noFilter hf hbody => exact .noFilter _ hf hbody
  | filter hf hall hbody hstops => exact .filter _ _ _ _ hf hall hbody hstops

section

variable {W : Type} [ReliableNetwork W] {conn : ClientConnection} {n : Nat}
variable {body more rest : List UInt8} {p : Packet} {m : Machine W} {E : Fault → Prop}

/-! ### Parsers that give up -/

/-- A string that does not fit is not read, whatever follows its length. -/
theorem At.readString_tooLong {size : Nat} (out : StringBuffer size)
    (h : At conn n body rest p m) (hlong : LongString size body) :
    wp (Gnat.readString out p) (fun r _ => r.1 = false) E m := by
  obtain ⟨high, low, more, rfl, hlong⟩ := hlong
  have h : At conn n ([high, low] ++ more) rest p m := h
  simp only [Gnat.readString, wp_bind]
  refine wp_imp (h.client_read 2 rfl) ?_
  rintro ⟨_, p₁⟩ m₁ ⟨rfl, h₁⟩
  show wp (readStringBytes out (wireUInt16 high low) p₁) _ E m₁
  rw [readStringBytes, wp_ite, if_pos hlong]
  rfl

/-- The loop needs a round for what stops it. -/
theorem StopsAt.length_pos {copies : Nat} (h : StopsAt more copies) : 0 < more.length := by
  cases h with
  | long hlong =>
      obtain ⟨high, low, more, rfl, -⟩ := hlong
      exact Nat.succ_pos _
  | plus =>
      rw [List.length_append, length_wireString]
      omega

variable {K : Type} [KeyType K] {target : Target}

/-- The loop of `Subscribe::ReadFrom` stops where a filter is refused, and not on the
assertion. -/
theorem At.readTopics_stops {filters : List Filter} {copies fuel : Nat}
    {topic : StringBuffer 128} {captured : Captured K W}
    (hall : ∀ f ∈ filters, f.Accepted) (hstops : StopsAt more copies)
    (h : At conn n (filters.flatMap Filter.bytes ++ more) rest p m)
    (hfuel : (filters.flatMap Filter.bytes ++ more).length ≤ fuel) :
    wp (Subscribe.readTopics (topicCallback target conn) fuel topic captured p)
      (fun r _ => r.1 = false) (· ≠ .packetReadAssert) m := by
  have hmore := hstops.length_pos
  induction filters generalizing fuel topic captured p m n with
  | nil =>
      have h : At conn n more rest p m := h
      have hfuel : more.length ≤ fuel := hfuel
      obtain ⟨fuel, rfl⟩ : ∃ k, fuel = k + 1 := ⟨fuel - 1, by omega⟩
      rw [Subscribe.readTopics, wp_ite, if_pos (by rw [h.size]; exact hmore)]
      simp only [wp_bind]
      cases hstops with
      | long hlong =>
          refine wp_imp (h.readString_tooLong topic hlong) ?_
          rintro ⟨_, _, p₁⟩ m₁ rfl
          rfl
      | plus hlength hplus =>
          refine wp_imp (h.readString topic hlength (by decide)) ?_
          rintro ⟨_, _, p₁⟩ m₁ ⟨rfl, rfl, h₁⟩
          rw [if_pos rfl, wp_bind, StringBuffer.bytes_fill hlength, wp_topicCallback,
            if_pos hplus]
          rfl
  | cons f filters ih =>
      obtain ⟨⟨hlength, hplus⟩, hall⟩ := List.forall_mem_cons.mp hall
      rw [List.flatMap_cons, List.append_assoc, List.length_append, Filter.length_bytes] at hfuel
      have h : At conn n (wireString f.topic ++ f.options ::
          (filters.flatMap Filter.bytes ++ more)) rest p m := by
        simpa only [List.flatMap_cons, Filter.bytes, List.append_assoc, List.cons_append,
          List.nil_append] using h
      have hpos : 0 < p.bytesRemaining := by
        rw [h.size, List.length_append, length_wireString]
        omega
      obtain ⟨fuel, rfl⟩ : ∃ k, fuel = k + 1 := ⟨fuel - 1, by omega⟩
      rw [Subscribe.readTopics, wp_ite, if_pos hpos]
      simp only [wp_bind]
      refine wp_imp (h.readString topic hlength (by decide)) ?_
      rintro ⟨_, _, p₁⟩ m₁ ⟨rfl, rfl, h₁⟩
      rw [if_pos rfl, wp_bind, StringBuffer.bytes_fill hlength, wp_topicCallback, if_neg hplus]
      split
      swap
      · next e he =>
        rw [KeyType.encodeKey_fault he]
        decide
      next key hkey =>
      have h₂ : At conn (n + 1) (f.options :: (filters.flatMap Filter.bytes ++ more)) rest p₁
          { m₁ with heapCopies := m₁.heapCopies + 1 } :=
        ⟨h₁.connection, h₁.size, h₁.front, congrArg (· + 1) h₁.heapCopies⟩
      rw [if_pos rfl, wp_bind]
      refine wp_imp (h₂.readUInt8 0) ?_
      rintro ⟨_, _, p₃⟩ m₃ ⟨rfl, rfl, h₃⟩
      rw [if_pos rfl]
      exact ih hall h₃ (by omega)

/-! ### Handling a readable frame -/

variable [DecidableEq K] {env : Env K} {store : Store K W} {f : Frame}

theorem handleConnect_longName (hlong : LongString 6 f.body)
    (h : At conn n f.body rest (f.packet conn) m) :
    wp (handleConnect target (f.packet conn)) (fun _ _ => True) (· ≠ .packetReadAssert) m := by
  simp only [handleConnect, Connect.readFrom, wp_bind]
  refine wp_imp (h.readString_tooLong _ hlong) ?_
  rintro ⟨_, name, p₁⟩ m₁ rfl
  rw [if_neg Bool.false_ne_true, wp_pure, wp_ofExcept]
  split
  · refine wp_imp (ConnectAck.sendOn_wrote _) ?_
    rintro _ m₂ ⟨rfl, -⟩
    trivial
  · next e he =>
    rw [protocolLevelOf] at he
    split at he <;> cases he
    decide

theorem handlePublish_longTopic (hlong : LongString 128 f.body)
    (h : At conn n f.body rest (f.packet conn) m) :
    wp (handlePublish env store (f.packet conn)) (fun _ _ => True) (· ≠ .packetReadAssert)
      m := by
  simp only [handlePublish, Publish.readFrom, wp_bind]
  refine wp_imp (h.readString_tooLong _ hlong) ?_
  rintro ⟨_, topic, p₁⟩ m₁ rfl
  trivial

omit [DecidableEq K] in
theorem handleSubscribe_noFilter {packetId : UInt16} (hbody : f.body = wireBytes packetId.toNat)
    (h : At conn n f.body rest (f.packet conn) m) :
    wp (handleSubscribe env store (f.packet conn)) (fun _ _ => True) (· ≠ .packetReadAssert)
      m := by
  have h : At conn n ((Message.subscribe packetId []).body 0) rest (f.packet conn) m := by
    rw [hbody] at h
    simpa [Message.body] using h
  simp only [handleSubscribe, wp_bind]
  rw [show (f.packet conn).connection = conn from rfl]
  refine wp_mono (h.subscribe (List.forall_mem_nil _)) ?_ ?_
  · rintro ⟨_, captured, p₁⟩ m₁ (⟨⟨subscribe, rfl, -⟩, rfl, h₁⟩ | ⟨rfl, -⟩)
    · rw [wp_bind]
      refine wp_imp (SubscribeAck.sendOn_wrote subscribe.packetId) ?_
      rintro _ m₂ ⟨rfl, -⟩
      trivial
    · trivial
  · exact fun _ hnot => absurd (List.forall_mem_nil _) hnot

omit [DecidableEq K] in
theorem handleSubscribe_filter {packetId : UInt16} {filters : List Filter} {copies : Nat}
    (hall : ∀ g ∈ filters, g.Accepted) (hstops : StopsAt more copies)
    (hbody : f.body = (Message.subscribe packetId filters).body 0 ++ more)
    (h : At conn n f.body rest (f.packet conn) m) :
    wp (handleSubscribe env store (f.packet conn)) (fun _ _ => True) (· ≠ .packetReadAssert)
      m := by
  rw [hbody, Message.body, List.append_assoc] at h
  simp only [handleSubscribe, Subscribe.readFrom, wp_bind]
  rw [show (f.packet conn).connection = conn from rfl]
  refine wp_imp (h.readUInt16 _) ?_
  rintro ⟨_, _, p₁⟩ m₁ ⟨rfl, rfl, h₁⟩
  rw [if_pos rfl, wp_bind]
  refine wp_imp (h₁.readTopics_stops hall hstops (Nat.le_of_eq h₁.size.symm)) ?_
  rintro ⟨_, captured, p₂⟩ m₂ rfl
  trivial

end

/-! ### Turns on frames -/

variable {W : Type} [ReliableNetwork W] {K : Type} [DecidableEq K] [KeyType K]
variable {b : Broker K} {s s' : ServerState K W}

theorem Simulates.served (h : Simulates b s) : Served s.store :=
  ⟨b.board.watchers, h.represents.observers⟩

theorem Simulates.keysDecode (h : Simulates b s) : KeysDecode s.store := by
  intro key hkey
  obtain ⟨entry, hentry⟩ := Option.isSome_iff_exists.mp (AList.lookup_isSome.mpr hkey)
  obtain ⟨topic, hdecode, hlength, -⟩ :=
    h.wellFormed.deliverable key entry ((h.represents.entries key).symm.trans hentry)
  exact ⟨topic, hdecode, hlength⟩

variable [LawfulKeyType K] [PortableKeyType K]

/-- A turn of an ordinary build on a frame returns, or stops on the assertion. -/
theorem Simulates.processFrame_ends (h : Simulates b s) (target : Target)
    (e : FrameEvent K) :
    (∃ status s', e.process target.ordinary s = .ok (status, s')) ∨
      e.process target.ordinary s = .error .packetReadAssert := by
  cases e with
  | remove clientId => exact .inl ⟨_, _, rfl⟩
  | frame a order =>
      have hends := serve_ordinary_ends (m := s.machine.receive a) (a.turn target order)
        h.served h.keysDecode
      rcases hrun : Gnat.serve (a.turn target.ordinary order) s.store (s.machine.receive a) with
        e | ⟨⟨handled, store'⟩, m'⟩
      · have he : e = .packetReadAssert := by
          rw [wp, show Gnat.serve (a.turn target order).ordinary s.store (s.machine.receive a) =
            .error e from hrun] at hends
          exact hends
        refine .inr ?_
        rw [FrameEvent.process, hrun, he]
        rfl
      · refine .inl ⟨handled.map Prod.snd, ⟨store', m'⟩, ?_⟩
        rw [FrameEvent.process, hrun]
        rfl

omit [LawfulKeyType K] [PortableKeyType K] in
/-- A turn does not fail on the assertion before it handles its packet. -/
theorem Simulates.process_ne_assert (h : Simulates b s) {target : Target} {a : FrameArrival}
    {order : IterationOrder K}
    (hhandle : ∀ m₁, At a.conn b.copies a.frame.body [] (a.frame.packet a.conn) m₁ →
      wp (handleMessage (a.turn target order).env s.store (a.frame.packet a.conn))
        (fun _ _ => True) (· ≠ .packetReadAssert) m₁) :
    (FrameEvent.frame a order).process target s ≠ .error .packetReadAssert := by
  have hin : input a.conn.socket (s.machine.receive a).net =
      a.frame.header ++ (a.frame.body ++ []) := by
    rw [List.append_nil]
    show input a.conn.socket (ReliableNetwork.arrive _ _ _) = a.frame.bytes
    rw [ReliableNetwork.arrive_input, h.idle, List.nil_append]
  have hserve : wp (Gnat.serve (a.turn target order) s.store) (fun _ _ => True)
      (· ≠ .packetReadAssert) (s.machine.receive a) := by
    unfold Gnat.serve
    rw [wp_bind]
    refine wp_imp (readNext_frame a.frame hin) ?_
    rintro _ m₁ ⟨rfl, h₁⟩
    rw [wp_bind, show (a.turn target order).before = 0 from rfl, wp_relocateTimes, wp_bind]
    refine wp_imp (hhandle m₁ ⟨rfl, rfl, h₁.rest hin, h₁.heapCopies.trans h.copies⟩) ?_
    rintro ⟨status, p', store'⟩ m₂ -
    rw [wp_bind, show (a.turn target order).after = 0 from rfl, wp_relocateTimes, wp_bind]
    exact wp_imp (destroy_onlyNet p' m₂) fun _ _ _ => trivial
  intro herror
  rcases hrun : Gnat.serve (a.turn target order) s.store (s.machine.receive a) with e | r
  · rw [wp, hrun] at hserve
    rw [FrameEvent.process, hrun] at herror
    exact hserve (Except.error.inj herror)
  · rw [FrameEvent.process, hrun] at herror
    cases herror

omit [DecidableEq K] [LawfulKeyType K] in
/-- An ordinary build can make the keys of any message. -/
theorem encodable_ordinary (target : Target) (msg : Message) :
    msg.Encodable K target.ordinary := by
  cases msg with
  | publish topic packetId payload => exact PortableKeyType.encodes target topic topic.length
  | subscribe packetId filters => exact fun f _ => PortableKeyType.encodes target f.topic _
  | _ => trivial

/-- **One frame**: the server returns if and only if it is readable. -/
theorem Simulates.processFrame_iff (h : Simulates b s) (target : Target) (a : FrameArrival)
    (order : IterationOrder K) :
    (∃ status s', (FrameEvent.frame a order).process target.ordinary s = .ok (status, s')) ↔
      a.frame.Readable := by
  constructor
  · rintro ⟨status, s', hok⟩
    obtain ⟨l, b', hstep, hevent, -⟩ := h.processFrame hok
    cases hstep with
    | carried carries wellFormed =>
        obtain ⟨rfl, -⟩ := FrameEvent.frame.inj hevent
        exact .message _ carries wellFormed
    | malformed _ hmalformed =>
        obtain ⟨rfl, -⟩ := FrameEvent.frame.inj hevent
        exact hmalformed.readable
    | removed => cases hevent
  · intro hreadable
    have hends := h.processFrame_ends target (.frame a order)
    have hreturns : (FrameEvent.frame a order).process target.ordinary s ≠
        .error .packetReadAssert → ∃ status s',
          (FrameEvent.frame a order).process target.ordinary s = .ok (status, s') :=
      fun hne => hends.resolve_right hne
    have htype : (a.frame.packet a.conn).type = a.frame.type := rfl
    cases hreadable with
    | message msg carries wellFormed =>
        rw [process_carrying _ _ _ _ carries wellFormed]
        apply (h.process target.ordinary _).2
        intro a' order' heq
        obtain ⟨rfl, -⟩ := Event.packet.inj heq
        exact encodable_ordinary target msg
    | longName hf hlong =>
        refine hreturns (h.process_ne_assert fun m₁ hat => ?_)
        simp only [handleMessage, htype, hf, wp_bind]
        exact wp_imp (handleConnect_longName hlong hat) fun _ _ _ => trivial
    | longTopic hf hlong =>
        refine hreturns (h.process_ne_assert fun m₁ hat => ?_)
        simp only [handleMessage, htype, hf]
        exact handlePublish_longTopic hlong hat
    | noFilter packetId hf hbody =>
        refine hreturns (h.process_ne_assert fun m₁ hat => ?_)
        simp only [handleMessage, htype, hf]
        exact handleSubscribe_noFilter hbody hat
    | filter packetId filters more copies hf hall hbody hstops =>
        refine hreturns (h.process_ne_assert fun m₁ hat => ?_)
        simp only [handleMessage, htype, hf]
        exact handleSubscribe_filter hall hstops hbody hat

/-- The frames of a list of events are readable. -/
def AllReadable (events : List (FrameEvent K)) : Prop :=
  ∀ a order, .frame a order ∈ events → a.frame.Readable

omit [DecidableEq K] [KeyType K] [LawfulKeyType K] [PortableKeyType K] in
theorem allReadable_cons {e : FrameEvent K} {events : List (FrameEvent K)} :
    AllReadable (e :: events) ↔
      (∀ a order, e = .frame a order → a.frame.Readable) ∧ AllReadable events := by
  constructor
  · intro h
    exact ⟨fun a order he => h a order (he ▸ List.mem_cons_self),
      fun a order hmem => h a order (List.mem_cons_of_mem e hmem)⟩
  · rintro ⟨hhead, htail⟩ a order hmem
    rcases List.mem_cons.mp hmem with heq | hmem
    · exact hhead a order heq.symm
    · exact htail a order hmem

/-- **A list of frames**: the server returns if and only if each is readable, and stops on
the assertion otherwise. -/
theorem Simulates.processFrames_iff (h : Simulates b s) (target : Target)
    (events : List (FrameEvent K)) :
    ((∃ r, Gnat.processFrames target.ordinary s events = .ok r) ↔ AllReadable events) ∧
      (¬ AllReadable events →
        Gnat.processFrames target.ordinary s events = .error .packetReadAssert) := by
  induction events generalizing b s with
  | nil =>
      have hnil : AllReadable ([] : List (FrameEvent K)) := fun _ _ hmem => by cases hmem
      exact ⟨iff_of_true ⟨_, rfl⟩ hnil, fun hnot => absurd hnil hnot⟩
  | cons e events ih =>
      have hhead : (∃ status s', e.process target.ordinary s = .ok (status, s')) ↔
          ∀ a order, e = .frame a order → a.frame.Readable := by
        cases e with
        | frame a order =>
            rw [h.processFrame_iff target a order]
            constructor
            · intro hreadable a' order' heq
              obtain ⟨rfl, -⟩ := FrameEvent.frame.inj heq
              exact hreadable
            · exact fun hall => hall a order rfl
        | remove clientId => exact iff_of_true ⟨_, _, rfl⟩ fun _ _ heq => by cases heq
      rw [allReadable_cons, ← hhead]
      rcases h.processFrame_ends target e with ⟨status, s₁, hok⟩ | herror
      · obtain ⟨_, b₁, -, -, -, -, h₁⟩ := h.processFrame hok
        obtain ⟨hiff, hstops⟩ := ih h₁
        have hrest : Gnat.processFrames target.ordinary s (e :: events) =
            (Gnat.processFrames target.ordinary s₁ events >>= fun r =>
              pure (status :: r.1, r.2)) := by
          rw [Gnat.processFrames, hok]
          rfl
        rw [hrest]
        constructor
        · rw [and_iff_right ⟨status, s₁, hok⟩, ← hiff]
          rcases Gnat.processFrames target.ordinary s₁ events with e' | r
          · exact iff_of_false (fun ⟨_, hr⟩ => by cases hr) fun ⟨_, hr⟩ => by cases hr
          · exact iff_of_true ⟨_, rfl⟩ ⟨_, rfl⟩
        · intro hnot
          rw [hstops fun hall => hnot ⟨⟨status, s₁, hok⟩, hall⟩]
          rfl
      · have hrest : Gnat.processFrames target.ordinary s (e :: events) =
            .error .packetReadAssert := by
          rw [Gnat.processFrames, herror]
          rfl
        rw [hrest]
        refine ⟨iff_of_false (fun ⟨_, hr⟩ => by cases hr) ?_, fun _ => rfl⟩
        rintro ⟨⟨status, s', hok⟩, -⟩
        cases herror.symm.trans hok

/-- **Which frames stop the broker.**  On a reliable network, from its start, an ordinary
build of the server returns from a list of complete frames if and only if each of them is
readable, and otherwise it stops on the assertion of `Packet::Read`. -/
theorem frames_processed_iff (target : Target) {net : W}
    (hnet : ∀ socket, input socket net = []) (events : List (FrameEvent K)) :
    ((∃ r, processFrames target.ordinary (.initial K net) events = .ok r) ↔
      AllReadable events) ∧
    (¬ AllReadable events →
      processFrames target.ordinary (.initial K net) events = .error .packetReadAssert) :=
  (simulates_initial hnet).processFrames_iff target events

theorem cutTopicBody_short : [(0 : UInt8), 2, 0x61].length ≤ 100 := by decide

/-- The frames of `mixedFrames`, and a PUBLISH whose topic ends early. -/
def stoppingFrames : List (FrameEvent StdString) :=
  mixedFrames ++ [.frame (.short 1 7 0x30 [0, 2, 0x61] cutTopicBody_short) (.asKept StdString)]

theorem frames_processed_iff_mixed : AllReadable mixedFrames ∧ ¬ AllReadable stoppingFrames := by
  have hiff : ∀ events : List (FrameEvent StdString),
      (∃ r, processFrames (Target.ordinary {}) (.initial StdString ({} : Wire)) events = .ok r) ↔
        AllReadable events :=
    fun events => (frames_processed_iff {} (fun _ => rfl) events).1
  constructor
  · rw [← hiff]
    obtain ⟨statuses, s', hok, -⟩ := exists_ok_of_map
      (t := processFrames (Target.ordinary {}) (.initial StdString ({} : Wire)) mixedFrames)
      (g := fun _ => ()) (c := ()) (by decide +kernel)
    exact ⟨(statuses, s'), hok⟩
  · rw [← hiff]
    rintro ⟨r, hok⟩
    have hnone : (processFrames (Target.ordinary {}) (.initial StdString ({} : Wire))
        stoppingFrames).toOption.isNone = true := by decide +kernel
    rw [hok] at hnone
    cases hnone

end Gnat
