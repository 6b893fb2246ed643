/-
Gnat/Endings.lean

How a turn of the server loop can end.

With string keys a turn returns, or it stops on the assertion of `Packet::Read`, or
a sanitizer reports an undefined value: in no state the loop can reach, on no
network and for nothing a client sends, does it leave an array, fail the assertion
of `Publish::SendOn`, or loop for ever.  What keeps the keys within the topic buffer
is the invariant of `Gnat.Bounds`; the two loops end because each round that goes
on has consumed something of the finitely many bytes a peer has sent
(`readVariableByteLoop_returns`, `Subscribe.readTopics_ends`).  The sanitizer builds
follow from the ordinary ones by `Gnat.Portable`.  With 64-bit keys a turn ends in
the same ways, but `strlen` may read behind a key (`Gnat.Overread`).
-/
import Gnat.FilterList
import Gnat.Portable

namespace Gnat

open Lib Prog

variable {W : Type} [Network W]

/-- The faults an ordinary build may stop with, as far as its code alone tells. -/
def Fault.Expected (e : Fault) : Prop :=
  e = .packetReadAssert ∨ e.Overruns

instance (e : Fault) : Decidable e.Expected := by
  unfold Fault.Expected; infer_instance

/-! ### Reading a header -/

theorem intMul_ordinary (target : Target) (a b : Int) :
    ∃ c, target.ordinary.intMul a b = .ok c := by
  unfold Target.intMul
  split
  · exact ⟨_, rfl⟩
  · exact ⟨_, if_neg (by simp [Target.ordinary])⟩

/-- The rounds of `ReadVariableByteInteger` end: each that goes on has consumed a
byte of what is pending. -/
theorem readVariableByteLoop_returns (target : Target) (conn : ClientConnection) {fuel : Nat}
    (multiplier : Int) (out : Nat) {m : Machine W}
    (hfuel : Network.pending conn.socket m.net < fuel) :
    wp (readVariableByteLoop target.ordinary conn fuel multiplier out) (fun _ _ => True)
      (fun _ => False) m := by
  induction fuel generalizing multiplier out m with
  | zero => exact absurd hfuel (Nat.not_lt_zero _)
  | succ fuel ih =>
      simp only [readVariableByteLoop, wp_bind, wp_read]
      rcases hread : Network.read conn.socket 1 m.net with ⟨- | next, w⟩
      · trivial
      have hpending : Network.pending conn.socket w + 1 ≤ Network.pending conn.socket m.net :=
        Network.read_pending hread
      obtain ⟨product, hproduct⟩ :=
        intMul_ordinary target (next.head.toNat % 128 : Nat) multiplier
      obtain ⟨multiplier', hmultiplier⟩ := intMul_ordinary target multiplier 128
      simp only [wp_bind, wp_ofExcept, hproduct, hmultiplier, wp_ite]
      split
      · trivial
      · exact ih _ _ (show Network.pending conn.socket w < fuel by omega)

theorem readVariableByteInteger_returns (target : Target) (conn : ClientConnection)
    (m : Machine W) :
    wp (readVariableByteInteger target.ordinary conn) (fun _ _ => True) (fun _ => False) m := by
  have hloop := readVariableByteLoop_returns target conn 1 0
    (Nat.lt_succ_self (Network.pending conn.socket m.net))
  unfold wp at hloop ⊢
  rw [readVariableByteInteger]
  exact hloop

theorem readNext_returns (target : Target) (conn : ClientConnection) (m : Machine W) :
    wp (Packet.readNext target.ordinary conn) (fun _ _ => True) (fun _ => False) m := by
  simp only [Packet.readNext, FixedHeader.readFrom, readUInt8, readBytes, readBytesLoop,
    wp_bind, wp_client_read, wp_pure, if_true]
  refine wp_imp (readVariableByteInteger_returns target conn _) ?_
  rintro ⟨- | -, remainingSize⟩ m₁ - <;> trivial

/-! ### The parsers -/

section

variable {γ : Type} {callback : γ → List UInt8 → ServerM W (Bool × γ)} {E : Fault → Prop}

/-- The loop of `Subscribe::ReadFrom` adds no fault of its own. -/
theorem Subscribe.stops_readTopics (hE : E .packetReadAssert) (hfuel : E .outOfFuel)
    (hcb : ∀ captured topic, StopsOnly (callback captured topic) E) (fuel : Nat)
    (topic : StringBuffer 128) (captured : γ) (p : Packet) :
    StopsOnly (readTopics callback fuel topic captured p) E := by
  induction fuel generalizing topic captured p with
  | zero =>
      rw [readTopics]
      exact StopsOnly.ite (fun _ => stopsOnly_throw hfuel) fun _ => stopsOnly_pure
  | succ fuel ih =>
      rw [readTopics]
      refine StopsOnly.ite (fun _ => ?_) fun _ => stopsOnly_pure
      apply (stops_readString hE topic p).bind
      rintro ⟨- | -, topic₁, p₁⟩
      · exact stopsOnly_pure
      apply (hcb captured topic₁.bytes).bind
      rintro ⟨- | -, captured₂⟩
      · exact stopsOnly_pure
      apply (stops_readUInt8 hE _ p₁).bind
      rintro ⟨- | -, flags, p₃⟩
      · exact stopsOnly_pure
      · exact ih topic₁ captured₂ p₃

theorem Subscribe.stops_readFrom (hcb : ∀ captured topic, StopsOnly (callback captured topic)
    Fault.Expected) (captured : γ) (p : Packet) :
    StopsOnly (readFrom callback captured p) Fault.Expected := by
  intro m
  have hstops : StopsOnly (readFrom callback captured p)
      fun e => e.Expected ∨ e = .outOfFuel := by
    apply (stops_readUInt16 (.inl (.inl rfl)) _ p).bind
    rintro ⟨- | -, packetId, p₁⟩
    · exact stopsOnly_pure
    refine (stops_readTopics (.inl (.inl rfl)) (.inr rfl) (fun captured topic m => ?_) _ _
      captured p₁).bind ?_
    · exact wp_mono (hcb captured topic m) (fun _ _ h => h) fun _ he => .inl he
    · rintro ⟨- | -, captured₂, p₂⟩ <;> exact stopsOnly_pure
  -- the loop ends before the fuel does
  have hends : readFrom callback captured p m ≠ .error .outOfFuel := by
    refine readFrom_ends (fun captured topic m herror => ?_) captured p m
    have hcall := hcb captured topic m
    rw [wp, herror] at hcall
    have hfuel : Fault.outOfFuel.Expected := hcall
    exact absurd hfuel (by decide)
  rcases hrun : readFrom callback captured p m with e | r
  · have he := hstops m
    rw [wp, hrun] at he ⊢
    exact he.resolve_right fun hfuel => hends (by rw [hrun, hfuel])
  · rw [wp, hrun]
    trivial

end

/-! ### The handlers of an ordinary build -/

theorem expected_read : Fault.packetReadAssert.Expected := .inl rfl

theorem Connect.stops_readFrom (target : Target) (p : Packet) :
    StopsOnly (Connect.readFrom target p : ServerM W _) Fault.Expected := by
  apply (stops_readString expected_read _ p).bind
  rintro ⟨- | -, name, p₁⟩
  · exact stopsOnly_pure
  apply (stops_readUInt8 expected_read _ p₁).bind
  rintro ⟨- | -, level, p₂⟩
  · exact stopsOnly_pure
  apply (stops_readUInt8 expected_read _ p₂).bind
  rintro ⟨- | -, flags, p₃⟩
  · exact stopsOnly_pure
  apply (stops_readUInt16 expected_read _ p₃).bind
  rintro ⟨- | -, keepAlive, p₄⟩ <;> exact stopsOnly_pure

theorem Publish.stops_readFrom (p : Packet) (flags : UInt8) :
    StopsOnly (Publish.readFrom p flags : ServerM W _) Fault.Expected := by
  apply (stops_readString expected_read _ p).bind
  rintro ⟨- | -, topic, p₁⟩
  · exact stopsOnly_pure
  refine StopsOnly.ite (fun _ => StopsOnly.ite (fun _ => ?_) fun _ => stopsOnly_pure)
    fun _ => stopsOnly_pure
  apply (stops_readUInt16 expected_read _ p₁).bind
  rintro ⟨- | -, id, p₂⟩ <;> exact stopsOnly_pure

theorem stops_write (conn : ClientConnection) (bytes : List UInt8) {E : Fault → Prop} :
    StopsOnly (conn.write bytes : ServerM W Bool) E := fun _ => trivial

theorem stops_sendOn (publish : Publish) (conn : ClientConnection) (payload : List UInt8) :
    StopsOnly (publish.sendOn conn payload : ServerM W Bool) Fault.Expected := by
  have hheader : ∀ bytes, StopsOnly (conn.writePartial bytes : ServerM W Bool)
      Fault.Expected := fun _ _ => trivial
  unfold Publish.sendOn
  split
  · exact stopsOnly_throw (by decide)
  · refine (stopsOnly_check (by decide)).bind fun _ => (hheader _).bind fun _ => ?_
    exact StopsOnly.ite (fun _ => stops_write _ _) fun _ => stopsOnly_pure

variable {K : Type} [KeyType K]

theorem stops_observer (matcher : K → Bool) (conn : ClientConnection) (key : K)
    (entry : DataStoreEntry) :
    StopsOnly (observer matcher conn key entry : ServerM W Bool) Fault.Expected := by
  refine StopsOnly.ite (fun _ => ?_) fun _ => stopsOnly_pure
  refine (stopsOnly_ofExcept fun e he => ?_).bind fun topic => ?_
  · rw [KeyType.decodeKey_fault he]
    decide
  · apply (stops_sendOn _ conn entry.data).bind
    rintro (- | -) <;> exact stopsOnly_pure

omit [Network W] in
theorem stops_encodeKey [PortableKeyType K] (target : Target) (decoded : List UInt8)
    (bytes : Nat) :
    StopsOnly (Prog.ofExcept (KeyType.encodeKey target.ordinary decoded bytes) : ServerM W K)
      Fault.Expected := by
  obtain ⟨key, hkey⟩ := PortableKeyType.encodes (K := K) target decoded bytes
  rw [hkey]
  exact fun _ => trivial

variable [DecidableEq K] {env : Env K} {store : Store K W} {p : Packet}

omit [DecidableEq K] [KeyType K] in
theorem stops_handleConnect (target : Target) (p : Packet) :
    StopsOnly (handleConnect target.ordinary p : ServerM W _) Fault.Expected := by
  apply (Connect.stops_readFrom target.ordinary p).bind
  rintro ⟨connect, p₁⟩
  refine (stopsOnly_ofExcept fun e he => ?_).bind fun level => StopsOnly.bind ?_ ?_
  · cases connect <;> cases he
  · rw [ConnectAck.sendOn_eq]
    exact stops_write _ _
  · rintro (- | -) <;> exact stopsOnly_pure

theorem stops_handlePublish [PortableKeyType K] (hserved : Served store) :
    StopsOnly (handlePublish env.ordinary store p) Fault.Expected := by
  obtain ⟨subs, hsubs⟩ := hserved
  apply (Publish.stops_readFrom p p.typeFlags).bind
  rintro ⟨- | publish, p₁⟩
  · exact stopsOnly_pure
  apply (stops_client_read expected_read p₁ publish.payloadBytes).bind
  rintro ⟨- | data, p₂⟩
  · exact stopsOnly_pure
  refine (stops_encodeKey env.target _ _).bind fun key => StopsOnly.bind ?_ fun store' =>
    stopsOnly_pure
  rw [DataStore.set_eq, hsubs]
  refine (StopsOnly.forM fun o ho => ?_).bind fun _ => stopsOnly_pure
  obtain ⟨sub, -, rfl⟩ := List.mem_map.mp ho
  exact (stops_observer sub.matcher sub.conn _ _).bind fun _ => stopsOnly_pure

omit [DecidableEq K] in
theorem stops_topicCallback [PortableKeyType K] (target : Target) (conn : ClientConnection)
    (captured : Captured K W) (topic : List UInt8) :
    StopsOnly (topicCallback target.ordinary conn captured topic) Fault.Expected := by
  have hcopy : StopsOnly (conn.createHeapCopy : ServerM W _) Fault.Expected := fun _ => trivial
  refine hcopy.bind fun connectionHeap => StopsOnly.ite (fun _ => stopsOnly_pure) fun _ => ?_
  exact (stops_encodeKey target _ _).bind fun _ => stopsOnly_pure

omit [DecidableEq K] in
theorem stops_handleSubscribe [PortableKeyType K] :
    StopsOnly (handleSubscribe env.ordinary store p) Fault.Expected := by
  apply (Subscribe.stops_readFrom (stops_topicCallback env.target p.connection) none p).bind_of
    (P := fun r => CapturesSubscription env.target.ordinary p.connection r.2.1)
  · intro m
    exact wp_imp (Subscribe.readFrom_reads (topicCallback_quiet env.target.ordinary p.connection)
      none p m (by rintro _ ⟨⟩)) fun r _ h => h.1
  rintro ⟨- | subscribe, captured, p₁⟩ hcaptured
  · exact stopsOnly_pure
  refine StopsOnly.bind ?_ ?_
  · obtain ⟨c, size, hc, -⟩ := SubscribeAck.frame_sent
      { subscribePacketId := subscribe.packetId, responsesCount := 1 }
      (List.Vector.replicate 32 0) (show (1 : UInt8).toNat ≤ 28 by decide)
    rw [SubscribeAck.sendOn, hc]
    exact stops_write _ _
  rintro (- | -)
  · exact stopsOnly_pure
  rcases captured with - | handler
  · exact stopsOnly_pure
  obtain ⟨filter, key, n, -, -, rfl⟩ := hcaptured handler rfl
  refine StopsOnly.bind ((StopsOnly.forM fun e _ => ?_).bind fun _ => stopsOnly_pure)
    fun _ => stopsOnly_pure
  exact (stops_observer _ _ _ _).bind fun _ => stopsOnly_pure

/-- The handlers of an ordinary build stop on the assertion of `Packet::Read`, unless
they leave an array. -/
theorem stops_handleMessage [PortableKeyType K] (env : Env K) (hserved : Served store)
    (p : Packet) : StopsOnly (handleMessage env.ordinary store p) Fault.Expected := by
  unfold handleMessage
  split
  · exact (stops_handleConnect env.target p).bind fun _ => stopsOnly_pure
  · exact stops_handlePublish hserved
  · exact stops_handleSubscribe
  · refine (stops_write _ _).bind ?_
    rintro (- | -) <;> exact stopsOnly_pure
  · have hclose : StopsOnly (p.connection.close : ServerM W Unit) Fault.Expected :=
      fun _ => trivial
    exact hclose.bind fun _ => stopsOnly_pure
  · exact stopsOnly_pure

/-! ### Turns -/

variable [LawfulKeyType K] [PortableKeyType K] {m : Machine W}

/-- A turn of an ordinary build, between the turns of a loop. -/
theorem serve_ordinary_ends (turn : Turn K) (hserved : Served store)
    (hkeys : KeysDecode store) :
    wp (serve turn.ordinary store) (fun _ _ => True) (· = .packetReadAssert) m := by
  unfold serve
  rw [wp_bind]
  refine wp_mono (readNext_returns turn.env.target turn.conn m) ?_ fun _ he => he.elim
  rintro (- | packet) m₁ -
  · trivial
  rw [wp_bind, wp_relocateTimes, wp_bind]
  have hexpected := stops_handleMessage turn.env hserved packet m₁
  have hbounds := stays_handleMessage turn.ordinary.env packet hserved hkeys m₁
  rcases hrun : handleMessage turn.ordinary.env store packet m₁ with
    e | ⟨⟨status, p', store'⟩, m₂⟩
  · rw [wp, show handleMessage turn.env.ordinary store packet m₁ = .error e from hrun]
      at hexpected
    rw [wp, hrun] at hbounds ⊢
    exact hexpected.resolve_right hbounds
  · rw [wp_of_ok hrun, wp_bind, wp_relocateTimes, wp_bind]
    exact wp_imp (destroy_onlyNet p' m₂) fun _ _ _ => trivial

end Gnat
