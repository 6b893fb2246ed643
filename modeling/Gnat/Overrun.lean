/-
Gnat/Overrun.lean

When a packet's fields stay within its remaining length.

`Packet::Read` asserts that it is asked for no more than the packet still has
to read.  The field readers do not look before they call it, so a CONNECT,
PUBLISH or SUBSCRIBE whose fields run over its remaining length stops the
broker.  `StaysWithin` says of the bytes a client sends, and of the point at
which its connection starts to fail, that no field does.
-/
import Gnat.NetReads
import Gnat.Sync

namespace Gnat

open Lib Prog

variable {K : Type} [KeyType K]

/-! ### Bodies that stay within the packet -/

namespace Left

/-- The fields of a CONNECT stay within the packet: the protocol name, and the
level, flags and keep-alive behind it. -/
def ConnectFits (x : Left) : Prop :=
  StringFits 6 x ∧ ∀ y, afterString 6 x = some y → BytesFit 4 y

/-- The fields of a PUBLISH: the topic, and the packet id if there is one. -/
def PublishFits (flags : UInt8) (x : Left) : Prop :=
  StringFits 128 x ∧ ∀ y, afterString 128 x = some y → hasPacketId flags → BytesFit 2 y

/-- `topic_callback` accepts a topic. -/
def Accepts (K : Type) [KeyType K] (target : Target) (topic : List UInt8) : Prop :=
  plus ∉ topic ∧
    ∃ key : K, KeyType.encodeKey target topic (filterKeyBytes topic) = .ok key

theorem size_afterBytes_le (count : Nat) (x : Left) : (afterBytes count x).size ≤ x.size := by
  induction count generalizing x with
  | zero => exact Nat.le_refl _
  | succ n ih =>
      rw [afterBytes]
      split
      · exact (ih _).trans (Nat.sub_le ..)
      · exact Nat.le_refl _

theorem size_afterString_lt {capacity : Nat} {x y : Left} (h : afterString capacity x = some y)
    (hpos : 0 < x.size) : y.size < x.size := by
  unfold afterString at h
  split at h <;> cases h
  dsimp only
  omega

/-- The filters of a SUBSCRIBE: as long as bytes remain and the callback accepts,
a topic and a byte of options behind it. -/
def TopicsFit (K : Type) [KeyType K] (target : Target) (x : Left) : Prop :=
  ∀ _ : 0 < x.size, StringFits 128 x ∧
    ∀ y, (_ : afterString 128 x = some y) → Accepts K target x.string →
      BytesFit 1 y ∧ TopicsFit K target (afterBytes 1 y)
termination_by x.size
decreasing_by
  exact (size_afterBytes_le 1 y).trans_lt (size_afterString_lt ‹_› ‹_›)

/-- The fields of a SUBSCRIBE: the packet id and the filters. -/
def SubscribeFits (K : Type) [KeyType K] (target : Target) (x : Left) : Prop :=
  BytesFit 2 x ∧ TopicsFit K target (afterBytes 2 x)

/-- The fields that `HandleMessage` reads stay within the packet. -/
def BodyFits (K : Type) [KeyType K] (target : Target) (control : UInt8) (x : Left) : Prop :=
  match controlType control with
  | .connect => ConnectFits x
  | .publish => PublishFits (controlFlags control) x
  | .subscribe => SubscribeFits K target x
  | _ => True

end Left

/-- If the header of a packet arrives, the fields that are read of its body stay
within it. -/
def StaysWithin (K : Type) [KeyType K] (target : Target) (s : Socket) : Prop :=
  ∀ control x, s.header target = some (control, x) → Left.BodyFits K target control x

/-! ### The parsers -/

variable {p : Packet} {m : Machine Net}

theorem readConnect_ne_assert {target : Target} :
    Connect.readFrom target p m ≠ .error .packetReadAssert ↔ Left.ConnectFits (p.left m) := by
  unfold Connect.readFrom
  refine ne_error_bind readString_over (readString_fits _) ?_
  rintro ⟨read, name, p₁⟩ m₁ ⟨-, hnext⟩
  rcases hafter : Left.afterString 6 (p.left m) with - | y
  · rw [hafter] at hnext
    obtain rfl : read = false := hnext
    exact iff_of_true pure_ne_error (by rintro _ ⟨⟩)
  rw [hafter] at hnext
  obtain ⟨rfl, rfl, -⟩ := hnext
  -- the level, the flags and the two bytes of the keep-alive are read in any case
  have hfour : Left.BytesFit 4 (p₁.left m₁) ↔ Left.BytesFit 1 (p₁.left m₁) ∧
      Left.BytesFit 1 (Left.afterBytes 1 (p₁.left m₁)) ∧
      Left.BytesFit 2 (Left.afterBytes 1 (Left.afterBytes 1 (p₁.left m₁))) := by
    rw [show 4 = 1 + (1 + 2) from rfl, Left.bytesFit_add, Left.bytesFit_add]
  simp only [Option.some.injEq, forall_eq', hfour, if_true]
  refine ne_error_bind readUInt8_over (readUInt8_fits _) ?_
  rintro ⟨-, level, p₂⟩ m₂ ⟨rfl, -, hleft₂⟩
  rw [← hleft₂]
  simp only [if_true]
  refine ne_error_bind readUInt8_over (readUInt8_fits _) ?_
  rintro ⟨-, flags, p₃⟩ m₃ ⟨rfl, -, hleft₃⟩
  rw [← hleft₃]
  simp only [if_true]
  rw [ne_error_bind_of_never]
  · exact ne_error_of_fits readUInt16_over (readUInt16_fits _)
  · rintro ⟨- | -, keepAlive, p₄⟩ m₄ <;> exact pure_ne_error

theorem readPublish_ne_assert :
    Publish.readFrom p p.typeFlags m ≠ .error .packetReadAssert ↔
      Left.PublishFits p.typeFlags (p.left m) := by
  unfold Publish.readFrom
  refine ne_error_bind readString_over (readString_fits _) ?_
  rintro ⟨read, topic, p₁⟩ m₁ ⟨-, hnext⟩
  rcases hafter : Left.afterString 128 (p.left m) with - | y
  · rw [hafter] at hnext
    obtain rfl : read = false := hnext
    exact iff_of_true pure_ne_error (by rintro _ ⟨⟩)
  rw [hafter] at hnext
  obtain ⟨rfl, rfl, -⟩ := hnext
  simp only [Option.some.injEq, forall_eq', if_true]
  cases hasPacketId p.typeFlags with
  | false => exact iff_of_true pure_ne_error (by rintro ⟨⟩)
  | true =>
      simp only [if_true, forall_const]
      rw [ne_error_bind_of_never]
      · exact ne_error_of_fits readUInt16_over (readUInt16_fits _)
      · rintro ⟨- | -, id, p₂⟩ m₂ <;> exact pure_ne_error

section

variable {γ : Type} {callback : γ → List UInt8 → ServerM Net (Bool × γ)} {target : Target}

/-- A callback that accepts the topics it should, leaves the sockets as they are
and does not reach the assertion. -/
def Accepting (K : Type) [KeyType K] (target : Target)
    (callback : γ → List UInt8 → ServerM Net (Bool × γ)) : Prop :=
  ∀ captured topic m,
    wp (callback captured topic)
      (fun r m' => m'.net = m.net ∧ (r.1 = true ↔ Left.Accepts K target topic))
      (fun e => e ≠ .packetReadAssert ∧ ¬ Left.Accepts K target topic) m

theorem readTopics_ne_assert (hcb : Accepting K target callback) {fuel : Nat}
    {topic : StringBuffer 128} {captured : γ} (hfuel : p.bytesRemaining ≤ fuel) :
    Subscribe.readTopics callback fuel topic captured p m ≠ .error .packetReadAssert ↔
      Left.TopicsFit K target (p.left m) := by
  induction fuel generalizing topic captured p m with
  | zero =>
      have hzero : p.bytesRemaining = 0 := Nat.le_zero.mp hfuel
      rw [Left.TopicsFit, Subscribe.readTopics, if_neg (by omega)]
      exact iff_of_true pure_ne_error fun hpos => absurd hpos (Nat.not_lt.mpr hfuel)
  | succ fuel ih =>
      rw [Left.TopicsFit, Subscribe.readTopics]
      by_cases hpos : 0 < p.bytesRemaining
      swap
      · rw [if_neg hpos]
        exact iff_of_true pure_ne_error fun hpos' => absurd hpos' hpos
      rw [if_pos hpos, forall_prop_of_true (show 0 < (p.left m).size from hpos)]
      refine ne_error_bind readString_over (readString_fits _) ?_
      rintro ⟨read, topic₁, p₁⟩ m₁ ⟨-, hnext⟩
      rcases hafter : Left.afterString 128 (p.left m) with - | y
      · rw [hafter] at hnext
        obtain rfl : read = false := hnext
        exact iff_of_true pure_ne_error (by rintro _ ⟨⟩)
      rw [hafter] at hnext
      obtain ⟨rfl, rfl, htopic⟩ := hnext
      have hsize := Left.size_afterString_lt hafter hpos
      simp only [Option.some.injEq, forall_eq', if_true, ← htopic]
      -- the callback may stop for a key it cannot make, never on the assertion
      have hcall := hcb captured topic₁.bytes m₁
      rcases hrun : callback captured topic₁.bytes m₁ with e | ⟨⟨accepted, captured₂⟩, m₂⟩
      · rw [wp, hrun] at hcall
        rw [bind_of_error hrun]
        exact iff_of_true (fun he => hcall.1 (Except.error.inj he))
          fun haccept => absurd haccept hcall.2
      rw [wp_of_ok hrun] at hcall
      obtain ⟨hnet, haccept⟩ := hcall
      rw [bind_of_ok hrun, ← haccept]
      cases accepted with
      | false => exact iff_of_true pure_ne_error (by rintro ⟨⟩)
      | true =>
          have hleft : p₁.left m₂ = p₁.left m₁ := by rw [Packet.left, hnet, Packet.left]
          simp only [forall_const, if_true]
          rw [← hleft] at hsize ⊢
          refine ne_error_bind readUInt8_over (readUInt8_fits _) ?_
          rintro ⟨-, options, p₃⟩ m₃ ⟨rfl, -, hleft₃⟩
          have hle : p₃.bytesRemaining ≤ fuel := by
            have h₃ := Left.size_afterBytes_le 1 (p₁.left m₂)
            rw [← hleft₃] at h₃
            exact Nat.le_of_lt_succ ((h₃.trans_lt hsize).trans_le hfuel)
          rw [← hleft₃]
          exact ih hle

theorem readSubscribe_ne_assert (hcb : Accepting K target callback) (captured : γ) :
    Subscribe.readFrom callback captured p m ≠ .error .packetReadAssert ↔
      Left.SubscribeFits K target (p.left m) := by
  unfold Subscribe.readFrom
  refine ne_error_bind readUInt16_over (readUInt16_fits _) ?_
  rintro ⟨-, id, p₁⟩ m₁ ⟨rfl, -, hleft₁⟩
  rw [← hleft₁]
  simp only [if_true]
  rw [ne_error_bind_of_never]
  · exact readTopics_ne_assert hcb (Nat.le_refl _)
  · rintro ⟨- | -, captured₂, p₂⟩ m₂ <;> exact pure_ne_error

end

/-! ### The handlers -/

section

variable [DecidableEq K] {env : Env K} {store : Store K Net}

omit [DecidableEq K] in
theorem topicCallback_accepting (target : Target) (conn : ClientConnection) :
    Accepting K target (topicCallback (K := K) (W := Net) target conn) := by
  intro captured topic m
  simp only [topicCallback, wp_bind, wp_createHeapCopy, wp_ite, wp_pure, wp_ofExcept]
  split
  · next hplus => exact ⟨trivial, iff_of_false Bool.false_ne_true fun haccept => haccept.1 hplus⟩
  · next hplus =>
    split
    · next key hkey => exact ⟨trivial, iff_of_true trivial ⟨hplus, key, hkey⟩⟩
    · next e he =>
      refine ⟨?_, fun haccept => ?_⟩
      · rw [KeyType.encodeKey_fault he]
        decide
      · obtain ⟨-, key, hkey⟩ := haccept
        rw [he] at hkey
        cases hkey

/-- A reply does not reach the assertion. -/
theorem writeFrame_never {cap : Nat} {conn : ClientConnection} {frame : Option (Cursor cap)} :
    wp (writeFrame conn frame : ServerM Net Bool) (fun _ _ => True)
      (· ≠ .packetReadAssert) m := by
  cases frame with
  | none => exact fun h => Fault.noConfusion h
  | some c => trivial

theorem subscribeAck_never {ack : SubscribeAck} {conn : ClientConnection} :
    wp (ack.sendOn conn : ServerM Net Bool) (fun _ _ => True) (· ≠ .packetReadAssert) m := by
  unfold SubscribeAck.sendOn
  split
  · exact fun h => Fault.noConfusion h
  · trivial

omit [KeyType K] [DecidableEq K] in
theorem handleConnect_ne_assert {target : Target} :
    handleConnect target p m ≠ .error .packetReadAssert ↔
      Left.ConnectFits (p.left m) := by
  unfold handleConnect
  rw [ne_error_bind_of_never, readConnect_ne_assert]
  rintro ⟨connect, p₁⟩ m₁
  rw [ne_error_iff]
  simp only [wp_bind, wp_ofExcept]
  split
  · refine wp_imp writeFrame_never ?_
    rintro (- | -) m₂ - <;> trivial
  · next e he =>
    unfold protocolLevelOf at he
    split at he
    · cases he
    · split at he <;> cases he
      decide

theorem handlePublish_ne_assert (hserved : Served store) :
    handlePublish env store p m ≠ .error .packetReadAssert ↔
      Left.PublishFits p.typeFlags (p.left m) := by
  obtain ⟨subs, hsubs⟩ := hserved
  rw [← readPublish_ne_assert, handlePublish]
  constructor
  · intro h herror
    exact h (bind_of_error herror)
  · intro h
    rw [ne_error_iff] at h ⊢
    rw [wp_bind]
    refine wp_imp (wp_and_left (Publish.readFrom_reads p p.typeFlags m) h) ?_
    rintro ⟨- | publish, p₁⟩ m₁ ⟨⟨-, hpublish⟩, -⟩
    · trivial
    -- the payload is what remains, so it fits
    have hle : publish.payloadBytes ≤ p₁.bytesRemaining := (hpublish publish rfl).2.le
    simp only [Packet.read, wp_bind, wp_check, if_pos hle, wp_read]
    split
    · simp only [wp_pure, wp_bind, wp_ofExcept]
      split
      · exact wp_imp (set_sends hsubs _ _ _) fun _ _ _ => trivial
      · next e he =>
        rw [KeyType.encodeKey_fault he]
        decide
    · trivial

omit [DecidableEq K] in
theorem handleSubscribe_ne_assert :
    handleSubscribe env store p m ≠ .error .packetReadAssert ↔
      Left.SubscribeFits K env.target (p.left m) := by
  rw [← readSubscribe_ne_assert (topicCallback_accepting env.target p.connection) none,
    handleSubscribe]
  constructor
  · intro h herror
    exact h (bind_of_error herror)
  · intro h
    rw [ne_error_iff] at h ⊢
    rw [wp_bind]
    refine wp_imp (wp_and_left (Subscribe.readFrom_reads
      (topicCallback_quiet env.target p.connection) none p m (by rintro _ ⟨⟩)) h) ?_
    rintro ⟨- | subscribe, captured, p₁⟩ m₁ ⟨⟨hcaptured, hreads⟩, -⟩
    · trivial
    rw [wp_bind]
    refine wp_imp subscribeAck_never ?_
    rintro (- | -) m₂ -
    · trivial
    rcases captured with - | handler
    · trivial
    obtain ⟨filter, key, n, -, -, rfl⟩ := hcaptured handler rfl
    simp only [if_true, wp_bind, wp_pure, show p₁.connection = p.connection from
      hreads.sameOutput.connection]
    exact wp_imp (addObserver_sends _ (subscriptionTo p.connection filter key n) m₂)
      fun _ _ _ => trivial

theorem handleMessage_ne_assert (hserved : Served store) :
    handleMessage env store p m ≠ .error .packetReadAssert ↔
      Left.BodyFits K env.target p.control (p.left m) := by
  simp only [handleMessage, Left.BodyFits, Packet.type]
  cases hp : controlType p.control
  case connect =>
    simp only
    rw [ne_error_bind_of_never, handleConnect_ne_assert]
    rintro ⟨status, p₁⟩ m₁
    exact pure_ne_error
  case publish => exact handlePublish_ne_assert hserved
  case subscribe => exact handleSubscribe_ne_assert
  case pingreq =>
    refine iff_of_true ?_ trivial
    rw [ne_error_iff, wp_bind, PingResp.sendOn, wp_write, wp_ite]
    split <;> trivial
  all_goals exact iff_of_true pure_ne_error trivial

/-- A turn of the server loop fails on the assertion only in `HandleMessage`. -/
theorem serve_ne_assert {turn : Turn K} :
    serve turn store m ≠ .error .packetReadAssert ↔
      wp (Packet.readNext turn.env.target turn.conn)
        (fun r m' => ∀ p, r = some p →
          handleMessage turn.env store p m' ≠ .error .packetReadAssert)
        (· ≠ .packetReadAssert) m := by
  rw [ne_error_iff, serve, wp_bind]
  refine wp_congr ?_
  rintro (- | p) m₁
  · exact iff_of_true trivial (by rintro _ ⟨⟩)
  simp only [Option.some.injEq, forall_eq']
  rw [ne_error_iff, wp_bind, wp_relocateTimes, wp_bind]
  refine wp_congr ?_
  rintro ⟨status, p', store'⟩ m₂
  refine iff_of_true ?_ trivial
  rw [wp_bind, wp_relocateTimes, wp_bind, Packet.destroy, wp_ite]
  split <;> trivial

end

/-- **When the assertion of `Packet::Read` holds.**  A turn of the server loop does
not fail on it if and only if the fields that are read of the packet stay within
its remaining length. -/
theorem packetRead_asserts_iff [DecidableEq K] {store : Store K Net} (turn : Turn K)
    (hserved : Served store) :
    serve turn store m ≠ .error .packetReadAssert ↔
      StaysWithin K turn.env.target (m.net.sockets turn.conn.socket) := by
  rw [serve_ne_assert, StaysWithin]
  rcases hheader : (m.net.sockets turn.conn.socket).header turn.env.target with
    - | ⟨control, left⟩
  · refine iff_of_true (wp_imp (readNext_no_header hheader) ?_) (by rintro _ _ ⟨⟩)
    rintro r m' rfl p ⟨⟩
  · rw [wp_of_ok (readNext_header hheader)]
    simp only [Option.some.injEq, forall_eq', Prod.mk.injEq, and_imp]
    rw [handleMessage_ne_assert hserved]
    simp [Packet.left]

/-- A turn of a client that has sent the given bytes. -/
def plainTurn : Turn StdString :=
  ⟨⟨{}, 0, .asKept StdString⟩, { socket := 1, id := 7 }, 0, 0⟩

/-- A machine whose connections deliver the given bytes. -/
def delivering (bytes : List UInt8) : Machine Net :=
  { net := { sockets := fun _ => { input := bytes } } }

/-- The topic `a` published with the payload `hi`. -/
theorem packetRead_asserts_iff_publish :
    StaysWithin StdString {} { input := [0x30, 5, 0, 1, 0x61, 0x68, 0x69] } := by
  refine (packetRead_asserts_iff plainTurn
    (m := delivering [0x30, 5, 0, 1, 0x61, 0x68, 0x69]) served_empty).mp ?_
  obtain ⟨a, m', h, -⟩ := exists_ok_of_map
    (t := serve plainTurn {} (delivering [0x30, 5, 0, 1, 0x61, 0x68, 0x69]))
    (g := fun _ => ()) (c := ()) (by decide +kernel)
  rw [h]
  exact pure_ne_error

/-- A CONNECT without a body stops the broker. -/
theorem empty_connect_asserts :
    serve plainTurn {} (delivering [0x10, 0]) = .error .packetReadAssert :=
  error_of_map (g := fun _ => ()) (by decide +kernel)

end Gnat
