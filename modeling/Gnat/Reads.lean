/-
Gnat/Reads.lean

What a parser does to a packet and to the machine, whatever the network does.

A parser only calls `Packet::Read` on its packet, and the callback of a
SUBSCRIBE only makes heap copies of the connection.  `ReadStep` is one such
action and `Reads` a run of them; each parser has one lemma, which says that
its run is a `Reads`.  What the rest of the development needs to know of a
parser follows from `Reads` by induction, once.
-/
import Gnat.Proto3

namespace Gnat

open Lib Prog

variable {W : Type} [Network W]

/-- One action of a parser on its packet. -/
inductive ReadStep : Packet × Machine W → Packet × Machine W → Prop
  | read {p : Packet} {m : Machine W} {size : Nat} {bytes : List.Vector UInt8 size} {w : W} :
      size ≤ p.bytesRemaining →
      Network.read p.connection.socket size m.net = (some bytes, w) →
      ReadStep (p, m)
        ({ p with bytesRemaining := p.bytesRemaining - size }, { m with net := w })
  | fail {p : Packet} {m : Machine W} {size : Nat} {w : W} :
      Network.read p.connection.socket size m.net = (none, w) →
      ReadStep (p, m) (p, { m with net := w })
  | copies {p : Packet} {m : Machine W} (n : Nat) :
      ReadStep (p, m) (p, { m with heapCopies := n })

/-- A run of a parser. -/
abbrev Reads : Packet × Machine W → Packet × Machine W → Prop :=
  Relation.ReflTransGen ReadStep

/-! ### What a run leaves as it is -/

/-- The parts of packet and machine no parser changes. -/
structure SameOutput (x y : Packet × Machine W) : Prop where
  control : y.1.control = x.1.control
  connection : y.1.connection = x.1.connection
  bytesRemaining : y.1.bytesRemaining ≤ x.1.bytesRemaining
  written : y.2.written = x.2.written

theorem ReadStep.sameOutput {x y : Packet × Machine W} (h : ReadStep x y) :
    SameOutput x y := by
  cases h with
  | read hle _ => exact ⟨rfl, rfl, Nat.sub_le _ _, rfl⟩
  | fail _ => exact ⟨rfl, rfl, Nat.le_refl _, rfl⟩
  | copies n => exact ⟨rfl, rfl, Nat.le_refl _, rfl⟩

theorem Reads.sameOutput {x y : Packet × Machine W} (h : Reads x y) : SameOutput x y := by
  induction h with
  | refl => exact ⟨rfl, rfl, Nat.le_refl _, rfl⟩
  | tail _ hstep ih =>
      have hs := hstep.sameOutput
      exact ⟨hs.control.trans ih.control, hs.connection.trans ih.connection,
        hs.bytesRemaining.trans ih.bytesRemaining, hs.written.trans ih.written⟩

/-! ### The field readers -/

theorem Packet.read_reads (p : Packet) (size : Nat) (m : Machine W) :
    wp (p.read size) (fun r m' => Reads (p, m) (r.2, m')) (fun _ => True) m := by
  simp only [Packet.read, wp_bind, wp_check, wp_read]
  split
  · next hle =>
    rcases hr : Network.read p.connection.socket size m.net with ⟨- | bytes, w⟩
    · exact .single (.fail hr)
    · exact .single (.read hle hr)
  · trivial

theorem client_read_reads (p : Packet) (size : Nat) (m : Machine W) :
    wp (Client.read p size) (fun r m' => Reads (p, m) (r.2, m')) (fun _ => True) m :=
  p.read_reads size m

theorem readString_reads {size : Nat} (out : StringBuffer size) (p : Packet)
    (m : Machine W) :
    wp (readString out p)
      (fun r m' => Reads (p, m) (r.2.2, m') ∧ (r.1 = true → r.2.1.length ≤ size))
      (fun _ => True) m := by
  simp only [readString, wp_bind]
  refine wp_imp (client_read_reads p 2 m) ?_
  rintro ⟨- | lengthRaw, p₁⟩ m₁ h₁
  · exact ⟨h₁, fun h => absurd h Bool.false_ne_true⟩
  · simp only [readStringBytes, wp_ite, wp_pure]
    split
    · exact ⟨h₁, fun h => absurd h Bool.false_ne_true⟩
    · next hle =>
      rw [wp_bind]
      refine wp_imp (client_read_reads p₁ _ m₁) ?_
      rintro ⟨- | src, p₂⟩ m₂ h₂
      · exact ⟨h₁.trans h₂, fun h => absurd h Bool.false_ne_true⟩
      · exact ⟨h₁.trans h₂, fun _ => Nat.le_of_not_lt hle⟩

theorem readBytesLoop_reads (count : Nat) (out : List UInt8) (p : Packet)
    (m : Machine W) :
    wp (readBytesLoop count out p) (fun r m' => Reads (p, m) (r.2, m'))
      (fun _ => True) m := by
  induction count generalizing out p m with
  | zero => exact .refl
  | succ i ih =>
      simp only [readBytesLoop, wp_bind]
      refine wp_imp (client_read_reads p 1 m) ?_
      rintro ⟨byte, p₁⟩ m₁ h₁
      exact wp_imp (ih _ p₁ m₁) fun _ _ h₂ => h₁.trans h₂

theorem readUInt8_reads (out : UInt8) (p : Packet) (m : Machine W) :
    wp (readUInt8 out p) (fun r m' => Reads (p, m) (r.2.2, m')) (fun _ => True) m := by
  simp only [readUInt8, readBytes, wp_bind, wp_pure]
  exact readBytesLoop_reads 1 _ p m

theorem readUInt16_reads (out : UInt16) (p : Packet) (m : Machine W) :
    wp (readUInt16 out p) (fun r m' => Reads (p, m) (r.2.2, m')) (fun _ => True) m := by
  simp only [readUInt16, readBytes, wp_bind, wp_pure]
  exact readBytesLoop_reads 2 _ p m

/-! ### The packets -/

theorem Connect.readFrom_reads (target : Target) (p : Packet) (m : Machine W) :
    wp (Connect.readFrom target p) (fun r m' => Reads (p, m) (r.2, m'))
      (fun _ => True) m := by
  simp only [Connect.readFrom, wp_bind]
  refine wp_imp (readString_reads _ p m) ?_
  rintro ⟨- | -, name, p₁⟩ m₁ ⟨h₁, -⟩
  · exact h₁
  rw [if_pos rfl, wp_bind]
  refine wp_imp (readUInt8_reads _ p₁ m₁) ?_
  rintro ⟨- | -, level, p₂⟩ m₂ h₂
  · exact h₁.trans h₂
  rw [if_pos rfl, wp_bind]
  refine wp_imp (readUInt8_reads _ p₂ m₂) ?_
  rintro ⟨- | -, flags, p₃⟩ m₃ h₃
  · exact (h₁.trans h₂).trans h₃
  rw [if_pos rfl, wp_bind]
  refine wp_imp (readUInt16_reads _ p₃ m₃) ?_
  rintro ⟨- | -, keepAlive, p₄⟩ m₄ h₄ <;> exact ((h₁.trans h₂).trans h₃).trans h₄

theorem Publish.readFrom_reads (p : Packet) (flags : UInt8) (m : Machine W) :
    wp (Publish.readFrom p flags)
      (fun r m' => Reads (p, m) (r.2, m') ∧
        ∀ publish, r.1 = some publish →
          publish.topic.length ≤ 128 ∧ publish.payloadBytes = r.2.bytesRemaining)
      (fun _ => True) m := by
  simp only [Publish.readFrom, wp_bind]
  refine wp_imp (readString_reads _ p m) ?_
  rintro ⟨- | -, topic, p₁⟩ m₁ ⟨h₁, htopic⟩
  · exact ⟨h₁, by rintro _ ⟨⟩⟩
  rw [if_pos rfl]
  simp only [wp_ite, wp_pure]
  split
  · rw [wp_bind]
    refine wp_imp (readUInt16_reads _ p₁ m₁) ?_
    rintro ⟨- | -, id, p₂⟩ m₂ h₂
    · exact ⟨h₁.trans h₂, by rintro _ ⟨⟩⟩
    · refine ⟨h₁.trans h₂, ?_⟩
      rintro publish ⟨⟩
      exact ⟨htopic rfl, rfl⟩
  · refine ⟨h₁, ?_⟩
    rintro publish ⟨⟩
    exact ⟨htopic rfl, rfl⟩

section

variable {γ : Type} {callback : γ → List UInt8 → ServerM W (Bool × γ)} {I : γ → Prop}

/-- A callback that keeps `I` of what it captures and touches nothing of the
machine but the number of heap copies. -/
def Quiet (callback : γ → List UInt8 → ServerM W (Bool × γ)) (I : γ → Prop) : Prop :=
  ∀ captured topic m, I captured →
    wp (callback captured topic)
      (fun r m' => I r.2 ∧ ∃ n, m' = { m with heapCopies := n }) (fun _ => True) m

theorem Subscribe.readTopics_reads (hcb : Quiet callback I) (fuel : Nat)
    (topic : StringBuffer 128) (captured : γ) (p : Packet) (m : Machine W)
    (hI : I captured) :
    wp (readTopics callback fuel topic captured p)
      (fun r m' => I r.2.1 ∧ Reads (p, m) (r.2.2, m')) (fun _ => True) m := by
  induction fuel generalizing topic captured p m with
  | zero =>
      rw [readTopics, wp_ite]
      split
      · trivial
      · exact ⟨hI, .refl⟩
  | succ fuel ih =>
      rw [readTopics, wp_ite]
      split
      · simp only [wp_bind]
        refine wp_imp (readString_reads topic p m) ?_
        rintro ⟨- | -, topic₁, p₁⟩ m₁ ⟨h₁, -⟩
        · exact ⟨hI, h₁⟩
        rw [if_pos rfl, wp_bind]
        -- the callback makes one heap copy, whether it accepts the topic or not
        refine wp_imp (hcb captured topic₁.bytes m₁ hI) ?_
        rintro ⟨- | -, captured₂⟩ m₂ ⟨hI₂, n, rfl⟩
        · exact ⟨hI₂, h₁.tail (.copies n)⟩
        rw [if_pos rfl, wp_bind]
        refine wp_imp (readUInt8_reads _ p₁ _) ?_
        rintro ⟨- | -, flags, p₃⟩ m₃ h₃
        · exact ⟨hI₂, (h₁.tail (.copies n)).trans h₃⟩
        rw [if_pos rfl]
        refine wp_imp (ih topic₁ captured₂ p₃ m₃ hI₂) ?_
        rintro r m₄ ⟨hI₄, h₄⟩
        exact ⟨hI₄, ((h₁.tail (.copies n)).trans h₃).trans h₄⟩
      · exact ⟨hI, .refl⟩

theorem Subscribe.readFrom_reads (hcb : Quiet callback I) (captured : γ) (p : Packet)
    (m : Machine W) (hI : I captured) :
    wp (readFrom callback captured p)
      (fun r m' => I r.2.1 ∧ Reads (p, m) (r.2.2, m')) (fun _ => True) m := by
  simp only [readFrom, wp_bind]
  refine wp_imp (readUInt16_reads _ p m) ?_
  rintro ⟨- | -, packetId, p₁⟩ m₁ h₁
  · exact ⟨hI, h₁⟩
  rw [if_pos rfl, wp_bind]
  refine wp_imp (readTopics_reads hcb _ _ captured p₁ m₁ hI) ?_
  rintro ⟨- | -, captured₂, p₂⟩ m₂ ⟨hI₂, h₂⟩ <;> exact ⟨hI₂, h₁.trans h₂⟩

end

end Gnat
