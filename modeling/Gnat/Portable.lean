/-
Gnat/Portable.lean

A build that traps undefined behaviour is the ordinary build with checks.

Three computations of the source are undefined for some values: the product in
`ReadVariableByteInteger` that leaves the 31 bits, the shift in `GetChar` by 64
or more, and `*connect` of an empty optional.  A sanitizer build stops at each
of them, an ordinary build goes on with what the machine makes of it.  Up to
there the two do the same in a turn of the server loop (`refines_serve`).

A fourth thing is undefined, the read of `strlen` behind a 64-bit key.  What it
finds there changes nothing, and a build that stops at it has keys of another
type, `CheckedKey`; where it stops is in `Gnat.Overread`.
-/
import Gnat.Lib.Refines
import Gnat.Loop

namespace Gnat

open Lib Prog

/-- What a sanitizer reports of the values. -/
def Fault.Undefined (e : Fault) : Prop :=
  e = .signedOverflow ∨ e = .oversizedShift ∨ e = .emptyOptional

/-- The same platform without the checks of a sanitizer. -/
def Target.ordinary (target : Target) : Target :=
  { target with trapsUndefined := false }

/-! ### The three computations -/

variable {target : Target}

/-- A computation of a sanitizer build is that of the ordinary build, or is trapped. -/
abbrev Checks {α : Type} (r r' : Except Fault α) : Prop :=
  StopsOr Fault.Undefined r r'

theorem checks_intMul (target : Target) (a b : Int) :
    Checks (target.intMul a b) (target.ordinary.intMul a b) := by
  unfold Target.intMul
  split
  · exact .refl _
  split
  · exact .inr ⟨.signedOverflow, .inl rfl, rfl⟩
  · exact .refl _

theorem checks_shiftLeft (target : Target) (x : UInt64) (n : Nat) :
    Checks (target.shiftLeft x n) (target.ordinary.shiftLeft x n) := by
  unfold Target.shiftLeft
  split
  · exact .inr ⟨.oversizedShift, .inr (.inl rfl), rfl⟩
  · rw [if_neg (show ¬ (64 ≤ n ∧ target.ordinary.trapsUndefined) by simp [Target.ordinary])]
    exact .refl _

theorem checks_protocolLevelOf (target : Target) (connect : Option Connect) :
    Checks (protocolLevelOf target connect) (protocolLevelOf target.ordinary connect) := by
  cases connect with
  | some connect => exact .refl _
  | none =>
      have hordinary : protocolLevelOf target.ordinary none = .ok target.strayLevel := rfl
      rw [hordinary, protocolLevelOf]
      split
      · exact .inr ⟨.emptyOptional, .inr (.inr rfl), rfl⟩
      · exact .refl _

/-- Key types whose `EncodeKey` is undefined nowhere but in its shifts. -/
class PortableKeyType (K : Type) [KeyType K] : Prop where
  checks_encodeKey (target : Target) (decoded : List UInt8) (bytes : Nat) :
    Checks (KeyType.encodeKey target decoded bytes : Except Fault K)
      (KeyType.encodeKey target.ordinary decoded bytes)
  /-- An ordinary build makes a key of any bytes. -/
  encodes (target : Target) (decoded : List UInt8) (bytes : Nat) :
    ∃ key : K, KeyType.encodeKey target.ordinary decoded bytes = .ok key

theorem encodeString_ordinary (target : Target) (decoded : List UInt8) (topicBytes : Nat) :
    ∃ key, Key.encodeString target.ordinary decoded topicBytes = .ok key := by
  unfold Key.encodeString
  generalize List.range topicBytes = indices
  generalize (0 : UInt64) = encoded
  induction indices generalizing encoded with
  | nil => exact ⟨encoded, rfl⟩
  | cons i indices ih =>
      have hchar : Key.encodeChar target.ordinary decoded encoded i =
          .ok (encoded ||| target.widenChar (decoded.getD i 0) <<< UInt64.ofNat (8 * i)) := by
        unfold Key.encodeChar Key.getChar Target.shiftLeft
        rw [if_neg (show ¬ (64 ≤ 8 * i ∧ target.ordinary.trapsUndefined) by
          simp [Target.ordinary])]
        rfl
      rw [List.foldlM_cons, hchar]
      exact ih _

instance : PortableKeyType UInt64 where
  checks_encodeKey target decoded bytes := by
    refine StopsOr.foldlM (fun encoded index => ?_) (List.range bytes) 0
    exact (checks_shiftLeft target _ _).bind fun _ => .refl _
  encodes target decoded bytes := encodeString_ordinary target decoded bytes

instance : PortableKeyType StdString where
  checks_encodeKey _ _ _ := .refl _
  encodes _ _ _ := ⟨_, rfl⟩

/-! ### The readers -/

variable {W : Type} [Network W]

theorem refines_readVariableByteLoop (target : Target) (conn : ClientConnection) (fuel : Nat)
    (multiplier : Int) (out : Nat) :
    Refines Fault.Undefined
      (readVariableByteLoop target conn fuel multiplier out : ServerM W _)
      (readVariableByteLoop target.ordinary conn fuel multiplier out) := by
  induction fuel generalizing multiplier out with
  | zero => exact .refl _
  | succ fuel ih =>
      unfold readVariableByteLoop
      refine .bind_right _ ?_
      rintro (- | next)
      · exact .refl _
      refine (refines_ofExcept (checks_intMul target _ _)).bind fun product => ?_
      refine (refines_ofExcept (checks_intMul target _ _)).bind fun multiplier => ?_
      exact .ite (.refl _) (ih _ _)

theorem refines_readVariableByteInteger (target : Target) (conn : ClientConnection) :
    Refines Fault.Undefined (readVariableByteInteger target conn : ServerM W _)
      (readVariableByteInteger target.ordinary conn) := by
  intro m
  rw [readVariableByteInteger, readVariableByteInteger]
  exact refines_readVariableByteLoop target conn _ 1 0 m

theorem refines_readNext (target : Target) (conn : ClientConnection) :
    Refines Fault.Undefined (Packet.readNext target conn : ServerM W _)
      (Packet.readNext target.ordinary conn) := by
  have hheader : Refines Fault.Undefined (FixedHeader.readFrom target conn : ServerM W _)
      (FixedHeader.readFrom target.ordinary conn) := by
    refine .bind_right _ fun r => .ite ?_ (.refl _)
    exact (refines_readVariableByteInteger target _).bind fun _ => .refl _
  exact hheader.bind fun _ => .refl _

section

variable {γ : Type} {callback callback' : γ → List UInt8 → ServerM W (Bool × γ)}

theorem refines_readTopics
    (hcb : ∀ captured topic,
      Refines Fault.Undefined (callback captured topic) (callback' captured topic))
    (fuel : Nat) (topic : StringBuffer 128) (captured : γ) (p : Packet) :
    Refines Fault.Undefined (Subscribe.readTopics callback fuel topic captured p)
      (Subscribe.readTopics callback' fuel topic captured p) := by
  induction fuel generalizing topic captured p with
  | zero =>
      rw [Subscribe.readTopics, Subscribe.readTopics]
      exact .refl _
  | succ fuel ih =>
      rw [Subscribe.readTopics, Subscribe.readTopics]
      refine .ite (.bind_right _ ?_) (.refl _)
      rintro ⟨- | -, topic₁, p₁⟩
      · exact .refl _
      refine (hcb captured topic₁.bytes).bind ?_
      rintro ⟨- | -, captured₂⟩
      · exact .refl _
      refine .bind_right _ ?_
      rintro ⟨- | -, flags, p₃⟩
      · exact .refl _
      · exact ih topic₁ captured₂ p₃

theorem refines_readSubscribe
    (hcb : ∀ captured topic,
      Refines Fault.Undefined (callback captured topic) (callback' captured topic))
    (captured : γ) (p : Packet) :
    Refines Fault.Undefined (Subscribe.readFrom callback captured p)
      (Subscribe.readFrom callback' captured p) := by
  refine .bind_right _ ?_
  rintro ⟨- | -, packetId, p₁⟩
  · exact .refl _
  · exact (refines_readTopics hcb _ _ captured p₁).bind fun _ => .refl _

end

/-! ### The handlers -/

variable {K : Type} [DecidableEq K] [KeyType K]

/-- The same surroundings of a call in an ordinary build. -/
def Env.ordinary (env : Env K) : Env K :=
  { env with target := env.target.ordinary }

/-- The same turn in an ordinary build. -/
def Turn.ordinary (turn : Turn K) : Turn K :=
  { turn with env := turn.env.ordinary }

variable [PortableKeyType K] {env : Env K} {store : Store K W} {p : Packet}

omit [DecidableEq K] [KeyType K] [PortableKeyType K] in
theorem refines_handleConnect (target : Target) (p : Packet) :
    Refines Fault.Undefined (handleConnect target p : ServerM W _)
      (handleConnect target.ordinary p) := by
  refine .bind_right _ ?_
  rintro ⟨connect, p₁⟩
  exact (refines_ofExcept (checks_protocolLevelOf target connect)).bind fun _ => .refl _

theorem refines_handlePublish :
    Refines Fault.Undefined (handlePublish env store p) (handlePublish env.ordinary store p) := by
  refine .bind_right _ ?_
  rintro ⟨- | publish, p₁⟩
  · exact .refl _
  refine .bind_right _ ?_
  rintro ⟨- | data, p₂⟩
  · exact .refl _
  refine (refines_ofExcept ?_).bind fun _ => .refl _
  exact PortableKeyType.checks_encodeKey env.target _ _

omit [DecidableEq K] in
theorem refines_topicCallback (target : Target) (conn : ClientConnection)
    (captured : Captured K W) (topic : List UInt8) :
    Refines Fault.Undefined (topicCallback target conn captured topic)
      (topicCallback target.ordinary conn captured topic) := by
  refine .bind_right _ fun connectionHeap => .ite (.refl _) ?_
  refine (refines_ofExcept ?_).bind fun _ => .refl _
  exact PortableKeyType.checks_encodeKey target _ _

omit [DecidableEq K] in
theorem refines_handleSubscribe :
    Refines Fault.Undefined (handleSubscribe env store p)
      (handleSubscribe env.ordinary store p) :=
  (refines_readSubscribe (refines_topicCallback env.target p.connection) none p).bind
    fun _ => .refl _

/-- `HandleMessage` in a sanitizer build. -/
theorem refines_handleMessage (env : Env K) (store : Store K W) (p : Packet) :
    Refines Fault.Undefined (handleMessage env store p)
      (handleMessage env.ordinary store p) := by
  unfold handleMessage
  split
  · exact (refines_handleConnect env.target p).bind fun _ => .refl _
  · exact refines_handlePublish
  · exact refines_handleSubscribe
  all_goals exact .refl _

/-- A whole turn in a sanitizer build. -/
theorem refines_serve (turn : Turn K) (store : Store K W) :
    Refines Fault.Undefined (serve turn store) (serve turn.ordinary store) := by
  refine (refines_readNext turn.env.target turn.conn).bind ?_
  rintro (- | packet)
  · exact .refl _
  refine .bind_right _ fun handled => ?_
  exact (refines_handleMessage turn.env store handled).bind fun _ => .refl _

end Gnat
