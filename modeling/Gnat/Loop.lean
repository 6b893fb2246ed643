/-
Gnat/Loop.lean

The server loop as a transition system.

A `Step` handles a packet that is already there.  A `LoopStep` is a whole turn
of the loop around the server, from the header of the packet to its destructor,
on a connection the application owns; between the turns observers are removed
and anything at all happens to the network.  A turn only touches the network
before and after it handles its packet (`LoopStep.run`), so what holds of every
state that `Step` reaches holds between the turns of a loop.
-/
import Gnat.Bounds
import Gnat.Sync

namespace Gnat

open Lib Prog

variable {W : Type} [Network W]

/-! ### What a turn does around `HandleMessage` -/

/-- Only the network changed. -/
def OnlyNet (m m' : Machine W) : Prop :=
  ∃ net, m' = { m with net }

omit [Network W] in
theorem OnlyNet.refl (m : Machine W) : OnlyNet m m := ⟨m.net, rfl⟩

omit [Network W] in
theorem OnlyNet.trans {m m₁ m' : Machine W} (h : OnlyNet m m₁) (h' : OnlyNet m₁ m') :
    OnlyNet m m' := by
  obtain ⟨net, rfl⟩ := h
  obtain ⟨net', rfl⟩ := h'
  exact ⟨net', rfl⟩

theorem readVariableByteLoop_onlyNet (target : Target) (conn : ClientConnection) (fuel : Nat)
    (multiplier : Int) (out : Nat) (m : Machine W) :
    wp (readVariableByteLoop target conn fuel multiplier out) (fun _ m' => OnlyNet m m')
      (fun _ => True) m := by
  induction fuel generalizing multiplier out m with
  | zero => trivial
  | succ fuel ih =>
      simp only [readVariableByteLoop, wp_bind, wp_read]
      rcases Network.read conn.socket 1 m.net with ⟨- | next, w⟩
      · exact ⟨w, rfl⟩
      simp only [wp_bind, wp_ofExcept]
      split
      swap
      · trivial
      split
      swap
      · trivial
      rw [wp_ite]
      split
      · exact ⟨w, rfl⟩
      · exact wp_imp (ih _ _ _) fun _ m' h => OnlyNet.trans ⟨w, rfl⟩ h

theorem readVariableByteInteger_onlyNet (target : Target) (conn : ClientConnection)
    (m : Machine W) :
    wp (readVariableByteInteger target conn) (fun _ m' => OnlyNet m m') (fun _ => True) m := by
  have hloop := readVariableByteLoop_onlyNet target conn
    (Network.pending conn.socket m.net + 1) 1 0 m
  unfold wp at hloop ⊢
  rw [readVariableByteInteger]
  exact hloop

/-- `ReadNext` makes a packet of its own connection. -/
theorem readNext_onlyNet (target : Target) (conn : ClientConnection) (m : Machine W) :
    wp (Packet.readNext target conn)
      (fun r m' => OnlyNet m m' ∧ ∀ p, r = some p → p.connection = conn) (fun _ => True) m := by
  simp only [Packet.readNext, FixedHeader.readFrom, readUInt8, readBytes, readBytesLoop,
    wp_bind, wp_client_read, wp_pure, if_true]
  rcases Network.read conn.socket 1 m.net with ⟨byte, w⟩
  refine wp_imp (readVariableByteInteger_onlyNet target conn { m with net := w }) ?_
  rintro ⟨- | -, remainingSize⟩ m₁ h₁
  · exact ⟨OnlyNet.trans ⟨w, rfl⟩ h₁, by rintro _ ⟨⟩⟩
  · refine ⟨OnlyNet.trans ⟨w, rfl⟩ h₁, ?_⟩
    rintro p ⟨⟩
    rfl

theorem destroy_onlyNet (p : Packet) (m : Machine W) {E : Fault → Prop} :
    wp (p.destroy : ServerM W Unit) (fun _ m' => OnlyNet m m') E m := by
  unfold Packet.destroy
  rw [wp_ite]
  split
  · exact ⟨_, rfl⟩
  · exact .refl m

/-! ### The loop -/

variable {K : Type} [DecidableEq K] [KeyType K]

/-- What a step of the loop did: a turn on a connection, with the packet and the status
of handling it if a header could be read. -/
inductive LoopLabel
  | turn (conn : ClientConnection) (handled : Option (Packet × Status))
  | removed (clientId : UInt32)
  | network
  deriving DecidableEq

/-- The steps of a server loop compiled for `target`. -/
inductive LoopStep (target : Target) : ServerState K W → LoopLabel → ServerState K W → Prop
  | turn {s : ServerState K W} {t : Turn K} {handled : Option (Packet × Status)}
      {store' : Store K W} {m' : Machine W} :
      t.env.target = target → t.conn.copy = none →
      serve t s.store s.machine = .ok ((handled, store'), m') →
      LoopStep target s (.turn t.conn handled) ⟨store', m'⟩
  | remove {s : ServerState K W} (clientId : UInt32) :
      LoopStep target s (.removed clientId)
        ⟨s.store.removeObserversForClient clientId, s.machine⟩
  | network {s : ServerState K W} (net : W) :
      LoopStep target s .network ⟨s.store, { s.machine with net }⟩

variable {target : Target} {s s' : ServerState K W} {l : LoopLabel} {ls : List LoopLabel}

/-- A turn, cut where the packet is there and where it is handled. -/
theorem serve_parts {turn : Turn K} {store : Store K W}
    {m : Machine W} {Q : Option (Packet × Status) × Store K W → Machine W → Prop}
    (hnone : ∀ m', OnlyNet m m' → Q (none, store) m')
    (hsome : ∀ p m₁ status p' store' m₂ m', OnlyNet m m₁ → p.connection = turn.conn →
      handleMessage turn.env store p m₁ = .ok ((status, p', store'), m₂) → OnlyNet m₂ m' →
      Q (some (p, status), store') m') :
    wp (serve turn store) Q (fun _ => True) m := by
  unfold serve
  rw [wp_bind]
  refine wp_imp (readNext_onlyNet turn.env.target turn.conn m) ?_
  rintro (- | p) m₁ ⟨h₁, hconn⟩
  · exact hnone m₁ h₁
  rw [wp_bind, wp_relocateTimes, wp_bind]
  refine wp_imp wp_returns ?_
  rintro ⟨status, p', store'⟩ m₂ hok
  rw [wp_bind, wp_relocateTimes, wp_bind]
  refine wp_imp (destroy_onlyNet p' m₂) fun _ m' h' => ?_
  exact hsome p m₁ status p' store' m₂ m' h₁ (hconn p rfl) hok h'

/-- A turn is a step that handles a packet, between two changes of the network. -/
theorem LoopStep.run (h : LoopStep target s l s') :
    ∃ ls, Run (Step target) s ls s' := by
  cases h with
  | @turn turn handled store' m' htarget howned hserve =>
      refine wp.ok (Q := fun r m' => ∃ ls, Run (Step target) s ls ⟨r.2, m'⟩)
        (serve_parts ?_ ?_) hserve
      · rintro _ ⟨net, rfl⟩
        exact ⟨_, .cons (.network net) .nil⟩
      · rintro p _ status p' store' m₂ _ ⟨net, rfl⟩ hconn hok ⟨net', rfl⟩
        have hhandle : Step target ⟨s.store, { s.machine with net }⟩ (.handled p status)
            ⟨store', m₂⟩ := .handle htarget (hconn ▸ howned) hok
        exact ⟨_, .cons (.network net) (.cons hhandle (.cons (.network net') .nil))⟩
  | remove clientId => exact ⟨_, .cons (.remove clientId) .nil⟩
  | network net => exact ⟨_, .cons (.network net) .nil⟩

/-- **A run of the loop is a run of the server.** -/
theorem run_steps (h : Run (LoopStep target) s ls s') : ∃ ls', Run (Step target) s ls' s' := by
  induction h with
  | nil => exact ⟨[], .nil⟩
  | cons hstep _ ih =>
      obtain ⟨ls₁, h₁⟩ := hstep.run
      obtain ⟨ls₂, h₂⟩ := ih
      exact ⟨ls₁ ++ ls₂, Run.append_iff.mpr ⟨_, h₁, h₂⟩⟩

/-- Between the turns of a loop every observer is that of a subscription, and every
key in the store decodes. -/
theorem loop_invariant [LawfulKeyType K] {net : W}
    (h : Run (LoopStep target) (.initial K net) ls s) :
    Served s.store ∧ KeysDecode s.store := by
  obtain ⟨ls', h'⟩ := run_steps h
  exact ⟨run_served h' (served_initial net), run_keysDecode h' (keysDecode_initial net)⟩

end Gnat
