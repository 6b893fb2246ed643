/-
Gnat/System.lean

The broker as a transition system.

A step is a call of `HandleMessage` on some packet, a call of
`RemoveObserversForClient` by the application around the server, or anything
at all that happens to the network: bytes arrive, connections break, headers
are read and packets are drained.  So a run is any interleaving of the packets
of any clients, well-formed or not.
-/
import Gnat.Lib.Run
import Gnat.Served

namespace Gnat

open Lib Prog

variable {W : Type} [Network W] {K : Type} [DecidableEq K] [KeyType K]

/-- The store of a server and the machine it runs on. -/
structure ServerState (K W : Type) where
  store : Store K W
  machine : Machine W

/-- A server before its first packet. -/
def ServerState.initial (K : Type) {W : Type} (net : W) : ServerState K W :=
  ⟨{}, { net }⟩

/-- What a step did. -/
inductive Label
  | handled (packet : Packet) (status : Status)
  | removed (clientId : UInt32)
  | network
  deriving DecidableEq

/-- The step handled a SUBSCRIBE of the client with id `c`. -/
def Label.SubscribesAs (c : UInt32) : Label → Prop
  | handled packet _ => packet.type = .subscribe ∧ packet.connection.id = c
  | removed _ => False
  | network => False

instance (c : UInt32) : (l : Label) → Decidable (l.SubscribesAs c)
  | .handled packet _ =>
      inferInstanceAs (Decidable (packet.type = .subscribe ∧ packet.connection.id = c))
  | .removed _ => isFalse id
  | .network => isFalse id

/-- The steps of a server compiled for `target`.  A packet is read from a
connection the application owns, which is not one of the heap copies. -/
inductive Step (target : Target) : ServerState K W → Label → ServerState K W → Prop
  | handle {s : ServerState K W} {env : Env K} {p p' : Packet} {status : Status}
      {store' : Store K W} {m' : Machine W} :
      env.target = target → p.connection.copy = none →
      handleMessage env s.store p s.machine = .ok ((status, p', store'), m') →
      Step target s (.handled p status) ⟨store', m'⟩
  | remove {s : ServerState K W} (clientId : UInt32) :
      Step target s (.removed clientId)
        ⟨s.store.removeObserversForClient clientId, s.machine⟩
  | network {s : ServerState K W} (net : W) :
      Step target s .network ⟨s.store, { s.machine with net }⟩

variable {target : Target} {s s' : ServerState K W} {l : Label} {ls : List Label}

/-- Every observer of a running server belongs to a subscription. -/
theorem Step.served (h : Step target s l s') (hs : Served s.store) : Served s'.store := by
  obtain ⟨subs, hs⟩ := hs
  cases h with
  | handle _ _ hok =>
      rcases hs.handled (handled_of_ok hok) with hs' | ⟨-, filter, key, n, hs'⟩
      · exact ⟨_, hs'⟩
      · exact ⟨_, hs'⟩
  | remove clientId => exact ⟨_, hs.remove clientId⟩
  | network net => exact ⟨_, hs⟩

theorem run_served (h : Run (Step target) s ls s') (hs : Served s.store) :
    Served s'.store :=
  h.invariant (I := fun t => Served t.store) (fun _ _ _ => Step.served) hs

omit [DecidableEq K] in
theorem served_initial (net : W) : Served (ServerState.initial K net).store :=
  served_empty

/-! ### Runs that are computed -/

/-- What the application does with a server compiled for `target`. -/
inductive Action (target : Target) (K W : Type)
  | handle (env : Env K) (packet : Packet) (compiled : env.target = target)
      (owned : packet.connection.copy = none)
  | remove (clientId : UInt32)
  | network (change : W → W)

/-- The step an action takes, if it returns. -/
def Action.perform (s : ServerState K W) :
    Action target K W → Except Fault (Label × ServerState K W)
  | handle env p _ _ => do
      let ((status, _, store), machine) ← handleMessage env s.store p s.machine
      return (.handled p status, ⟨store, machine⟩)
  | remove clientId =>
      return (.removed clientId, ⟨s.store.removeObserversForClient clientId, s.machine⟩)
  | network change =>
      return (.network, ⟨s.store, { s.machine with net := change s.machine.net }⟩)

/-- The run of a list of actions, if each returns. -/
def play (s : ServerState K W) :
    List (Action target K W) → Except Fault (List Label × ServerState K W)
  | [] => return ([], s)
  | a :: actions => do
      let (l, s₁) ← a.perform s
      let (ls, s') ← play s₁ actions
      return (l :: ls, s')

theorem Action.step {a : Action target K W} (h : a.perform s = .ok (l, s')) :
    Step target s l s' := by
  cases a with
  | handle env p compiled owned =>
      rcases hm : handleMessage env s.store p s.machine with e | ⟨⟨status, p', store'⟩, m'⟩
      · simp only [perform, hm] at h
        cases h
      · simp only [perform, hm] at h
        cases h
        exact .handle compiled owned hm
  | remove clientId =>
      cases h
      exact .remove clientId
  | network change =>
      cases h
      exact .network _

theorem play_run {actions : List (Action target K W)} (h : play s actions = .ok (ls, s')) :
    Run (Step target) s ls s' := by
  induction actions generalizing s ls with
  | nil =>
      cases h
      exact .nil
  | cons a actions ih =>
      obtain ⟨l, s₁, ha, h⟩ := exists_ok_of_bind h
      obtain ⟨ls₁, s₂, hp, h⟩ := exists_ok_of_bind h
      cases h
      exact .cons (Action.step ha) (ih hp)

end Gnat
