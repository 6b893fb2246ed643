/-
Gnat/Disconnect.lean

When a client's subscriptions end.

A DISCONNECT closes the connection and nothing else: the client's observers
stay, and go on to write on their heap copies.  They go with
`RemoveObserversForClient`, which is the application's to call; after that,
and until the client subscribes again, nothing is written on a heap copy held
for it.
-/
import Gnat.Network
import Gnat.System

namespace Gnat

open Lib Prog

variable {W : Type} [Network W] {K : Type} [DecidableEq K] [KeyType K]
variable {target : Target} {s s' : ServerState K W} {l : Label} {ls : List Label}
variable {c : UInt32}

/-- The observers are those of subscriptions of clients other than `c`. -/
def ServesOthers (c : UInt32) (store : Store K W) : Prop :=
  ∃ subs, ServedBy store subs ∧ ∀ s ∈ subs, s.conn.id ≠ c

omit [DecidableEq K] in
theorem ServesOthers.clientId {store : Store K W} (h : ServesOthers c store) :
    ∀ o ∈ store.observers, o.clientId ≠ c := by
  obtain ⟨subs, hs, hc⟩ := h
  intro o ho
  rw [hs] at ho
  obtain ⟨s, hmem, rfl⟩ := List.mem_map.mp ho
  exact hc s hmem

omit [DecidableEq K] in
/-- Once `RemoveObserversForClient` was called, the client has no observer. -/
theorem servesOthers_remove {store : Store K W} (h : Served store) :
    ServesOthers c (store.removeObserversForClient c) := by
  obtain ⟨subs, hs⟩ := h
  exact ⟨_, hs.remove c, fun s hmem => of_decide_eq_true (List.mem_filter.mp hmem).2⟩

/-- A step that does not subscribe the client gives it no observer. -/
theorem Step.servesOthers (hl : ¬ l.SubscribesAs c) (h : Step target s l s')
    (hs : ServesOthers c s.store) : ServesOthers c s'.store := by
  obtain ⟨subs, hs, hc⟩ := hs
  cases h with
  | @handle env p p' status store' m' _ _ hok =>
      rcases hs.handled (handled_of_ok hok) with hs' | ⟨hp, filter, key, n, hs'⟩
      · exact ⟨subs, hs', hc⟩
      · refine ⟨_, hs', fun s hmem => ?_⟩
        rcases List.mem_append.mp hmem with hmem | hmem
        · exact hc s hmem
        · rw [List.mem_singleton.mp hmem]
          exact fun hid => hl ⟨hp, hid⟩
  | remove clientId =>
      exact ⟨_, hs.remove clientId, fun s hmem => hc s (List.mem_filter.mp hmem).1⟩
  | network net => exact ⟨subs, hs, hc⟩

/-- The record grew since `m`, but not by writes on heap copies held for `c`. -/
def QuietSince (c : UInt32) (m m' : Machine W) : Prop :=
  ∃ ws, m'.written = m.written ++ ws ∧ ∀ w ∈ ws, w.via.copy.isSome → w.via.id ≠ c

omit [Network W] in
theorem QuietSince.trans {m m₁ m' : Machine W} (h : QuietSince c m m₁)
    (h' : QuietSince c m₁ m') : QuietSince c m m' := by
  obtain ⟨ws, hws, hc⟩ := h
  obtain ⟨ws', hws', hc'⟩ := h'
  refine ⟨ws ++ ws', by rw [hws', hws, List.append_assoc], fun w hw => ?_⟩
  exact (List.mem_append.mp hw).elim (hc w) (hc' w)

/-- A step that does not subscribe the client writes on no heap copy held for
it, as long as it has no observer. -/
theorem Step.quietSince (hl : ¬ l.SubscribesAs c) (h : Step target s l s')
    (hs : ServesOthers c s.store) : QuietSince c s.machine s'.machine := by
  obtain ⟨subs, hs, hc⟩ := hs
  cases h with
  | @handle env p p' status store' m' _ hcopy hok =>
      obtain ⟨ws, hws, hvia⟩ := hs.writes (handled_of_ok hok)
      refine ⟨ws, hws, fun w hw hsome => ?_⟩
      rcases hvia w hw with hown | ⟨-, s, hmem, heq⟩ | ⟨hp, n, heq⟩
      · rw [hown, hcopy] at hsome
        cases hsome
      · rw [heq]
        exact hc s hmem
      · rw [heq]
        exact fun hid => hl ⟨hp, hid⟩
  | remove clientId => exact ⟨[], (List.append_nil _).symm, List.forall_mem_nil _⟩
  | network net => exact ⟨[], (List.append_nil _).symm, List.forall_mem_nil _⟩

theorem run_quietSince (h : Run (Step target) s ls s') (hls : ∀ l ∈ ls, ¬ l.SubscribesAs c)
    (hs : ServesOthers c s.store) :
    ServesOthers c s'.store ∧ QuietSince c s.machine s'.machine := by
  refine h.invariant_of (L := fun l => ¬ l.SubscribesAs c)
    (I := fun t => ServesOthers c t.store ∧ QuietSince c s.machine t.machine)
    (fun t l t' hl hstep ht => ?_) hls ⟨hs, [], (List.append_nil _).symm, List.forall_mem_nil _⟩
  exact ⟨hstep.servesOthers hl ht.1, ht.2.trans (hstep.quietSince hl ht.1)⟩

/-- What `HandleMessage` does with a DISCONNECT. -/
theorem handleMessage_disconnect {env : Env K} {store : Store K W} {p : Packet} {m : Machine W}
    (hp : p.type = .disconnect) :
    handleMessage env store p m =
      .ok ((.ok, p, store), { m with net := Network.close p.connection.socket m.net }) := by
  rw [handleMessage, hp]
  rfl

/-- A DISCONNECT closes the connection, and nothing else happens. -/
theorem Step.disconnect {p : Packet} {status : Status} (hp : p.type = .disconnect)
    (h : Step target s (.handled p status) s') :
    status = .ok ∧ s' =
      ⟨s.store, { s.machine with net := Network.close p.connection.socket s.machine.net }⟩ := by
  cases h with
  | handle _ _ hok =>
      cases (handleMessage_disconnect hp).symm.trans hok
      exact ⟨rfl, rfl⟩

/-- **The end of a client's subscriptions.**  In every run of the server in which
a DISCONNECT of a client is handled: the status is OK, the connection is closed, and the
store, what was written and the heap copies are as before; and once
`RemoveObserversForClient` was called for the client after it, in every continuation
without a SUBSCRIBE of the client none of its observers remains and nothing is written on
a heap copy held for it. -/
theorem subscriptions_end {net : W} {s₁ s₂ s₃ s₄ s₅ : ServerState K W}
    {before between after : List Label} {p : Packet} {status : Status}
    (hbefore : Run (Step target) (.initial K net) before s₁)
    (hp : p.type = .disconnect) (hc : p.connection.id = c)
    (hdisconnect : Step target s₁ (.handled p status) s₂)
    (hbetween : Run (Step target) s₂ between s₃)
    (hremove : Step target s₃ (.removed c) s₄)
    (hafter : Run (Step target) s₄ after s₅)
    (hquiet : ∀ l ∈ after, ¬ l.SubscribesAs c) :
    status = .ok ∧
    s₂ = ⟨s₁.store, { s₁.machine with net := Network.close p.connection.socket s₁.machine.net }⟩ ∧
    (∀ o ∈ s₅.store.observers, o.clientId ≠ p.connection.id) ∧
    ∃ ws, s₅.machine.written = s₄.machine.written ++ ws ∧
      ∀ w ∈ ws, w.via.copy.isSome → w.via.id ≠ p.connection.id := by
  rw [hc]
  have hserved : Served s₃.store :=
    run_served hbetween (hdisconnect.served (run_served hbefore (served_initial net)))
  have hothers : ServesOthers c s₄.store := by
    cases hremove
    exact servesOthers_remove hserved
  obtain ⟨hs, hq⟩ := run_quietSince hafter hquiet hothers
  obtain ⟨hstatus, hclosed⟩ := hdisconnect.disconnect hp
  exact ⟨hstatus, hclosed, hs.clientId, hq⟩

/-! ### A conversation -/

/-- The packets of a conversation on a plain wire: the client 7 subscribes to
`a` and disconnects, the client 8 publishes `hi` to `a`. -/
def subscribeA : Packet := ⟨0x82, 6, { socket := 1, id := 7 }⟩
def disconnect7 : Packet := ⟨0xE0, 0, { socket := 1, id := 7 }⟩
def publishHi : Packet := ⟨0x30, 5, { socket := 2, id := 8 }⟩

/-- What the two clients have sent, but for the headers of the packets. -/
def conversationWire : Wire where
  input
    | 1 => [0, 1, 0, 1, 0x61, 0]
    | 2 => [0, 1, 0x61, 0x68, 0x69]
    | _ => []

/-- Handle a packet in a plain environment. -/
def handlePlain (p : Packet) (owned : p.connection.copy = none) :
    Action {} StdString Wire :=
  .handle ⟨{}, 0, .asKept StdString⟩ p rfl owned

theorem subscriptions_end_conversation :
    ∃ s₄ s₅ : ServerState StdString Wire,
      Run (Step {}) s₄ [.handled publishHi .ok] s₅ ∧
      (∀ o ∈ s₅.store.observers, o.clientId ≠ 7) ∧
      ∃ ws, s₅.machine.written = s₄.machine.written ++ ws ∧
        ∀ w ∈ ws, w.via.copy.isSome → w.via.id ≠ 7 := by
  obtain ⟨ls, s₅, h, hls⟩ := exists_ok_of_map
    (t := play (.initial StdString conversationWire)
      [handlePlain subscribeA rfl, handlePlain disconnect7 rfl, .remove 7,
        handlePlain publishHi rfl])
    (g := fun r => r.1)
    (c := [.handled subscribeA .ok, .handled disconnect7 .ok, .removed 7,
      .handled publishHi .ok]) (by decide +kernel)
  obtain rfl := hls
  cases play_run h with
  | cons hsubscribe h =>
    cases h with
    | cons hdisconnect h =>
      cases h with
      | @cons _ s₄ _ _ _ hremove hafter =>
        refine ⟨s₄, s₅, hafter, ?_⟩
        exact (subscriptions_end (p := disconnect7) (.cons hsubscribe .nil) (by decide) rfl
          hdisconnect .nil hremove hafter (by decide)).2.2

/-- What the publication writes, on the heap copy made for the client 7. -/
def relayedHi : List Write :=
  [⟨heapCopy subscribeA.connection 0, [0x30, 5, 0, 1, 0x61], true⟩,
    ⟨heapCopy subscribeA.connection 0, [0x68, 0x69], true⟩]

/-- A DISCONNECT does not end a subscription: the publication that follows is
written on the heap copy held for the client that left. -/
theorem disconnect_keeps_subscriptions :
    ∃ s₂ s₃ : ServerState StdString Wire,
      Run (Step {}) (.initial StdString conversationWire)
        [.handled subscribeA .ok, .handled disconnect7 .ok] s₂ ∧
      disconnect7.type = .disconnect ∧ disconnect7.connection.id = 7 ∧
      Run (Step {}) s₂ [.handled publishHi .ok] s₃ ∧
      ¬ (Label.handled publishHi .ok).SubscribesAs 7 ∧
      s₃.store.observers.map ObserverEntry.clientId = [7] ∧
      s₃.machine.written = s₂.machine.written ++ relayedHi ∧
      ∀ w ∈ relayedHi, w.via.copy.isSome ∧ w.via.id = 7 := by
  have conversation :
      ((do
        let (ls₂, s₂) ← play (.initial StdString conversationWire)
          [handlePlain subscribeA rfl, handlePlain disconnect7 rfl]
        let (ls₃, s₃) ← play s₂ [handlePlain publishHi rfl]
        return (ls₂, ls₃, s₃.store.observers.map ObserverEntry.clientId,
          decide (s₃.machine.written = s₂.machine.written ++ relayedHi))) : Except Fault _) =
        .ok ([Label.handled subscribeA .ok, .handled disconnect7 .ok],
          [Label.handled publishHi .ok], [7], true) := by
    decide +kernel
  obtain ⟨ls₂, s₂, h₂, h⟩ := exists_ok_of_bind conversation
  obtain ⟨ls₃, s₃, h₃, h⟩ := exists_ok_of_bind h
  simp only [pure, Except.pure, Except.ok.injEq, Prod.mk.injEq, decide_eq_true_eq] at h
  obtain ⟨rfl, rfl, hobservers, hwritten⟩ := h
  exact ⟨s₂, s₃, play_run h₂, by decide, rfl, play_run h₃, by decide, hobservers, hwritten,
    by decide⟩

end Gnat
