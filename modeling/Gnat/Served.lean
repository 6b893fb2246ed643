/-
Gnat/Served.lean

What the observers of a server do, whatever the network does.

Every observer a server adds belongs to a `Subscription`; a store with only
such observers is `Served`, and stays so.  The observers of a served store
only write on the heap copies of their subscriptions: `Sends P` is a run of
writes on connections that satisfy `P`.
-/
import Gnat.Handled

namespace Gnat

open Lib Prog

variable {W : Type} [Network W] {K : Type} [KeyType K]

/-! ### Runs of writes -/

/-- One write on a connection that satisfies `P`. -/
inductive SendStep (P : ClientConnection → Prop) : Machine W → Machine W → Prop
  | writePartial {conn : ClientConnection} {bytes : List UInt8} {accepted : Bool}
      {m m' : Machine W} :
      P conn → conn.writePartial bytes m = .ok (accepted, m') → SendStep P m m'
  | write {conn : ClientConnection} {bytes : List UInt8} {accepted : Bool}
      {m m' : Machine W} :
      P conn → conn.write bytes m = .ok (accepted, m') → SendStep P m m'

/-- A run of writes on connections that satisfy `P`. -/
abbrev Sends (P : ClientConnection → Prop) : Machine W → Machine W → Prop :=
  Relation.ReflTransGen (SendStep P)

variable {P : ClientConnection → Prop} {m m' : Machine W}

theorem write_written {conn : ClientConnection} {bytes : List UInt8} {accepted : Bool}
    (h : conn.write bytes m = .ok (accepted, m')) :
    m'.written = m.written ++ [⟨conn, bytes, accepted⟩] := by
  simp only [ClientConnection.write, Except.ok.injEq, Prod.mk.injEq] at h
  obtain ⟨rfl, rfl⟩ := h
  rfl

theorem SendStep.written (h : SendStep P m m') :
    ∃ w : Write, m'.written = m.written ++ [w] ∧ P w.via := by
  cases h with
  | writePartial hP hw | write hP hw =>
      cases hw
      exact ⟨_, rfl, hP⟩

/-- The record grows by writes on such connections. -/
theorem Sends.written (h : Sends P m m') :
    ∃ ws, m'.written = m.written ++ ws ∧ ∀ w ∈ ws, P w.via := by
  induction h with
  | refl => exact ⟨[], (List.append_nil _).symm, List.forall_mem_nil _⟩
  | tail _ hstep ih =>
      obtain ⟨ws, hws, hP⟩ := ih
      obtain ⟨w, hw, hPw⟩ := hstep.written
      refine ⟨ws ++ [w], by rw [hw, hws, List.append_assoc], fun w' hw' => ?_⟩
      rcases List.mem_append.mp hw' with hw' | hw'
      · exact hP w' hw'
      · exact List.mem_singleton.mp hw' ▸ hPw

theorem Sends.mono {P' : ClientConnection → Prop} (hP : ∀ conn, P conn → P' conn)
    (h : Sends P m m') : Sends P' m m' := by
  induction h with
  | refl => exact .refl
  | tail _ hstep ih =>
      cases hstep with
      | writePartial hc hw => exact ih.tail (.writePartial (hP _ hc) hw)
      | write hc hw => exact ih.tail (.write (hP _ hc) hw)

/-! ### Observers -/

theorem Publish.sendOn_sends (publish : Publish) (conn : ClientConnection)
    (payload : List UInt8) (m : Machine W) :
    wp (publish.sendOn conn payload) (fun _ m' => Sends (· = conn) m m')
      (· ≠ .packetReadAssert) m := by
  unfold Publish.sendOn
  split
  · exact fun h => Fault.noConfusion h
  · simp only [wp_bind, wp_check, wp_ite]
    split
    · refine wp_imp (Q := fun accepted m' => ∃ bytes, conn.writePartial bytes m =
        .ok (accepted, m')) ⟨_, rfl⟩ ?_
      rintro (- | -) m₁ ⟨bytes, hw⟩
      · exact .single (.writePartial rfl hw)
      · exact (Relation.ReflTransGen.single (.writePartial rfl hw)).tail (.write rfl rfl)
    · exact fun h => Fault.noConfusion h

/-- An observer writes on its own connection only, and does not reach the
assertion of `Packet::Read`. -/
theorem observer_sends (matcher : K → Bool) (conn : ClientConnection) (key : K)
    (entry : DataStoreEntry) (m : Machine W) :
    wp (observer matcher conn key entry) (fun _ m' => Sends (· = conn) m m')
      (· ≠ .packetReadAssert) m := by
  simp only [observer, wp_ite, wp_bind, wp_ofExcept, wp_pure]
  split
  · split
    · refine wp_imp (Publish.sendOn_sends _ conn entry.data m) ?_
      rintro (- | -) m' h <;> exact h
    · next e he =>
      rw [KeyType.decodeKey_fault he]
      decide
  · exact .refl

/-! ### Served stores -/

/-- The observers of the store are those of the subscriptions `subs`. -/
def ServedBy (store : Store K W) (subs : List (Subscription K)) : Prop :=
  store.observers = subs.map Subscription.entry

/-- Every observer of the store belongs to a subscription. -/
def Served (store : Store K W) : Prop :=
  ∃ subs, ServedBy store subs

theorem served_empty : Served ({} : Store K W) :=
  ⟨[], rfl⟩

variable {store : Store K W} {subs : List (Subscription K)}

/-- What each observer of a subscription keeps, `NotifyObservers` keeps. -/
theorem wp_notifyAll {subs : List (Subscription K)} {key : K} {entry : DataStoreEntry}
    {I : Machine W → Prop} {E : Fault → Prop} (h₀ : I m)
    (h : ∀ s ∈ subs, ∀ m₁, I m₁ →
      wp (observer s.matcher s.conn key entry) (fun _ m' => I m') E m₁) :
    wp (DataStore.notifyAll (subs.map Subscription.entry) key entry)
      (fun _ m' => I m') E m := by
  refine wp_forM h₀ fun o ho m₁ h₁ => ?_
  obtain ⟨s, hs, rfl⟩ := List.mem_map.mp ho
  rw [wp_bind]
  exact h s hs m₁ h₁

/-- What an observer keeps, the loop of `AddObserver` keeps. -/
theorem wp_replay {s : Subscription K} {entries : List (Sigma fun _ : K => DataStoreEntry)}
    {I : Machine W → Prop} {E : Fault → Prop} (h₀ : I m)
    (h : ∀ e ∈ entries, ∀ m₁, I m₁ →
      wp (observer s.matcher s.conn e.1 e.2) (fun _ m' => I m') E m₁) :
    wp (DataStore.replay s.entry.handler entries) (fun _ m' => I m') E m := by
  refine wp_forM h₀ fun e he m₁ h₁ => ?_
  rw [wp_bind]
  exact h e he m₁ h₁

theorem notifyAll_sends (subs : List (Subscription K)) (key : K) (entry : DataStoreEntry)
    (m : Machine W) :
    wp (DataStore.notifyAll (subs.map Subscription.entry) key entry)
      (fun _ m' => Sends (fun conn => ∃ s ∈ subs, conn = s.conn) m m')
      (· ≠ .packetReadAssert) m := by
  refine wp_notifyAll (I := fun m' => Sends _ m m') .refl fun s hs m₁ h₁ => ?_
  refine wp_imp (observer_sends s.matcher s.conn key entry m₁) fun _ m₂ h₂ => ?_
  exact h₁.trans (h₂.mono fun conn hconn => ⟨s, hs, hconn⟩)

theorem replay_sends (s : Subscription K)
    (entries : List (Sigma fun _ : K => DataStoreEntry)) (m : Machine W) :
    wp (DataStore.replay s.entry.handler entries)
      (fun _ m' => Sends (· = s.conn) m m') (· ≠ .packetReadAssert) m := by
  refine wp_replay (I := fun m' => Sends _ m m') .refl fun e _ m₁ h₁ => ?_
  exact wp_imp (observer_sends s.matcher s.conn e.1 e.2 m₁) fun _ m₂ h₂ => h₁.trans h₂

theorem addObserver_sends (order : IterationOrder K) (s : Subscription K) (m : Machine W) :
    wp (store.addObserver order s.entry) (fun _ m' => Sends (· = s.conn) m m')
      (· ≠ .packetReadAssert) m := by
  unfold DataStore.addObserver
  rw [wp_bind]
  exact wp_imp (replay_sends s _ m) fun _ _ hs => hs

/-! ### Served stores stay served -/

theorem ServedBy.remove (h : ServedBy store subs) (clientId : UInt32) :
    ServedBy (store.removeObserversForClient clientId)
      (subs.filter fun s => s.conn.id ≠ clientId) := by
  unfold ServedBy DataStore.removeObserversForClient
  rw [h, List.filter_map]
  rfl

section

variable [DecidableEq K]

theorem set_sends (h : ServedBy store subs) (key : K) (entry : DataStoreEntry)
    (m : Machine W) :
    wp (store.set key entry)
      (fun _ m' => Sends (fun conn => ∃ s ∈ subs, conn = s.conn) m m')
      (· ≠ .packetReadAssert) m := by
  rw [DataStore.set_eq, h, wp_bind]
  exact wp_imp (notifyAll_sends subs key entry m) fun _ _ hs => hs

/-- Where a call of `HandleMessage` writes: on the packet's own connection, on
the heap copies of the subscriptions when it publishes, on the new heap copy
when it subscribes. -/
theorem ServedBy.writes {env : Env K} {store' : Store K W} {p p' : Packet}
    {status : Status} (h : ServedBy store subs)
    (hh : Handled env store p m status p' store' m') :
    ∃ ws, m'.written = m.written ++ ws ∧ ∀ w ∈ ws,
      w.via.copy = p.connection.copy ∨
      p.type = .publish ∧ (∃ s ∈ subs, w.via = s.conn) ∨
      p.type = .subscribe ∧ ∃ n, w.via = heapCopy p.connection n := by
  cases hh with
  | failed hr => exact ⟨[], by rw [hr.sameOutput.written, List.append_nil], List.forall_mem_nil _⟩
  | @replied p₁ m₁ _ type bytes accepted _ hr hw =>
      refine ⟨_, by rw [write_written hw, hr.sameOutput.written], fun w hw' => .inl ?_⟩
      rw [List.mem_singleton.mp hw', ← hr.sameOutput.connection]
      cases type <;> rfl
  | closed _ hclose =>
      cases hclose
      exact ⟨[], (List.append_nil _).symm, List.forall_mem_nil _⟩
  | published hp _ _ _ hr hset =>
      obtain ⟨ws, hws, hvia⟩ := ((set_sends h _ _ _).ok hset).written
      exact ⟨ws, by rw [hws, hr.sameOutput.written], fun w hw => .inr (.inl ⟨hp, hvia w hw⟩)⟩
  | @subscribed _ _ _ _ bytes filter key n _ hp hr hw _ _ hadd =>
      obtain ⟨ws, hws, hvia⟩ := ((addObserver_sends _ _ _).ok hadd).written
      refine ⟨⟨p'.connection, bytes, true⟩ :: ws, ?_, fun w hw' => ?_⟩
      · rw [hws, write_written hw, hr.sameOutput.written, List.append_assoc]
        rfl
      · rcases List.mem_cons.mp hw' with rfl | hw'
        · exact .inl (by rw [hr.sameOutput.connection])
        · exact .inr (.inr ⟨hp, n, hvia w hw'⟩)

theorem ServedBy.handled {env : Env K} {store' : Store K W} {p p' : Packet}
    {status : Status} (h : ServedBy store subs)
    (hh : Handled env store p m status p' store' m') :
    ServedBy store' subs ∨
      p.type = .subscribe ∧ ∃ filter key n,
        ServedBy store' (subs ++ [subscriptionTo p.connection filter key n]) := by
  cases hh with
  | failed | replied | closed => exact .inl h
  | published _ _ _ _ _ hset =>
      left
      rw [(set_ok hset).1]
      exact h
  | @subscribed _ _ _ _ _ filter key n _ hp _ _ _ _ hadd =>
      refine .inr ⟨hp, filter, key, n, ?_⟩
      rw [(addObserver_ok hadd).1, ServedBy, List.map_append, ← h]
      rfl

end

end Gnat
