/-
Gnat/Orders.lean

What clients can see of the order in which a hash table is iterated.

A new subscription is told what is retained in the order in which `AddObserver` finds it
in its `unordered_map`, and the standard leaves that order open.  Two events are the same
(`Event.Same`) if they differ in it only.  Two runs of the service on the same events end
in the same state, with the same statuses, and tell alike (`service_run_same`): the
messages about a topic are the same, in the same order, and so are the answers.  So it is
with what clients read from two servers, also if these are compiled for different
platforms and run on different networks (`order_unobservable`).
-/
import Gnat.Lib.Order
import Gnat.Service

namespace Gnat

open Lib Prog StreamNetwork

/-- The events differ in the order of iteration only. -/
inductive Event.Same {K : Type} : Event K → Event K → Prop
  | packet (a : Arrival) (order order' : IterationOrder K) :
      Same (.packet a order) (.packet a order')
  | remove (clientId : UInt32) : Same (.remove clientId) (.remove clientId)

/-- The topic a message is about, if it is a publication. -/
def Told.topic : Told → Option (List UInt8)
  | publish topic _ => some topic
  | _ => none

/-- The messages about each topic are the same, in the same order, and so are the answers. -/
abbrev Told.Post.Alike (post post' : Told.Post) : Prop :=
  SameBy (fun x => x.2.topic) post post'

theorem Told.Post.Alike.onSocket {post post' : Told.Post} (h : post.Alike post') (socket : Nat) :
    SameBy Told.topic (post.onSocket socket) (post'.onSocket socket) :=
  (SameBy.filter h _).map Function.injective_id fun _ => rfl

variable {K : Type} {covers : Covers} {v v₁ v₂ : Service} {l l' : ServiceLabel K}
variable {ls ls' : List (ServiceLabel K)}

/-- Calls that are alike tell alike. -/
theorem notes_alike {calls calls' : List (Board.Call (List UInt8) (List UInt8) Subscriber)}
    (h : SameBy Board.Call.key calls calls') :
    Told.Post.Alike (notes covers calls) (notes covers calls') :=
  (h.filter _).map (Option.some_injective _) fun _ => rfl

/-- What a step can be is settled by the message. -/
theorem ServiceStep.same (h : ServiceStep covers v l v₁) (h' : ServiceStep covers v l' v₂)
    (hsame : l.event.Same l'.event) :
    v₁ = v₂ ∧ l.status = l'.status ∧ Told.Post.Alike l.told l'.told := by
  cases h with
  | publish hmsg hstep =>
      cases h' with
      | publish hmsg' hstep' =>
          cases hsame
          cases hmsg.symm.trans hmsg'
          obtain ⟨hv, hcalls⟩ := hstep.sameBy hstep'
          exact ⟨hv, rfl, notes_alike hcalls⟩
      | subscribe hmsg' | reject hmsg' =>
          cases hsame
          cases hmsg.symm.trans hmsg'
      | answer hpublish =>
          cases hsame
          exact absurd (by rw [hmsg]; rfl) hpublish
      | remove => cases hsame
  | subscribe hmsg hplus hstep =>
      cases h' with
      | publish hmsg' =>
          cases hsame
          cases hmsg.symm.trans hmsg'
      | subscribe hmsg' _ hstep' =>
          cases hsame
          obtain ⟨rfl, hfilters⟩ := Message.subscribe.inj (hmsg.symm.trans hmsg')
          obtain ⟨rfl, hf⟩ := List.append_inj' hfilters rfl
          obtain rfl := List.singleton_inj.mp hf
          obtain ⟨hv, hcalls⟩ := hstep.sameBy hstep'
          refine ⟨hv, rfl, ?_⟩
          exact SameBy.append (SameBy.refl _ [_]) (notes_alike hcalls)
      | reject hmsg' hrejected =>
          cases hsame
          obtain ⟨-, rfl⟩ := Message.subscribe.inj (hmsg.symm.trans hmsg')
          obtain ⟨g, hg, hgplus⟩ := hrejected
          exact absurd hgplus (hplus g hg)
      | answer _ hsubscribe =>
          cases hsame
          exact absurd (by rw [hmsg]; rfl) hsubscribe
      | remove => cases hsame
  | reject hmsg hrejected =>
      cases h' with
      | publish hmsg' =>
          cases hsame
          cases hmsg.symm.trans hmsg'
      | subscribe hmsg' hplus =>
          cases hsame
          obtain ⟨-, rfl⟩ := Message.subscribe.inj (hmsg.symm.trans hmsg')
          obtain ⟨g, hg, hgplus⟩ := hrejected
          exact absurd hgplus (hplus g hg)
      | reject => exact ⟨rfl, rfl, .refl _ _⟩
      | answer _ hsubscribe =>
          cases hsame
          exact absurd (by rw [hmsg]; rfl) hsubscribe
      | remove => cases hsame
  | answer hpublish hsubscribe =>
      cases h' with
      | publish hmsg' =>
          cases hsame
          exact absurd (by rw [hmsg']; rfl) hpublish
      | subscribe hmsg' | reject hmsg' =>
          cases hsame
          exact absurd (by rw [hmsg']; rfl) hsubscribe
      | answer =>
          cases hsame
          exact ⟨rfl, rfl, .refl _ _⟩
      | remove => cases hsame
  | remove hstep =>
      cases h' with
      | publish | subscribe | reject | answer => cases hsame
      | remove hstep' =>
          cases hsame
          obtain ⟨hv, -⟩ := hstep.sameBy hstep'
          exact ⟨hv, rfl, .refl _ _⟩

/-- Two runs of the service on the same events. -/
theorem service_run_same (h : Run (ServiceStep covers) v ls v₁)
    (h' : Run (ServiceStep covers) v ls' v₂)
    (hsame : List.Forall₂ Event.Same (ls.map ServiceLabel.event) (ls'.map ServiceLabel.event)) :
    v₁ = v₂ ∧ ls.map ServiceLabel.status = ls'.map ServiceLabel.status ∧
      Told.Post.Alike (ls.flatMap ServiceLabel.told) (ls'.flatMap ServiceLabel.told) := by
  induction h generalizing ls' v₂ with
  | nil =>
      obtain rfl := List.map_eq_nil_iff.mp (List.forall₂_nil_left_iff.mp hsame)
      cases h'
      exact ⟨rfl, rfl, .refl _ _⟩
  | cons hstep _ ih =>
      cases h' with
      | nil => cases hsame
      | cons hstep' hrun' =>
          obtain ⟨hhead, hrest⟩ := List.forall₂_cons.mp hsame
          obtain ⟨rfl, hstatus, htold⟩ := hstep.same hstep' hhead
          obtain ⟨hv, hstatuses, htold'⟩ := ih hrun' hrest
          refine ⟨hv, ?_, ?_⟩
          · rw [List.map_cons, List.map_cons, hstatus, hstatuses]
          · rw [List.flatMap_cons, List.flatMap_cons]
            exact SameBy.append htold htold'

section

variable {W W' : Type} [ReliableNetwork W] [ReliableNetwork W'] [DecidableEq K] [KeyType K]
variable [LawfulKeyType K] {target target' : Target} {Topic : List UInt8 → Prop}

omit [DecidableEq K] [KeyType K] [LawfulKeyType K] in
theorem Event.Same.speakable {events events' : List (Event K)}
    (h : List.Forall₂ Event.Same events events') (hevents : ∀ e ∈ events, e.Speakable Topic) :
    ∀ e ∈ events', e.Speakable Topic := by
  induction h with
  | nil => exact hevents
  | cons hsame _ ih =>
      obtain ⟨hhead, hrest⟩ := List.forall_mem_cons.mp hevents
      refine List.forall_mem_cons.mpr ⟨?_, ih hrest⟩
      cases hsame with
      | packet a order => exact speakable_packet (hhead a order rfl)
      | remove => rintro _ _ ⟨⟩

/-- **Nobody sees the order of a hash table** but in the order of what is retained for
different topics.  Two servers with keys that speak of the same topics get the same
events; the orders in which they iterate, their platforms and their networks may differ.
Then both return, with the same statuses and the same payloads retained, and what a client
reads from one is what it reads from the other, in another order at most, and in the same
order about each topic and of the answers. -/
theorem order_unobservable {net : W} {net' : W'} (hnet : ∀ socket, input socket net = [])
    (hnet' : ∀ socket, input socket net' = []) (hS : Speaks K target Topic covers)
    (hS' : Speaks K target' Topic covers) {events events' : List (Event K)}
    (hsame : List.Forall₂ Event.Same events events')
    (hevents : ∀ e ∈ events, e.Speakable Topic) :
    ∃ statuses s s',
      processAll target (.initial K net) events = .ok (statuses, s) ∧
      processAll target' (.initial K net') events' = .ok (statuses, s') ∧
      (∀ topic key key', KeyFor target Topic topic key → KeyFor target' Topic topic key' →
        (s.store.get key).map DataStoreEntry.data = (s'.store.get key').map DataStoreEntry.data) ∧
      ∀ socket, ∃ told told', Finds (s.bytesTo socket) told ∧ Finds (s'.bytesTo socket) told' ∧
        told.Perm told' ∧ SameBy Told.topic told told' := by
  have hevents' : ∀ e ∈ events', e.Speakable Topic := Event.Same.speakable hsame hevents
  obtain ⟨statuses, s, ls, v, ws, hok, hrun, rfl, rfl, hwritten, hvoices, hfits, h⟩ :=
    (serves_initial hnet).processAll hS hevents
  obtain ⟨statuses', s', ls', v', ws', hok', hrun', rfl, rfl, hwritten', hvoices', hfits', h'⟩ :=
    (serves_initial hnet').processAll hS' hevents'
  obtain rfl : s.machine.written = ws := hwritten
  obtain rfl : s'.machine.written = ws' := hwritten'
  obtain ⟨rfl, hstatuses, halike⟩ := service_run_same hrun hrun' hsame
  refine ⟨_, s, s', hok, hstatuses ▸ hok', ?_, ?_⟩
  · intro topic key key' hkey hkey'
    rw [h.store_get hkey, h'.store_get hkey']
  · intro socket
    have hsocket := halike.onSocket socket
    exact ⟨_, _, hvoices.finds hfits socket, hvoices'.finds hfits' socket, hsocket.perm, hsocket⟩

end

/-- The order in which the model keeps the entries, from the back. -/
def IterationOrder.backwards (K : Type) : IterationOrder K :=
  ⟨fun entries => entries.entries.reverse, fun entries => List.reverse_perm entries.entries⟩

/-- The client 7 subscribes to everything when something is retained for `k` and `m`. -/
def subscribesLate (order : IterationOrder StdString) : List (Event StdString) :=
  [publishAs8 0x39 [0x6B] [11] rfl (by decide) (by decide),
    publishAs8 0x39 [0x6D] [12] rfl (by decide) (by decide),
    .packet (subscribeAs7 5 [⟨[hash], 0⟩] (by decide) (by decide)) order]

/-- It reads the two in an order that depends on that of the iteration. -/
theorem order_unobservable_late :
    ∃ statuses s s' told told',
      processAll {} (.initial StdString ({} : Wire)) (subscribesLate (.asKept StdString)) =
        .ok (statuses, s) ∧
      processAll { charSigned := false } (.initial StdString ({} : Wire))
        (subscribesLate (.backwards StdString)) = .ok (statuses, s') ∧
      s.bytesTo 1 = [0x90, 3, 0, 5, 0, 0x30, 4, 0, 1, 0x6D, 12, 0x30, 4, 0, 1, 0x6B, 11] ∧
      s'.bytesTo 1 = [0x90, 3, 0, 5, 0, 0x30, 4, 0, 1, 0x6B, 11, 0x30, 4, 0, 1, 0x6D, 12] ∧
      Finds (s.bytesTo 1) told ∧ Finds (s'.bytesTo 1) told' ∧ told.Perm told' := by
  have hnet : ∀ socket, input socket ({} : Wire) = [] := fun _ => rfl
  have hsame : List.Forall₂ Event.Same (subscribesLate (.asKept StdString))
      (subscribesLate (.backwards StdString)) :=
    .cons (.packet _ _ _) (.cons (.packet _ _ _) (.cons (.packet _ _ _) .nil))
  obtain ⟨statuses, s, s', hok, hok', -, hread⟩ := order_unobservable hnet hnet
    (speaks_string {}) (speaks_string { charSigned := false }) hsame
    fun e _ => speakable_string e
  obtain ⟨told, told', hfinds, hfinds', hperm, -⟩ := hread 1
  have hbytes : (processAll {} (.initial StdString ({} : Wire))
      (subscribesLate (.asKept StdString))).map (fun r => r.2.bytesTo 1) =
        .ok [0x90, 3, 0, 5, 0, 0x30, 4, 0, 1, 0x6D, 12, 0x30, 4, 0, 1, 0x6B, 11] := by
    decide +kernel
  have hbytes' : (processAll { charSigned := false } (.initial StdString ({} : Wire))
      (subscribesLate (.backwards StdString))).map (fun r => r.2.bytesTo 1) =
        .ok [0x90, 3, 0, 5, 0, 0x30, 4, 0, 1, 0x6B, 11, 0x30, 4, 0, 1, 0x6D, 12] := by
    decide +kernel
  rw [hok] at hbytes
  rw [hok'] at hbytes'
  exact ⟨statuses, s, s', told, told', hok, hok', Except.ok.inj hbytes, Except.ok.inj hbytes',
    hfinds, hfinds', hperm⟩

end Gnat
