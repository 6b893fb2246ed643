/-
Gnat/Session.lean

What a client of the library reads of what other clients of the library publish.

First the service alone: what is retained is what was published last
(`service_value`), and what a client hears once its subscriptions stand is what is
published and what they want (`service_heard`).  So a client that subscribes is told
what is retained and then what is published (`subscriber_told`).

Then the clients: a `Request` is a packet of the library, and `converse` lets clients
send requests with `SendOn` and the broker handle the bytes.  They are messages
(`Request.sendOn_bytes`), for which the server is a service.  So from `SendOn` at one
client to the parsers at another every publication arrives once and in order
(`subscriber_reads`), and nothing else but the answers (`service_answered`).
-/
import Gnat.FilterList
import Gnat.Service

namespace Gnat

open Lib Prog StreamNetwork

/-! ### Publications -/

/-- The topic and the payload of what is published. -/
abbrev Publication := List UInt8 × List UInt8

def Told.publication : Told → Option Publication
  | publish topic payload => some (topic, payload)
  | _ => none

def Event.publication {K : Type} : Event K → Option Publication
  | .packet a _ =>
      match a.msg with
      | .publish topic _ payload => some (topic, payload)
      | _ => none
  | .remove _ => none

/-- What is published in the events, in order. -/
def published {K : Type} (events : List (Event K)) : List Publication :=
  events.filterMap Event.publication

/-- The publications for the client on a socket. -/
def heardOn (socket : Nat) (post : Told.Post) : List Publication :=
  (post.onSocket socket).filterMap Told.publication

/-- The answers to the client on a socket. -/
def answersOn (socket : Nat) (post : Told.Post) : List Told :=
  (post.onSocket socket).filter fun t => t.publication.isNone

/-- How a message is answered.  A PUBLISH is not, nor is a SUBSCRIBE with a `+`. -/
def Message.answers : Message → List Told
  | publish .. => []
  | subscribe packetId filters =>
      if ∃ f ∈ filters, plus ∈ f.topic then [] else [.suback packetId 0]
  | msg => msg.answer.2

/-- The answers to the client on a socket for what it sends. -/
def Event.answers {K : Type} (socket : Nat) : Event K → List Told
  | .packet a _ => if a.conn.socket = socket then a.msg.answers else []
  | .remove _ => []

/-- A publication for each of the subscriptions that want it. -/
def wantedBy (covers : Covers) (us : List Subscriber) (e : Publication) : List Publication :=
  (us.filter fun u => covers.wants u.filter e.1).map fun _ => e

/-- The subscriptions on a socket. -/
def Service.on (v : Service) (socket : Nat) : List Subscriber :=
  v.watchers.filter fun u => u.socket = socket

/-- The event does not change the subscriptions on the socket, which are `us`. -/
def Event.Leaves {K : Type} (socket : Nat) (us : List Subscriber) : Event K → Prop
  | .packet a _ => a.msg.type = .subscribe → a.conn.socket ≠ socket
  | .remove clientId => ∀ u ∈ us, u.id ≠ clientId

variable {K : Type} {covers : Covers} {v v' v₁ v₂ v₃ : Service}
variable {l : ServiceLabel K} {ls ls' : List (ServiceLabel K)}
variable {post post' : Told.Post} {us : List Subscriber} {u : Subscriber} {socket : Nat}
variable {calls : List (Board.Call (List UInt8) (List UInt8) Subscriber)}

theorem Told.Post.onSocket_append (socket : Nat) (post post' : Told.Post) :
    Told.Post.onSocket socket (post ++ post') = post.onSocket socket ++ post'.onSocket socket := by
  rw [onSocket, List.filter_append, List.map_append]
  rfl

theorem heardOn_append (socket : Nat) (post post' : Told.Post) :
    heardOn socket (post ++ post') = heardOn socket post ++ heardOn socket post' := by
  rw [heardOn, Told.Post.onSocket_append, List.filterMap_append]
  rfl

/-- Of what the calls tell, those hear it whose subscription is on the socket. -/
theorem heardOn_notes (calls : List (Board.Call (List UInt8) (List UInt8) Subscriber)) :
    heardOn socket (notes covers calls) =
      (calls.filter fun c => c.watcher.socket = socket ∧ covers.wants c.watcher.filter c.key).map
        fun c => (c.key, c.value) := by
  rw [heardOn, Told.Post.onSocket, notes, List.filter_map, List.map_map, List.filterMap_map,
    List.filter_filter]
  have hall : ∀ c : Board.Call (List UInt8) (List UInt8) Subscriber,
      (Told.publication ∘ Prod.snd ∘ fun c : Board.Call (List UInt8) (List UInt8) Subscriber =>
        (c.watcher.socket, Told.publish c.key c.value)) c = some (c.key, c.value) := fun _ => rfl
  rw [List.filterMap_congr fun c _ => hall c, List.filterMap_eq_map']
  simp only [Function.comp_apply, Bool.decide_and, Bool.decide_eq_true]

/-- What is set is heard once for each subscription on the socket that wants it. -/
theorem heardOn_set (v : Service) (topic payload : List UInt8) :
    heardOn socket (notes covers (v.watchers.map fun u => ⟨u, topic, payload⟩)) =
      wantedBy covers (v.on socket) (topic, payload) := by
  rw [heardOn_notes, List.filter_map, List.map_map, wantedBy, Service.on, List.filter_filter]
  simp only [Function.comp_def, Bool.decide_and, Bool.decide_eq_true, Bool.and_comm]

/-- A new subscription hears what it wants of what is retained. -/
theorem heardOn_watch (u : Subscriber) (retained : List Publication) :
    heardOn u.socket (notes covers (retained.map fun e => ⟨u, e.1, e.2⟩)) =
      retained.filter fun e => covers.wants u.filter e.1 := by
  rw [heardOn_notes, List.filter_map, List.map_map]
  simp [Function.comp_def]

theorem heardOn_watch_other {u : Subscriber} (retained : List Publication)
    (hsocket : u.socket ≠ socket) :
    heardOn socket (notes covers (retained.map fun e => ⟨u, e.1, e.2⟩)) = [] := by
  rw [heardOn_notes, List.filter_map, List.map_map]
  simp [Function.comp_def, hsocket]

theorem published_cons (e : Event K) (events : List (Event K)) :
    published (e :: events) = e.publication.toList ++ published events := by
  rw [published, List.filterMap_cons]
  cases e.publication <;> rfl

theorem published_append (events events' : List (Event K)) :
    published (events ++ events') = published events ++ published events' :=
  List.filterMap_append ..

theorem answersOn_append (socket : Nat) (post post' : Told.Post) :
    answersOn socket (post ++ post') = answersOn socket post ++ answersOn socket post' := by
  rw [answersOn, Told.Post.onSocket_append, List.filter_append]
  rfl

/-- A note is not an answer. -/
theorem answersOn_notes (calls : List (Board.Call (List UInt8) (List UInt8) Subscriber)) :
    answersOn socket (notes covers calls) = [] := by
  apply List.filter_eq_nil_iff.mpr
  intro t ht
  obtain ⟨x, hx, rfl⟩ := List.mem_map.mp ht
  obtain ⟨c, -, rfl⟩ := List.mem_map.mp (List.mem_filter.mp hx).1
  exact Bool.false_ne_true

/-- An answer is not a publication. -/
theorem Message.answer_publication (msg : Message) :
    ∀ t ∈ msg.answer.2, t.publication = none := by
  unfold Message.answer
  split
  · exact List.forall_mem_singleton.mpr rfl
  · exact List.forall_mem_singleton.mpr rfl
  · exact List.forall_mem_nil _
  · exact List.forall_mem_nil _

theorem Message.answers_eq (msg : Message) (hpublish : msg.type ≠ .publish)
    (hsubscribe : msg.type ≠ .subscribe) : msg.answers = msg.answer.2 := by
  cases msg with
  | publish => exact absurd rfl hpublish
  | subscribe => exact absurd rfl hsubscribe
  | _ => rfl

theorem onSocket_answer (a : Arrival) :
    Told.Post.onSocket socket (a.msg.answer.2.map fun t => (a.conn.socket, t)) =
      if a.conn.socket = socket then a.msg.answer.2 else [] := by
  rw [Told.Post.onSocket, List.filter_map, List.map_map]
  by_cases hs : a.conn.socket = socket
  · simp [Function.comp_def, hs]
  · simp [Function.comp_def, hs]

theorem heardOn_answer (a : Arrival) :
    heardOn socket (a.msg.answer.2.map fun t => (a.conn.socket, t)) = [] := by
  rw [heardOn, onSocket_answer, List.filterMap_eq_nil_iff]
  intro t ht
  split at ht
  · exact a.msg.answer_publication t ht
  · cases ht

theorem answersOn_answer (a : Arrival) :
    answersOn socket (a.msg.answer.2.map fun t => (a.conn.socket, t)) =
      if a.conn.socket = socket then a.msg.answer.2 else [] := by
  rw [answersOn, onSocket_answer, List.filter_eq_self]
  intro t ht
  split at ht
  · rw [a.msg.answer_publication t ht]
    rfl
  · cases ht

section

variable {a : Arrival} {order : IterationOrder K}

theorem Event.publication_publish {topic payload : List UInt8} {packetId : UInt16}
    (h : a.msg = .publish topic packetId payload) :
    (Event.packet a order).publication = some (topic, payload) := by
  simp only [publication, h]

theorem Event.publication_other (h : a.msg.type ≠ .publish) :
    (Event.packet a order).publication = none := by
  rw [publication]
  split
  · next hmsg => exact absurd (by rw [hmsg]; rfl) h
  · rfl

theorem Event.publication_subscribe {packetId : UInt16} {filters : List Filter}
    (h : a.msg = .subscribe packetId filters) :
    (Event.packet a order).publication = none :=
  publication_other (by simp [h, Message.type])

end

/-! ### Runs of the service -/

/-- What a step retains is what is published in it. -/
theorem ServiceStep.value (h : ServiceStep covers v l v') :
    v'.value = match l.event.publication with
      | some (topic, payload) => Function.update v.value topic (some payload)
      | none => v.value := by
  cases h with
  | publish hmsg hstep =>
      rw [Event.publication_publish hmsg]
      obtain ⟨-, rfl⟩ := hstep.inv
      rfl
  | subscribe hmsg _ hstep =>
      rw [Event.publication_subscribe hmsg]
      obtain ⟨-, rfl⟩ := hstep.inv
      rfl
  | reject hmsg =>
      rw [Event.publication_subscribe hmsg]
  | answer hpublish => rw [Event.publication_other hpublish]
  | remove hstep =>
      obtain ⟨-, rfl⟩ := hstep.inv
      rfl

/-- **What is retained** under a topic is what was published there last. -/
theorem service_value (h : Run (ServiceStep covers) {} ls v) (topic : List UInt8) :
    v.value topic = Board.lastOf topic (published (ls.map ServiceLabel.event)) := by
  refine h.history (I := fun ls v =>
    v.value topic = Board.lastOf topic (published (ls.map ServiceLabel.event))) rfl ?_
  intro ls v₁ l v₂ _ ih hstep
  rw [hstep.value, List.map_append, published_append]
  show _ = Board.lastOf topic (_ ++ published [l.event])
  rw [published_cons]
  rcases l.event.publication with - | ⟨topic', payload⟩
  · show v₁.value topic = Board.lastOf topic (_ ++ [])
    rw [ih, List.append_nil]
  · show Function.update v₁.value topic' (some payload) topic =
      Board.lastOf topic (_ ++ [(topic', payload)])
    rw [Board.lastOf_append_singleton, ← ih]
    split
    · next htopic => rw [htopic, Function.update_self]
    · next htopic => rw [Function.update_of_ne (Ne.symm htopic)]

/-- A step that leaves the subscriptions on a socket tells them what is published. -/
theorem ServiceStep.heard (h : ServiceStep covers v l v')
    (hleaves : l.event.Leaves socket (v.on socket)) :
    v'.on socket = v.on socket ∧
      heardOn socket l.told =
        l.event.publication.toList.flatMap (wantedBy covers (v.on socket)) := by
  cases h with
  | publish hmsg hstep =>
      rw [Event.publication_publish hmsg]
      obtain ⟨hmakes, rfl⟩ := hstep.inv
      cases hmakes
      refine ⟨rfl, (heardOn_set v _ _).trans ?_⟩
      exact (List.flatMap_singleton ..).symm
  | @subscribe _ a _ _ _ f _ hmsg _ hstep =>
      have hsocket : a.conn.socket ≠ socket := hleaves (by rw [hmsg]; rfl)
      rw [Event.publication_subscribe hmsg]
      obtain ⟨hmakes, rfl⟩ := hstep.inv
      cases hmakes with
      | @watch _ retained _ =>
          constructor
          · show (v.watchers ++ [_]).filter _ = _
            rw [List.filter_append, List.filter_singleton, decide_eq_false hsocket]
            exact List.append_nil _
          · have hnotes : heardOn socket (notes covers _) = [] :=
              heardOn_watch_other (u := a.subscriber f.topic) retained hsocket
            rw [← List.singleton_append, heardOn_append, hnotes]
            show heardOn socket [_] ++ [] = []
            rw [heardOn, Told.Post.onSocket, List.filter_singleton, decide_eq_false hsocket]
            rfl
  | reject hmsg =>
      rw [Event.publication_subscribe hmsg]
      exact ⟨rfl, rfl⟩
  | @answer a _ hpublish =>
      rw [Event.publication_other hpublish]
      exact ⟨rfl, heardOn_answer a⟩
  | @remove _ clientId hstep =>
      obtain ⟨-, rfl⟩ := hstep.inv
      refine ⟨?_, rfl⟩
      show (v.watchers.filter _).filter _ = v.watchers.filter _
      rw [List.filter_comm]
      apply List.filter_eq_self.mpr
      intro u hu
      have hstays : u.id ≠ clientId := hleaves u hu
      simpa using hstays

/-- **A client hears what is published**, once for each of its subscriptions that wants
it, as long as these stand. -/
theorem service_heard (h : Run (ServiceStep covers) v ls v')
    (hleaves : ∀ e ∈ ls.map ServiceLabel.event, e.Leaves socket (v.on socket)) :
    v'.on socket = v.on socket ∧
      heardOn socket (ls.flatMap ServiceLabel.told) =
        (published (ls.map ServiceLabel.event)).flatMap (wantedBy covers (v.on socket)) := by
  induction h with
  | nil => exact ⟨rfl, rfl⟩
  | cons hstep _ ih =>
      obtain ⟨hhead, hrest⟩ := List.forall_mem_cons.mp hleaves
      obtain ⟨hon, hheard⟩ := hstep.heard hhead
      rw [hon] at ih
      obtain ⟨hon', hheard'⟩ := ih hrest
      refine ⟨hon', ?_⟩
      rw [List.flatMap_cons, heardOn_append, hheard, hheard', List.map_cons, published_cons,
        List.flatMap_append]

/-- What a step tells a client besides publications are the answers to what it sent. -/
theorem ServiceStep.answered (h : ServiceStep covers v l v') :
    answersOn socket l.told = l.event.answers socket := by
  cases h with
  | publish hmsg =>
      rw [answersOn_notes, Event.answers, hmsg]
      exact (ite_self _).symm
  | @subscribe _ a _ _ filters f _ hmsg hplus =>
      have hnone : ¬ ∃ g ∈ filters ++ [f], plus ∈ g.topic :=
        fun ⟨g, hg, hgplus⟩ => hplus g hg hgplus
      rw [← List.singleton_append, answersOn_append, answersOn_notes, List.append_nil,
        Event.answers, hmsg, Message.answers, if_neg hnone, answersOn, Told.Post.onSocket,
        List.filter_singleton]
      by_cases hs : a.conn.socket = socket <;> simp [hs, Told.publication]
  | reject hmsg hrejected =>
      rw [Event.answers, hmsg, Message.answers, if_pos hrejected]
      exact (ite_self _).symm
  | @answer a _ hpublish hsubscribe =>
      rw [answersOn_answer, Event.answers, a.msg.answers_eq hpublish hsubscribe]
  | remove => rfl

/-- **The answers to a client** are those to what it sent, in order. -/
theorem service_answered (h : Run (ServiceStep covers) v ls v') :
    answersOn socket (ls.flatMap ServiceLabel.told) =
      (ls.map ServiceLabel.event).flatMap (Event.answers socket) := by
  induction h with
  | nil => rfl
  | cons hstep _ ih =>
      rw [List.flatMap_cons, answersOn_append, hstep.answered, ih, List.map_cons,
        List.flatMap_cons]

/-! ### A subscription -/

/-- A SUBSCRIBE without a `+` is answered, and then its client is told what is retained. -/
theorem ServiceStep.subscribes {a : Arrival} {order : IterationOrder K} {packetId : UInt16}
    {filters : List Filter} {f : Filter} (h : ServiceStep covers v l v')
    (hevent : l.event = .packet a order) (hmsg : a.msg = .subscribe packetId (filters ++ [f]))
    (hplus : ∀ g ∈ filters ++ [f], plus ∉ g.topic) :
    ∃ retained, Board.Lists v.value retained ∧ l.status = some .ok ∧
      v'.watchers = v.watchers ++ [a.subscriber f.topic] ∧
      l.told = (a.conn.socket, .suback packetId 0) ::
        notes covers (retained.map fun e => ⟨a.subscriber f.topic, e.1, e.2⟩) := by
  cases h with
  | publish hmsg' =>
      cases hevent
      cases hmsg'.symm.trans hmsg
  | subscribe hmsg' _ hstep =>
      cases hevent
      obtain ⟨rfl, hfilters⟩ := Message.subscribe.inj (hmsg'.symm.trans hmsg)
      obtain ⟨rfl, hf⟩ := List.append_inj' hfilters rfl
      obtain rfl := List.singleton_inj.mp hf
      obtain ⟨hmakes, rfl⟩ := hstep.inv
      cases hmakes with
      | watch _ hl => exact ⟨_, hl, rfl, rfl, rfl⟩
  | reject hmsg' hrejected =>
      cases hevent
      obtain ⟨rfl, rfl⟩ := Message.subscribe.inj (hmsg'.symm.trans hmsg)
      obtain ⟨g, hg, hgplus⟩ := hrejected
      exact absurd hgplus (hplus g hg)
  | answer _ hsubscribe =>
      cases hevent
      exact absurd (by rw [hmsg]; rfl) hsubscribe
  | remove => cases hevent

theorem Service.on_append {u : Subscriber} (h : v'.watchers = v.watchers ++ [u]) :
    v'.on u.socket = v.on u.socket ++ [u] := by
  have hself : decide (u.socket = u.socket) = true := decide_eq_true rfl
  rw [Service.on, h, List.filter_append, List.filter_singleton, hself]
  rfl

theorem wantedBy_singleton (u : Subscriber) (publications : List Publication) :
    publications.flatMap (wantedBy covers [u]) =
      publications.filter fun e => covers.wants u.filter e.1 := by
  induction publications with
  | nil => rfl
  | cons e publications ih =>
      rw [List.flatMap_cons, ih, List.filter_cons, wantedBy, List.filter_singleton]
      split
      · next h => simp [h]
      · next h => simp [h]

/-- The subscriber hears, in this order: the answers to what it sent before, the SUBACK,
what is retained and it wants, each topic once, and what it wants of what is published
after; and between these the answers to what it sends after. -/
structure Hears (covers : Covers) (u : Subscriber) (packetId : UInt16)
    (before after : List Publication) (answers answers' told : List Told) : Prop where
  heard : ∃ news retained, told = answers ++ .suback packetId 0 :: news ∧
    news.filterMap Told.publication =
      retained ++ after.filter (fun e => covers.wants u.filter e.1) ∧
    (retained.map Prod.fst).Nodup ∧
    (∀ topic payload, (topic, payload) ∈ retained ↔
      covers.wants u.filter topic ∧ Board.lastOf topic before = some payload) ∧
    news.filter (fun t => t.publication.isNone) = answers'

/-- What has no publications are answers. -/
theorem onSocket_eq_answersOn (h : heardOn socket post = []) :
    post.onSocket socket = answersOn socket post := by
  refine (List.filter_eq_self.mpr fun t ht => ?_).symm
  rw [List.filterMap_eq_nil_iff.mp h t ht]
  rfl

/-- **A subscriber hears what is retained and what is published.**  Its socket has no other
subscription, and nobody removes it. -/
theorem subscriber_told {a : Arrival} {order : IterationOrder K} {packetId : UInt16}
    {filters : List Filter} {f : Filter} (hbefore : Run (ServiceStep covers) {} ls v₁)
    (hstep : ServiceStep covers v₁ l v₂) (hafter : Run (ServiceStep covers) v₂ ls' v₃)
    (hevent : l.event = .packet a order) (hmsg : a.msg = .subscribe packetId (filters ++ [f]))
    (hplus : ∀ g ∈ filters ++ [f], plus ∉ g.topic)
    (hfirst : ∀ e ∈ ls.map ServiceLabel.event, e.Leaves a.conn.socket [])
    (hstays : ∀ e ∈ ls'.map ServiceLabel.event,
      e.Leaves a.conn.socket [a.subscriber f.topic]) :
    Hears covers (a.subscriber f.topic) packetId
      (published (ls.map ServiceLabel.event)) (published (ls'.map ServiceLabel.event))
      ((ls.map ServiceLabel.event).flatMap (Event.answers a.conn.socket))
      ((ls'.map ServiceLabel.event).flatMap (Event.answers a.conn.socket))
      (Told.Post.onSocket a.conn.socket ((ls ++ l :: ls').flatMap ServiceLabel.told)) := by
  obtain ⟨hnone, hquiet⟩ := service_heard hbefore hfirst
  obtain ⟨retained, hl, -, hwatchers, htold⟩ := hstep.subscribes hevent hmsg hplus
  have hon := Service.on_append hwatchers
  rw [hnone] at hon
  have hon : v₂.on a.conn.socket = [a.subscriber f.topic] := hon
  rw [← hon] at hstays
  obtain ⟨-, hheard⟩ := service_heard hafter hstays
  rw [hon, wantedBy_singleton] at hheard
  have hquiet : heardOn a.conn.socket (ls.flatMap ServiceLabel.told) = [] := by
    rw [hquiet]
    exact List.flatMap_eq_nil_iff.mpr fun _ _ => rfl
  refine ⟨Told.Post.onSocket a.conn.socket (notes covers (retained.map fun e =>
      ⟨a.subscriber f.topic, e.1, e.2⟩) ++ ls'.flatMap ServiceLabel.told),
    retained.filter fun e => covers.wants f.topic e.1, ?_, ?_,
    hl.1.sublist (List.filter_sublist.map _), ?_, ?_⟩
  · have hself : decide (a.conn.socket = a.conn.socket) = true := decide_eq_true rfl
    rw [List.flatMap_append, List.flatMap_cons, htold, Told.Post.onSocket_append,
      onSocket_eq_answersOn hquiet, service_answered hbefore]
    congr 1
    rw [List.cons_append, Told.Post.onSocket, List.filter_cons, hself]
    rfl
  · rw [← heardOn, heardOn_append, hheard]
    congr 1
    exact heardOn_watch (a.subscriber f.topic) retained
  · intro topic payload
    rw [List.mem_filter, hl.2, service_value hbefore]
    exact And.comm
  · rw [← answersOn, answersOn_append, answersOn_notes, List.nil_append, service_answered hafter]

/-! ### Clients of the library -/

/-- A packet of the library that a client sends. -/
inductive Request
  | connect (connect : Connect)
  | subscribe (subscribe : Subscribe)
  | publish (publish : Publish) (payload : List UInt8)

namespace Request

/-- The `SendOn` of the packet. -/
def sendOn {W : Type} [Network W] (conn : ClientConnection) : Request → ServerM W Bool
  | connect packet => packet.sendOn conn
  | subscribe packet => packet.sendOn conn
  | publish packet payload => packet.sendOn conn payload

/-- The lengths of the strings are those of something in their buffers, and the size of a
PUBLISH fits into the length field. -/
def Fits : Request → Prop
  | connect packet => packet.protocolName.length ≤ 6 ∧ packet.clientId.length ≤ 23
  | subscribe packet => packet.topicName.length ≤ 25
  | publish packet payload =>
      packet.topic.length ≤ 128 ∧ payload.length = packet.payloadBytes ∧
        2 + packet.topic.length + packet.payloadBytes < 2 ^ 28

instance : (r : Request) → Decidable r.Fits
  | connect packet =>
      inferInstanceAs (Decidable (packet.protocolName.length ≤ 6 ∧ packet.clientId.length ≤ 23))
  | subscribe packet => inferInstanceAs (Decidable (packet.topicName.length ≤ 25))
  | publish packet payload =>
      inferInstanceAs (Decidable (packet.topic.length ≤ 128 ∧
        payload.length = packet.payloadBytes ∧
        2 + packet.topic.length + packet.payloadBytes < 2 ^ 28))

def control : Request → UInt8
  | connect _ => 0x10
  | subscribe _ => 0x82
  | publish .. => 0x30

/-- What the packet says. -/
def message : Request → Message
  | connect packet => packet.message
  | subscribe packet => packet.message
  | publish packet payload => .publish packet.topic.bytes 0 payload

/-- The broker's answer to it. -/
def answers : Request → List Told
  | connect packet =>
      [.connack 0 (if (connectionTypeOf packet.protocolLevel).isNone then 0x80 else 0)]
  | subscribe packet =>
      if plus ∈ packet.topicName.bytes then [] else [.suback packet.packetId 0]
  | publish .. => []

theorem answers_message (r : Request) : r.message.answers = r.answers := by
  cases r with
  | connect => rfl
  | subscribe packet =>
      rw [message, Subscribe.message, Message.answers, answers]
      simp only [List.mem_singleton, exists_eq_left]
  | publish => rfl

def body (r : Request) : List UInt8 :=
  r.message.body (controlFlags r.control)

theorem controlType_control (r : Request) : controlType r.control = r.message.type := by
  cases r with
  | connect =>
      show controlType 0x10 = .connect
      decide
  | subscribe =>
      show controlType 0x82 = .subscribe
      decide
  | publish =>
      show controlType 0x30 = .publish
      decide

theorem body_publish (packet : Publish) (payload : List UInt8) :
    (publish packet payload).body = (Message.publish packet.topic.bytes 0 payload).body 0 := by
  have hflags : controlFlags 0x30 = 0 := by decide
  show (Message.publish packet.topic.bytes 0 payload).body (controlFlags 0x30) = _
  rw [hflags]

theorem Fits.body_length {r : Request} (h : r.Fits) : r.body.length < 2 ^ 28 := by
  cases r with
  | connect packet =>
      have hlength := packet.length_message h.1 h.2
      obtain ⟨hname, hid⟩ := h
      show (packet.message.body 0).length < _
      omega
  | subscribe packet =>
      have hlength := packet.length_message h
      have htopic : packet.topicName.length ≤ 25 := h
      show (packet.message.body 0).length < _
      omega
  | publish packet payload =>
      obtain ⟨htopic, hpayload, hsize⟩ := h
      have hbytes := StringBuffer.length_bytes htopic
      rw [body_publish]
      show (wireString packet.topic.bytes ++ payload).length < _
      rw [List.length_append, length_wireString]
      omega

theorem Fits.wellFormed {r : Request} (h : r.Fits) : r.message.WellFormed := by
  cases r with
  | connect packet =>
      show packet.protocolName.bytes.length ≤ 6
      rw [StringBuffer.length_bytes h.1]
      exact h.1
  | subscribe packet =>
      have htopic : packet.topicName.length ≤ 25 := h
      refine ⟨List.cons_ne_nil _ _, List.forall_mem_singleton.mpr ?_⟩
      show packet.topicName.bytes.length ≤ 128
      rw [StringBuffer.length_bytes htopic]
      omega
  | publish packet payload =>
      show packet.topic.bytes.length ≤ 128
      rw [StringBuffer.length_bytes h.1]
      exact h.1

/-- **What `SendOn` writes** is a frame of the message. -/
theorem sendOn_bytes {W : Type} [ReliableNetwork W] {r : Request} (h : r.Fits)
    (conn : ClientConnection) (m : Machine W) :
    ∃ m' ws, r.sendOn conn m = .ok (true, m') ∧ m'.written = m.written ++ ws ∧
      ws.flatMap Write.bytes = framed r.control r.body := by
  cases r with
  | connect packet =>
      obtain ⟨m', hsend, hwrote⟩ := exists_sent (x := packet.sendOn conn) (m := m)
        (packet.sendOn_wrote h.1 h.2)
      exact ⟨m', _, hsend, hwrote.written, List.append_nil _⟩
  | subscribe packet =>
      obtain ⟨m', hsend, hwrote⟩ := exists_sent (x := packet.sendOn conn) (m := m)
        (packet.sendOn_wrote h)
      exact ⟨m', _, hsend, hwrote.written, List.append_nil _⟩
  | publish packet payload =>
      obtain ⟨htopic, hpayload, hsize⟩ := h
      obtain ⟨m', hsend, hwrote⟩ := exists_sent (x := packet.sendOn conn payload) (m := m)
        (Publish.sendOn_wrote htopic hpayload (by omega))
      refine ⟨m', _, hsend, hwrote.written, ?_⟩
      have hbytes := publication_bytes conn packet.topic.bytes payload
      rw [publication, hpayload] at hbytes
      rw [hbytes, body_publish]
      rfl

end Request

/-- A client sends a request, and the broker finds the time and an order of its entries. -/
structure Exchange where
  conn : ClientConnection
  request : Request
  timestamp : UInt32 := 0
  order : IterationOrder StdString := .asKept StdString
  owned : conn.copy = none := by rfl
  fits : request.Fits

/-- The request as a message that arrives. -/
def Exchange.arrival (x : Exchange) : Arrival :=
  { Arrival.ofMessage x.conn x.request.control x.request.message x.owned
      x.request.controlType_control x.fits.body_length x.fits.wellFormed with
    timestamp := x.timestamp }

/-- What happens between clients and broker. -/
inductive Dealing
  | sends (x : Exchange)
  | removed (clientId : UInt32)

/-- What happens to the broker then. -/
def Dealing.event : Dealing → Event StdString
  | sends x => .packet x.arrival x.order
  | removed clientId => .remove clientId

/-- What is published in it. -/
def Dealing.publication : Dealing → Option Publication
  | sends x =>
      match x.request with
      | .publish packet payload => some (packet.topic.bytes, payload)
      | _ => none
  | removed _ => none

/-- The answers in it to the client on a socket. -/
def Dealing.answers (socket : Nat) : Dealing → List Told
  | sends x => if x.conn.socket = socket then x.request.answers else []
  | removed _ => []

section

variable {W : Type} [ReliableNetwork W]

/-- A client sends with `SendOn`, at its end of the connection, and one turn of the
server loop handles the bytes; or the application removes a client. -/
def Dealing.perform (target : Target) (s : ServerState StdString W) :
    Dealing → Except Fault (Option Status × ServerState StdString W)
  | sends x => do
      let (_, client) ← x.request.sendOn x.conn ({ net := {} } : Machine Wire)
      let sent := client.written.flatMap Write.bytes
      let machine :=
        { s.machine with net := ReliableNetwork.arrive x.conn.socket sent s.machine.net }
      let turn : Turn StdString := ⟨⟨target, x.timestamp, x.order⟩, x.conn, 0, 0⟩
      let ((handled, store), machine) ← serve turn s.store machine
      return (handled.map Prod.snd, ⟨store, machine⟩)
  | removed clientId =>
      return (none, ⟨s.store.removeObserversForClient clientId, s.machine⟩)

/-- Clients and broker deal with each other. -/
def converse (target : Target) (s : ServerState StdString W) :
    List Dealing → Except Fault (List (Option Status) × ServerState StdString W)
  | [] => return ([], s)
  | d :: dealings => do
      let (status, s₁) ← d.perform target s
      let (statuses, s') ← converse target s₁ dealings
      return (status :: statuses, s')

/-- What a client sends arrives as a message. -/
theorem Dealing.perform_eq (target : Target) (s : ServerState StdString W) (d : Dealing) :
    d.perform target s = d.event.process target s := by
  cases d with
  | sends x =>
      obtain ⟨client, ws, hsend, hwritten, hbytes⟩ :=
        Request.sendOn_bytes x.fits x.conn ({ net := {} } : Machine Wire)
      have hframe : client.written.flatMap Write.bytes = x.arrival.frame.bytes := by
        rw [hwritten, List.nil_append, hbytes]
        rfl
      rw [perform]
      show (x.request.sendOn x.conn ({ net := {} } : Machine Wire) >>= _) = _
      rw [hsend]
      show (serve _ s.store { s.machine with
        net := ReliableNetwork.arrive x.conn.socket (client.written.flatMap Write.bytes) _ }
          >>= _) = _
      rw [hframe]
      rfl
  | removed clientId => rfl

theorem converse_eq (target : Target) (s : ServerState StdString W) (dealings : List Dealing) :
    converse target s dealings = processAll target s (dealings.map Dealing.event) := by
  induction dealings generalizing s with
  | nil => rfl
  | cons d dealings ih =>
      rw [converse, List.map_cons, processAll, d.perform_eq]
      congr 1
      funext r
      obtain ⟨status, s₁⟩ := r
      show (converse target s₁ dealings >>= _) = _
      rw [ih]

theorem Dealing.publication_event (d : Dealing) : d.event.publication = d.publication := by
  cases d with
  | sends x =>
      have hmsg : x.arrival.msg = x.request.message := rfl
      rw [event, publication]
      rcases hx : x.request with _ | _ | ⟨packet, payload⟩
      · exact Event.publication_other (by simp [hmsg, hx, Request.message, Connect.message,
          Message.type])
      · exact Event.publication_subscribe (by rw [hmsg, hx]; rfl)
      · exact Event.publication_publish (by rw [hmsg, hx]; rfl)
  | removed clientId => rfl

theorem published_dealings (dealings : List Dealing) :
    published (dealings.map Dealing.event) = dealings.filterMap Dealing.publication := by
  rw [published, List.filterMap_map]
  apply List.filterMap_congr
  intro d _
  exact d.publication_event

theorem Dealing.answers_event (socket : Nat) (d : Dealing) :
    d.event.answers socket = d.answers socket := by
  cases d with
  | sends x =>
      rw [event, Event.answers, answers, ← x.request.answers_message]
      rfl
  | removed clientId => rfl

theorem answers_dealings (socket : Nat) (dealings : List Dealing) :
    (dealings.map Dealing.event).flatMap (Event.answers socket) =
      dealings.flatMap (Dealing.answers socket) := by
  rw [List.flatMap_map]
  apply List.flatMap_congr
  intro d _
  exact d.answers_event socket

/-- Only a SUBSCRIBE on the socket changes the subscriptions on it, and a removal. -/
theorem Dealing.leaves {d : Dealing} {socket : Nat} {us : List Subscriber}
    (hsubscribe : ∀ y packet, d = .sends y → y.request = .subscribe packet →
      y.conn.socket ≠ socket)
    (hremoved : ∀ u ∈ us, d ≠ .removed u.id) : d.event.Leaves socket us := by
  cases d with
  | sends x =>
      intro htype
      have htype : x.request.message.type = .subscribe := htype
      rcases hx : x.request with _ | packet | _
      · rw [hx] at htype
        cases htype
      · exact hsubscribe x packet rfl hx
      · rw [hx] at htype
        cases htype
  | removed clientId =>
      intro u hu hid
      exact hremoved u hu (by rw [hid])

/-- **From `SendOn` to `ReadFrom`.**  Clients of the library send what they like, and one of
them subscribes, once on its socket, and is not removed.  Then the broker returns, and
what the subscriber reads with the parsers of the library is its SUBACK, the last
publication on each topic it wants, and from then on every publication it wants, once
and in order, with topic and payload as they were sent.  All else it reads are the answers
to what it sends itself. -/
theorem subscriber_reads {net : W} (hnet : ∀ socket, input socket net = []) (target : Target)
    (before after : List Dealing) (x : Exchange) {packet : Subscribe}
    (hx : x.request = .subscribe packet) (hplus : plus ∉ packet.topicName.bytes)
    (honly : ∀ y packet', .sends y ∈ before ++ after → y.request = .subscribe packet' →
      y.conn.socket ≠ x.conn.socket)
    (hstays : .removed x.conn.id ∉ after) :
    ∃ statuses s told,
      converse target (.initial StdString net) (before ++ .sends x :: after) =
        .ok (statuses, s) ∧
      Finds (s.bytesTo x.conn.socket) told ∧
      Hears stringCovers (x.arrival.subscriber packet.topicName.bytes) packet.packetId
        (before.filterMap Dealing.publication) (after.filterMap Dealing.publication)
        (before.flatMap (Dealing.answers x.conn.socket))
        (after.flatMap (Dealing.answers x.conn.socket)) told := by
  have hspeakable : ∀ e ∈ (before ++ .sends x :: after).map Dealing.event,
      e.Speakable fun _ => True := fun e _ => speakable_string e
  obtain ⟨statuses, s, ls, v, ws, hok, hrun, hevents, -, hwritten, hvoices, hfits, -⟩ :=
    (serves_initial hnet).processAll (speaks_string target) hspeakable
  obtain rfl : s.machine.written = ws := hwritten
  rw [← converse_eq] at hok
  refine ⟨statuses, s, _, hok, hvoices.finds hfits x.conn.socket, ?_⟩
  -- the run splits at the SUBSCRIBE
  rw [List.map_append, List.map_cons] at hevents
  obtain ⟨ls₁, ls₂, rfl, hbefore, hrest⟩ := List.map_eq_append_iff.mp hevents
  obtain ⟨l, ls₃, rfl, hl, hafter⟩ := List.map_eq_cons_iff.mp hrest
  obtain ⟨v₁, hrun₁, hrun₂⟩ := Run.append_iff.mp hrun
  cases hrun₂ with
  | cons hstep hrun₃ =>
      have hmsg : x.arrival.msg =
          .subscribe packet.packetId ([] ++ [⟨packet.topicName.bytes, 0⟩]) := by
        show x.request.message = _
        rw [hx]
        rfl
      have hhears := subscriber_told hrun₁ hstep hrun₃ hl hmsg ?_ ?_ ?_
      · rw [hbefore, hafter, published_dealings, published_dealings, answers_dealings,
          answers_dealings] at hhears
        exact hhears
      · exact List.forall_mem_singleton.mpr hplus
      · rw [hbefore]
        intro e he
        obtain ⟨d, hd, rfl⟩ := List.mem_map.mp he
        refine Dealing.leaves (fun y packet' hy => ?_) (List.forall_mem_nil _)
        exact honly y packet' (hy ▸ List.mem_append_left _ hd)
      · rw [hafter]
        intro e he
        obtain ⟨d, hd, rfl⟩ := List.mem_map.mp he
        refine Dealing.leaves (fun y packet' hy => ?_) (List.forall_mem_singleton.mpr ?_)
        · exact honly y packet' (hy ▸ List.mem_append_right _ hd)
        · exact fun hremoved => hstays (hremoved ▸ hd)

end

/-- The client with an id sends a request on the socket with that number. -/
def sendsAs (id : Nat) (request : Request) (fits : request.Fits) : Exchange where
  conn := { socket := id, id := UInt32.ofNat id }
  request := request
  fits := fits

/-- A PUBLISH of the client 8. -/
def publishes (topic payload : List UInt8) (fits : (Request.publish (publishOf topic payload)
    payload).Fits) : Dealing :=
  .sends (sendsAs 8 (.publish (publishOf topic payload) payload) fits)

/-- A SUBSCRIBE for `a#`. -/
def subscribeToAHash : Subscribe where
  topicName := ⟨StringBuffer.fill (StringBuffer.empty 25).data [0x61, hash], 2⟩
  packetId := 1

/-- The client 7 subscribes to `a#` when `x` is retained for `ab`; then `y` is published
there, and something for `b`. -/
theorem subscriber_reads_ab :
    ∃ statuses s told,
      converse {} (.initial StdString ({} : Wire))
        ([publishes [0x61, 0x62] [0x78] (by decide)] ++
          .sends (sendsAs 7 (.subscribe subscribeToAHash) (by decide)) ::
            [publishes [0x61, 0x62] [0x79] (by decide), publishes [0x62] [0x7A] (by decide)]) =
          .ok (statuses, s) ∧
      Finds (s.bytesTo 7) told ∧
      Hears stringCovers ⟨7, 7, [0x61, hash]⟩ 1 [([0x61, 0x62], [0x78])]
        [([0x61, 0x62], [0x79]), ([0x62], [0x7A])] [] [] told := by
  have hnet : ∀ socket, input socket ({} : Wire) = [] := fun _ => rfl
  -- nobody else subscribes
  have honly : ∀ y packet', Dealing.sends y ∈ [publishes [0x61, 0x62] [0x78] (by decide)] ++
      [publishes [0x61, 0x62] [0x79] (by decide), publishes [0x62] [0x7A] (by decide)] →
      y.request = .subscribe packet' → y.conn.socket ≠ 7 := by
    intro y packet' hy hrequest
    simp only [List.cons_append, List.nil_append, List.mem_cons, List.not_mem_nil, or_false,
      publishes, Dealing.sends.injEq] at hy
    rcases hy with rfl | rfl | rfl <;> cases hrequest
  obtain ⟨statuses, s, told, hok, hfinds, hhears⟩ :=
    subscriber_reads hnet {} [publishes [0x61, 0x62] [0x78] (by decide)]
      [publishes [0x61, 0x62] [0x79] (by decide), publishes [0x62] [0x7A] (by decide)]
      (sendsAs 7 (.subscribe subscribeToAHash) (by decide)) rfl (by decide)
      honly (by simp [publishes])
  exact ⟨statuses, s, told, hok, hfinds, hhears⟩

end Gnat
