/-
Gnat/Misplaced.lean

Filters with a `#` in front of their last byte.

`topic_callback` looks for `#` in the whole filter and then takes the last byte off,
whatever it is, so such a filter is accepted as a prefix.  The only filters it does not
accept have a `+`, and the loop does not get to those behind a filter that does not fit
into its buffer.  `Refused` says that the loop meets one of the two, and
`rejects_iff_refused` that a SUBSCRIBE is rejected exactly then: where a `#` stands
makes no difference.
-/
import Gnat.Received
import Gnat.Served
import Gnat.Sent

namespace Gnat

open Lib Prog StreamNetwork

/-- There is a `#` in front of the last byte. -/
def MisplacedHash (topic : List UInt8) : Prop :=
  hash ∈ topic.dropLast

instance (topic : List UInt8) : Decidable (MisplacedHash topic) :=
  inferInstanceAs (Decidable (hash ∈ topic.dropLast))

/-- The byte that is cut off is the `#`, unless there is one in front of it. -/
theorem cut_hash {topic : List UInt8} (hhash : hash ∈ topic) (h : ¬ MisplacedHash topic) :
    topic.take (filterKeyBytes topic) ++ [hash] = topic := by
  have hne : topic ≠ [] := List.ne_nil_of_mem hhash
  have hsplit : topic.dropLast ++ [topic.getLast hne] = topic :=
    List.dropLast_append_getLast hne
  have hlast : hash = topic.getLast hne := by
    rw [← hsplit, List.mem_append] at hhash
    exact List.mem_singleton.mp (hhash.resolve_left h)
  rw [filterKeyBytes, if_pos hhash, ← List.dropLast_eq_take, hlast]
  exact hsplit

/-- The loop of `Subscribe::ReadFrom` meets a filter that does not fit or has a `+`,
after filters whose keys can be made. -/
inductive Refused (K : Type) [KeyType K] (target : Target) : List Filter → Prop
  | long {f : Filter} {filters : List Filter} :
      128 < f.topic.length → Refused K target (f :: filters)
  | plus {f : Filter} {filters : List Filter} :
      plus ∈ f.topic → Refused K target (f :: filters)
  | later {f : Filter} {filters : List Filter} {key : K} :
      filterKey target f = .ok key → Refused K target filters →
        Refused K target (f :: filters)

section

variable {W : Type} {K : Type} [KeyType K] {target : Target}
variable {f : Filter} {filters : List Filter}

theorem not_refused_nil : ¬ Refused K target [] := by
  rintro ⟨⟩

/-- What the loop does not stop at leaves the question to the other filters. -/
theorem refused_cons_iff (hlength : f.topic.length ≤ 128) (hplus : Gnat.plus ∉ f.topic) :
    Refused K target (f :: filters) ↔
      (∃ key : K, filterKey target f = .ok key) ∧ Refused K target filters := by
  constructor
  · intro h
    cases h with
    | long hlong => exact absurd hlength (Nat.not_le.mpr hlong)
    | plus h => exact absurd h hplus
    | later hkey hrest => exact ⟨⟨_, hkey⟩, hrest⟩
  · rintro ⟨⟨key, hkey⟩, hrest⟩
    exact .later hkey hrest

variable [ReliableNetwork W] {conn : ClientConnection} {n : Nat} {rest : List UInt8}
variable {p : Packet} {m : Machine W}

/-- **`topic_callback` in the loop**: nothing was refused so far. -/
theorem refused_loop (filters : List Filter) (conn : ClientConnection) (socket : Nat) :
    LoopInvariant (topicCallback (K := K) (W := W) target conn) socket
      (fun left _ _ => Refused K target filters ↔ Refused K target left)
      (fun _ _ => Refused K target filters) (fun _ => ¬ Refused K target filters) where
  round {f left captured m} hf hI := by
    rw [wp_topicCallback]
    split
    · next hplus =>
      exact ⟨rfl, fun h => absurd h Bool.false_ne_true, fun _ => hI.mpr (.plus hplus)⟩
    next hplus =>
    have hcons : Refused K target (f :: left) ↔
        (∃ key : K, filterKey target f = .ok key) ∧ Refused K target left :=
      refused_cons_iff hf hplus
    split
    · next key hkey =>
      refine ⟨rfl, fun _ => ?_, fun h => absurd h (by simp)⟩
      rw [hI, hcons]
      exact and_iff_right ⟨key, hkey⟩
    · next e he =>
      -- the key of a filter in front of the refused ones cannot be made
      rw [hI, hcons]
      rintro ⟨⟨key, hkey⟩, -⟩
      cases he.symm.trans hkey
  long hlong hI := hI.mpr (.long hlong)

end

/-! ### Rejected SUBSCRIBEs -/

section

variable {W : Type} [Network W] {K : Type} [DecidableEq K] [KeyType K]

/-- `HandleMessage` returns a failure, writes nothing and adds no observer. -/
def RejectsSubscribe (env : Env K) (store : Store K W) (p : Packet) (m : Machine W) : Prop :=
  ∃ message p' store' m',
    handleMessage env store p m = .ok ((.failure message, p', store'), m') ∧
    m'.written = m.written ∧ store'.observers = store.observers

/-- A SUBSCRIBE for these filters is rejected if a `#` is misplaced. -/
def RejectsMisplaced (filters : List Filter) (env : Env K) (store : Store K W) (p : Packet)
    (m : Machine W) : Prop :=
  (∃ f ∈ filters, MisplacedHash f.topic) → RejectsSubscribe env store p m

end

section

variable {W : Type} [ReliableNetwork W] {K : Type} [DecidableEq K] [KeyType K]
variable {env : Env K} {store : Store K W} {filters : List Filter} {packetId : UInt16}
variable {conn : ClientConnection} {n : Nat} {rest : List UInt8}
variable {p : Packet} {m : Machine W}

omit [DecidableEq K] in
/-- A SUBSCRIBE is refused before anything is written, or acknowledged. -/
theorem handleSubscribe_refused (env : Env K) (store : Store K W)
    (hlength : ∀ f ∈ filters, f.topic.length < 2 ^ 16)
    (h : At conn n ((Message.subscribe packetId filters).body 0) rest p m) :
    wp (handleSubscribe env store p)
      (fun r m' =>
        Refused K env.target filters ∧ r.1 = .failure "" ∧ r.2.2 = store ∧
            m'.written = m.written ∨
          ¬ Refused K env.target filters ∧ ∃ w ws, m'.written = m.written ++ w :: ws)
      (fun _ => ¬ Refused K env.target filters) m := by
  obtain rfl := h.connection
  rw [handleSubscribe, wp_bind]
  refine wp_imp (wp_and_left
    (Subscribe.readFrom_reads (topicCallback_quiet env.target p.connection) none p m
      (by rintro _ ⟨⟩))
    ((refused_loop filters p.connection p.connection.socket).readFrom hlength Iff.rfl h)) ?_
  rintro ⟨_, captured, p₁⟩ m₁
    ⟨⟨hcaptured, hreads⟩, ⟨⟨subscribe, rfl, -⟩, _, hI, -⟩ | ⟨rfl, hR⟩⟩
  · have hnot : ¬ Refused K env.target filters := fun h => not_refused_nil (hI.mp h)
    have hquiet : m₁.written = m.written := hreads.sameOutput.written
    have hconn : p₁.connection = p.connection := hreads.sameOutput.connection
    rw [wp_bind]
    refine wp_imp (SubscribeAck.sendOn_wrote subscribe.packetId) ?_
    rintro _ m₂ ⟨rfl, hwrote⟩
    have hack := hwrote.written
    rw [hquiet] at hack
    rw [if_pos rfl, hconn]
    rcases captured with - | handler
    · exact .inr ⟨hnot, _, [], hack⟩
    obtain ⟨filter, key, k, -, -, rfl⟩ := hcaptured handler rfl
    rw [wp_bind]
    refine wp_mono (addObserver_sends env.order _ m₂) ?_ fun _ _ => hnot
    intro store' m₃ hsends
    -- what is replayed to the new observer follows the acknowledgement
    obtain ⟨ws, hws, -⟩ := hsends.written
    have hall := hws.trans (congrArg (· ++ ws) hack)
    rw [List.append_assoc] at hall
    exact .inr ⟨hnot, _, ws, hall⟩
  · exact .inl ⟨hR, rfl, rfl, hreads.sameOutput.written⟩

/-- A SUBSCRIBE is rejected if and only if the loop meets a filter that does not fit or
has a `+`. -/
theorem rejects_iff_refused (hp : p.type = .subscribe)
    (hlength : ∀ f ∈ filters, f.topic.length < 2 ^ 16)
    (h : At conn n ((Message.subscribe packetId filters).body 0) rest p m) :
    RejectsSubscribe env store p m ↔ Refused K env.target filters := by
  have hhandle : handleMessage env store p = handleSubscribe env store p := by
    rw [handleMessage, hp]
  have hrun := handleSubscribe_refused env store hlength h
  rw [RejectsSubscribe, hhandle]
  constructor
  · rintro ⟨message, p', store', m', hok, hwritten, -⟩
    rcases hrun.ok hok with ⟨hrefused, -⟩ | ⟨-, w, ws, hws⟩
    · exact hrefused
    · rw [hwritten, List.self_eq_append_right] at hws
      cases hws
  · intro hrefused
    have hreturns := wp_mono hrun (fun _ _ h => h) fun _ hnot => hnot hrefused
    obtain ⟨⟨_, p', store'⟩, m', hok, ⟨-, rfl, hstore, hwritten⟩ | ⟨hnot, -⟩⟩ :=
      hreturns.exists_ok
    · exact ⟨"", p', store', m', hok, hwritten, congrArg _ hstore⟩
    · exact absurd hrefused hnot

end

/-- **Misplaced `#`.**  A SUBSCRIBE with one is rejected if and only if the loop meets a
filter that does not fit or has a `+`: the place of the `#` is not what it is rejected
for.  Where this holds of a SUBSCRIBE that is accepted, its filters lose no byte but a
`#`. -/
theorem misplaced_rejected_iff {W : Type} [ReliableNetwork W] {K : Type} [DecidableEq K]
    [KeyType K] (env : Env K) (store : Store K W) (packetId : UInt16)
    (filters : List Filter) {conn : ClientConnection} {n : Nat} {rest : List UInt8}
    {p : Packet} {m : Machine W} (hp : p.type = .subscribe)
    (hlength : ∀ f ∈ filters, f.topic.length < 2 ^ 16)
    (h : At conn n ((Message.subscribe packetId filters).body 0) rest p m) :
    (RejectsMisplaced filters env store p m ↔
      ((∃ f ∈ filters, MisplacedHash f.topic) → Refused K env.target filters)) ∧
    (RejectsMisplaced filters env store p m → ¬ RejectsSubscribe env store p m →
      ∀ f ∈ filters, hash ∈ f.topic →
        f.topic.take (filterKeyBytes f.topic) ++ [hash] = f.topic) := by
  constructor
  · exact imp_congr_right fun _ => rejects_iff_refused hp hlength h
  · intro hrejects haccepted f hf hhash
    apply cut_hash hhash
    intro hmisplaced
    exact haccepted (hrejects ⟨f, hf, hmisplaced⟩)

/-! ### A conversation -/

/-- What was sent over three connections, but for the headers: a SUBSCRIBE for `a#b`,
`hi` for `a#c`, and a SUBSCRIBE for `a#b` and `+`. -/
def misplacedWire : Wire where
  input
    | 1 => [0, 1, 0, 3, 0x61, 0x23, 0x62, 0]
    | 2 => [0, 3, 0x61, 0x23, 0x63, 0x68, 0x69]
    | 3 => [0, 1, 0, 3, 0x61, 0x23, 0x62, 0, 0, 1, 0x2B, 0]
    | _ => []

def plainEnv : Env StdString := ⟨{}, 0, .asKept StdString⟩

def subscribeMisplaced : Packet := ⟨0x82, 8, { socket := 1, id := 7 }⟩
def publishElsewhere : Packet := ⟨0x30, 7, { socket := 2, id := 8 }⟩

/-- `a#b` followed by `+` is rejected, for the `+`. -/
theorem misplaced_rejected_iff_plus :
    MisplacedHash [0x61, 0x23, 0x62] ∧
      RejectsMisplaced [⟨[0x61, 0x23, 0x62], 0⟩, ⟨[0x2B], 0⟩] plainEnv
        ({} : Store StdString Wire) ⟨0x82, 12, { socket := 3, id := 7 }⟩
        { net := misplacedWire } := by
  have harrives : At { socket := 3, id := 7 } 0
      ((Message.subscribe 1 [⟨[0x61, 0x23, 0x62], 0⟩, ⟨[0x2B], 0⟩]).body 0) []
      ⟨0x82, 12, { socket := 3, id := 7 }⟩ { net := misplacedWire } :=
    ⟨rfl, rfl, rfl, rfl⟩
  have hkey : filterKey {} ⟨[0x61, 0x23, 0x62], 0⟩ = .ok (⟨[0x61, 0x23]⟩ : StdString) := rfl
  refine ⟨by decide, (misplaced_rejected_iff plainEnv {} 1 _ rfl (by decide) harrives).1.mpr ?_⟩
  exact fun _ => .later hkey (.plus (by decide))

/-- `a#b` is accepted, and what is published to `a#c` is delivered for it. -/
theorem misplaced_hash_accepted :
    ∃ p₂ p₃, ∃ store₂ store₃ : Store StdString Wire, ∃ m₂ m₃,
      handleMessage plainEnv {} subscribeMisplaced { net := misplacedWire } =
        .ok ((.ok, p₂, store₂), m₂) ∧
      m₂.written = [⟨subscribeMisplaced.connection, [0x90, 3, 0, 1, 0], true⟩] ∧
      store₂.observers.map ObserverEntry.clientId = [7] ∧
      handleMessage plainEnv store₂ publishElsewhere m₂ = .ok ((.ok, p₃, store₃), m₃) ∧
      m₃.written = m₂.written ++
        [⟨heapCopy subscribeMisplaced.connection 0, [0x30, 7, 0, 3, 0x61, 0x23, 0x63], true⟩,
          ⟨heapCopy subscribeMisplaced.connection 0, [0x68, 0x69], true⟩] ∧
      ¬ RejectsMisplaced [⟨[0x61, 0x23, 0x62], 0⟩] plainEnv ({} : Store StdString Wire)
        subscribeMisplaced { net := misplacedWire } := by
  have conversation :
      ((do
        let ((status₂, _, store₂), m₂) ← handleMessage plainEnv
          ({} : Store StdString Wire) subscribeMisplaced { net := misplacedWire }
        let ((status₃, _, _), m₃) ← handleMessage plainEnv store₂ publishElsewhere m₂
        return (status₂, status₃, store₂.observers.map ObserverEntry.clientId,
          decide (m₂.written = [⟨subscribeMisplaced.connection, [0x90, 3, 0, 1, 0], true⟩] ∧
            m₃.written = m₂.written ++
              [⟨heapCopy subscribeMisplaced.connection 0,
                  [0x30, 7, 0, 3, 0x61, 0x23, 0x63], true⟩,
                ⟨heapCopy subscribeMisplaced.connection 0, [0x68, 0x69], true⟩]))) :
        Except Fault _) = .ok (.ok, .ok, [7], true) := by
    decide +kernel
  obtain ⟨⟨status₂, p₂, store₂⟩, m₂, h₂, h⟩ := exists_ok_of_bind conversation
  obtain ⟨⟨status₃, p₃, store₃⟩, m₃, h₃, h⟩ := exists_ok_of_bind h
  simp only [pure, Except.pure, Except.ok.injEq, Prod.mk.injEq, decide_eq_true_eq] at h
  obtain ⟨rfl, rfl, hobservers, hack, hdelivered⟩ := h
  refine ⟨p₂, p₃, store₂, store₃, m₂, m₃, h₂, hack, hobservers, h₃, hdelivered, ?_⟩
  intro hrejects
  obtain ⟨message, p', store', m', hfailed, -⟩ :=
    hrejects ⟨⟨[0x61, 0x23, 0x62], 0⟩, List.mem_cons_self, by decide⟩
  -- the same call was answered with success
  cases hfailed.symm.trans h₂

end Gnat
