import Arald.Mesh.Frames

/-!
# Deadlines of stored deliveries

A packet that is not an emergency should leave the store-and-forward queue for
good once `ttlMs` has passed since it was first queued. Taking it out for a
retry keeps the deadline as long as the retry is denied by a gate (`requeue`)
or some send succeeds; a retry whose sends all fail goes through `enqueue` and
starts a new term.

The runs below pair a node with a clock and with what the statement is about:
when each packet was first queued, when the queue was last pruned, and which
packets were sent out of the queue at what time.
-/

namespace Arald

open Foundations

namespace MeshNode

/-! ### What can enter the queue -/

/-- `d` is `packet` as queued anew at `now`. -/
def QueuedAnew (ttlMs : ℤ) (packet : Packet) (now : ℤ) (d : QueuedDelivery) : Prop :=
  d.packet = packet ∧
    d.expiresAt = if packet.isEmergency then ⊤ else ((now + ttlMs : ℤ) : WithTop ℤ)

/-- From `n` to `n'` nothing but deliveries that satisfy `P` entered the queue. -/
structure QueueGains (P : QueuedDelivery → Prop) (n n' : MeshNode) : Prop where
  ttlMs : n'.pendingDeliveries.ttlMs = n.pendingDeliveries.ttlMs
  held : ∀ d ∈ n'.pendingDeliveries.held, d ∈ n.pendingDeliveries.held ∨ P d

namespace QueueGains

variable {P Q : QueuedDelivery → Prop} {n n' n'' : MeshNode}

theorem of_eq (h : n'.pendingDeliveries = n.pendingDeliveries) : QueueGains P n n' := by
  refine ⟨by rw [h], fun d hd => .inl ?_⟩
  rwa [h] at hd

theorem trans (h : QueueGains P n n') (h' : QueueGains P n' n'') : QueueGains P n n'' := by
  refine ⟨h'.ttlMs.trans h.ttlMs, fun d hd => ?_⟩
  rcases h'.held d hd with hmid | hnew
  · exact h.held d hmid
  · exact .inr hnew

theorem mono (h : QueueGains P n n') (hPQ : ∀ d, P d → Q d) : QueueGains Q n n' :=
  ⟨h.ttlMs, fun d hd => (h.held d hd).imp_right (hPQ d)⟩

end QueueGains

theorem SendsOnly.pendingDeliveries {n n' : MeshNode} (h : SendsOnly n n') :
    n'.pendingDeliveries = n.pendingDeliveries := by
  unfold SendsOnly at h
  rw [h]

section Gains

variable (n : MeshNode) (packet : Packet) (exceptPeerId : Option String) (now : ℤ)

theorem enqueue_gains :
    QueueGains (QueuedAnew n.pendingDeliveries.ttlMs packet now) n
      { n with pendingDeliveries := n.pendingDeliveries.enqueue packet exceptPeerId now } := by
  refine ⟨PendingDeliveryQueue.ttlMs_enqueue .., fun d hd => ?_⟩
  rcases PendingDeliveryQueue.mem_held_enqueue hd with rfl | hold
  · exact .inr ⟨rfl, rfl⟩
  · exact .inl hold

theorem settleFlood_gains (delivered : Bool) :
    QueueGains
      (fun d => packet.isElsewhere n.nodeId = true ∧ delivered = false ∧
        QueuedAnew n.pendingDeliveries.ttlMs packet now d) n
      (n.settleFlood packet exceptPeerId delivered now) := by
  unfold settleFlood
  split_ifs with h
  · obtain ⟨helsewhere, hfailed⟩ : packet.isElsewhere n.nodeId = true ∧ delivered = false := by
      simpa using h
    exact (n.enqueue_gains packet exceptPeerId now).mono fun d hd => ⟨helsewhere, hfailed, hd⟩
  · exact .of_eq rfl

theorem flood_gains :
    QueueGains
      (fun d => n.floodTargets exceptPeerId = [] ∧
        QueuedAnew n.pendingDeliveries.ttlMs packet now d) n
      (n.flood packet exceptPeerId now) := by
  unfold flood
  dsimp only
  split_ifs with h
  · exact (n.settleFlood_gains packet exceptPeerId now false).mono fun d hd =>
      ⟨List.isEmpty_iff.mp h, hd.2.2⟩
  · have hsends := SendsOnly.foldl (fun m id => m.sendToPeer_sendsOnly id packet now)
      (n.floodTargets exceptPeerId) n
    exact .of_eq hsends.pendingDeliveries

/-- There is a next hop or a peer to send the packet to. -/
def hasSomewhereToSend (n : MeshNode) (packet : Packet) (exceptPeerId : Option String) : Bool :=
  (n.unicastHop? packet exceptPeerId).isSome || !(n.floodTargets exceptPeerId).isEmpty

theorem floodExcept_gains :
    QueueGains
      (fun d => n.hasSomewhereToSend packet exceptPeerId = false ∧
        QueuedAnew n.pendingDeliveries.ttlMs packet now d) n
      (n.floodExcept packet exceptPeerId now) := by
  unfold floodExcept
  split
  · exact .of_eq (n.sendToPeer_sendsOnly _ packet now).pendingDeliveries
  next hhop =>
    exact (n.flood_gains packet exceptPeerId now).mono fun d hd =>
      ⟨by simp [hasSomewhereToSend, hhop, hd.1], hd.2⟩

theorem retry_gains (delivery : QueuedDelivery) :
    QueueGains
      (fun d => (n.mayRetry delivery = false ∧ d = delivery) ∨
        (n.mayRetry delivery = true ∧
          n.hasSomewhereToSend delivery.packet delivery.exceptPeerId = false ∧
          QueuedAnew n.pendingDeliveries.ttlMs delivery.packet now d)) n
      (n.retry delivery now) := by
  unfold retry
  split_ifs with hgate
  · exact (n.floodExcept_gains ..).mono fun d hd => .inr ⟨hgate, hd⟩
  · refine ⟨PendingDeliveryQueue.ttlMs_requeue .., fun d hd => ?_⟩
    rcases PendingDeliveryQueue.mem_held_requeue hd with rfl | hold
    · exact .inr (.inl ⟨by simpa using hgate, rfl⟩)
    · exact .inl hold

theorem DeliversOnly.hasSomewhereToSend {n n' : MeshNode} (h : DeliversOnly n n')
    (packet : Packet) (exceptPeerId : Option String) :
    n'.hasSomewhereToSend packet exceptPeerId = n.hasSomewhereToSend packet exceptPeerId := by
  rw [MeshNode.hasSomewhereToSend, h.unicastHop?, h.floodTargets]
  rfl

/-- The deliveries a flush takes out to retry or to put back. -/
def ready (n : MeshNode) (now : ℤ) : List QueuedDelivery := (n.pendingDeliveries.drain now).2

/-- After a flush the queue holds denied deliveries, as they were, and those for
which there was nobody to send to, queued anew. -/
theorem held_flushPendingDeliveries :
    (n.flushPendingDeliveries now).pendingDeliveries.ttlMs = n.pendingDeliveries.ttlMs ∧
    ∀ d ∈ (n.flushPendingDeliveries now).pendingDeliveries.held,
      d ∈ n.ready now ∨ ∃ delivery ∈ n.ready now, n.mayRetry delivery = true ∧
        n.hasSomewhereToSend delivery.packet delivery.exceptPeerId = false ∧
        QueuedAnew n.pendingDeliveries.ttlMs delivery.packet now d := by
  let drained : MeshNode := { n with pendingDeliveries := (n.pendingDeliveries.drain now).1 }
  let Gain : QueuedDelivery → Prop := fun d =>
    d ∈ n.ready now ∨ ∃ delivery ∈ n.ready now, n.mayRetry delivery = true ∧
      n.hasSomewhereToSend delivery.packet delivery.exceptPeerId = false ∧
      QueuedAnew n.pendingDeliveries.ttlMs delivery.packet now d
  have hgains : DeliversOnly drained (n.flushPendingDeliveries now) ∧
      QueueGains Gain drained (n.flushPendingDeliveries now) := by
    refine List.foldlRecOn (motive := fun m => DeliversOnly drained m ∧ QueueGains Gain drained m)
      (n.ready now) _ ⟨.refl drained, .of_eq rfl⟩ fun m hm delivery hdelivery => ?_
    refine ⟨hm.1.trans (m.retry_deliversOnly delivery now), hm.2.trans ?_⟩
    refine (m.retry_gains now delivery).mono ?_
    rintro d (⟨-, rfl⟩ | ⟨hgate, hnobody, hanew⟩)
    · exact .inl hdelivery
    · rw [hm.1.mayRetry] at hgate
      rw [hm.1.hasSomewhereToSend] at hnobody
      rw [hm.2.ttlMs] at hanew
      exact .inr ⟨delivery, hdelivery, hgate, hnobody, hanew⟩
  refine ⟨hgains.2.ttlMs, fun d hd => ?_⟩
  rcases hgains.2.held d hd with hempty | hgain
  · simp [drained] at hempty
  · exact hgain

end Gains

theorem settle_gains (n : MeshNode) (attempt : Attempt) (delivered : Bool) (now : ℤ) :
    QueueGains
      (fun d => delivered = false ∧
        (∀ packet exceptPeerId nextHop handed,
          attempt = .routed packet exceptPeerId nextHop handed →
            n.floodTargets exceptPeerId = []) ∧
        QueuedAnew n.pendingDeliveries.ttlMs attempt.packet now d) n
      (n.settle attempt delivered now) := by
  cases attempt with
  | routed packet exceptPeerId nextHop handed =>
    rw [settle]
    split_ifs with hdelivered
    · exact .of_eq rfl
    · refine (n.flood_gains packet exceptPeerId now).mono ?_
      rintro d ⟨hnobody, hanew⟩
      refine ⟨by simpa using hdelivered, ?_, hanew⟩
      rintro _ _ _ _ ⟨⟩
      exact hnobody
  | flooding packet exceptPeerId handed =>
    refine (n.settleFlood_gains packet exceptPeerId now delivered).mono ?_
    rintro d ⟨-, hfailed, hanew⟩
    exact ⟨hfailed, by simp, hanew⟩

theorem pendingDeliveries_propagateChanges (n : MeshNode) (packet : Packet) (fromPeerId : String)
    (changed : List String) (now : ℤ) :
    (n.propagateChanges packet fromPeerId changed now).pendingDeliveries = n.pendingDeliveries := by
  unfold propagateChanges
  split_ifs
  · rfl
  · exact (announceToOthers_sendsOnly ..).pendingDeliveries

theorem pendingDeliveries_deliver (n : MeshNode) (packet : Packet) (fromPeerId : String)
    (now : ℤ) : (n.deliver packet fromPeerId now).pendingDeliveries = n.pendingDeliveries := by
  unfold deliver
  split
  · exact (sendOriginated_sendsOnly ..).pendingDeliveries
  · rfl
  · exact (sendOriginated_sendsOnly ..).pendingDeliveries
  · exact (propagateWithdrawals_sendsOnly ..).pendingDeliveries.trans
      (pendingDeliveries_propagateChanges ..)
  · rfl

theorem forward_gains (n : MeshNode) (packet : Packet) (fromPeerId : String) (now : ℤ) :
    QueueGains (QueuedAnew n.pendingDeliveries.ttlMs packet now) n
      (n.forward packet fromPeerId now) := by
  unfold forward
  split_ifs
  · exact (n.floodExcept_gains ..).mono fun d hd => hd.2
  · exact n.enqueue_gains ..
  · exact .of_eq rfl

/-- An arriving packet enters the queue only as one that is relayed. -/
theorem handlePacket_gains (n : MeshNode) (packet : Packet) (fromPeerId : String) (now : ℤ) :
    QueueGains
      (fun d => n.takesIn packet fromPeerId now = true ∧ n.relays packet = true ∧
        QueuedAnew n.pendingDeliveries.ttlMs packet.relayed now d) n
      (n.handlePacket packet fromPeerId now) := by
  by_cases htaken : n.takesIn packet fromPeerId now = true
  · rw [handlePacket_of_takesIn htaken]
    have hlocal : (if n.deliversLocally packet then
          (n.intake packet fromPeerId now).deliver packet fromPeerId now
        else n.intake packet fromPeerId now).pendingDeliveries = n.pendingDeliveries := by
      split_ifs
      · exact pendingDeliveries_deliver ..
      · rfl
    by_cases hrelays : n.relays packet = true
    · simp only [hrelays, if_true]
      refine QueueGains.trans (.of_eq hlocal) ((forward_gains ..).mono fun d hd => ?_)
      rw [hlocal] at hd
      exact ⟨htaken, trivial, hd⟩
    · simp only [hrelays, if_false, Bool.false_eq_true]
      exact .of_eq hlocal
  · have hnot : n.takesIn packet fromPeerId now = false := by simpa using htaken
    rw [handlePacket_of_not_takesIn hnot]
    exact .of_eq rfl

theorem pendingDeliveries_openRoute (n : MeshNode) (peerId : String) (now : ℤ) :
    (n.openRoute peerId now).pendingDeliveries = n.pendingDeliveries :=
  (n.openRoute_sendsOnly peerId now).pendingDeliveries

end MeshNode

/-- The time an event happens at. -/
def NodeEvent.time? : NodeEvent → Option ℤ
  | .connected _ _ _ _ _ now => some now
  | .disconnected _ now => some now
  | .received _ _ now => some now
  | .flooded _ now => some now
  | .sentTo _ _ now => some now
  | .settled _ _ now => some now
  | .trustChanged _ => none
  | .resourcesChanged _ => none

/-- A packet sent out of the queue. -/
structure QueueSend where
  packet : Packet
  time : ℤ

/-- A node in a run with a clock, and what the run remembers of its queue. -/
structure Courier where
  node : MeshNode
  clock : ℤ
  /-- When a packet id was first seen in the queue. -/
  firstQueued : OrderedMap String ℤ
  /-- When the queue was last drained. -/
  lastPrune : Option ℤ
  queueSends : List QueueSend

namespace Courier

open MeshNode

/-- The packet that a new send or an arrival brings into the node was queued
before: packet ids do not come back, so this does not happen. -/
def reentering (c : Courier) : NodeEvent → Bool
  | .flooded _ _ => c.firstQueued.has (c.node.uuid c.node.drawn)
  | .received packet fromPeerId now =>
    c.node.takesIn packet fromPeerId now && c.node.relays packet && c.firstQueued.has packet.id
  | _ => false

/-- Note the packets that are in the queue for the first time. -/
def noteQueued (firstQueued : OrderedMap String ℤ) (held : List QueuedDelivery) (now : ℤ) :
    OrderedMap String ℤ :=
  held.foldl (fun m d => if m.has d.packet.id then m else m.set d.packet.id now) firstQueued

/-- What an event sends out of the queue: the deliveries a new connection has
retried, and a retried packet whose route failed, as it is flooded. -/
def sendsFromQueue (c : Courier) : NodeEvent → List QueueSend
  | .connected transport peerId address _ _ now =>
    let linked := c.node.link transport peerId address now
    ((linked.ready now).filter linked.mayRetry).map fun d => ⟨d.packet, now⟩
  | .settled index delivered now =>
    match c.node.attempts[index]? with
    | some (.routed packet ..) =>
      if !delivered && c.firstQueued.has packet.id then [⟨packet, now⟩] else []
    | _ => []
  | _ => []

def step (c : Courier) (e : NodeEvent) : Option Courier :=
  let now := e.time?.getD c.clock
  if now < c.clock || c.reentering e then none
  else
    (c.node.step e).map fun node =>
      { node := node
        clock := now
        firstQueued := noteQueued c.firstQueued node.pendingDeliveries.held now
        lastPrune := match e with
          | .connected .. => some now
          | _ => c.lastPrune
        queueSends := c.queueSends ++ c.sendsFromQueue e }

def system : System Courier NodeEvent where
  Init c := ∃ nodeId options resources uuid start,
    c = ⟨create nodeId options resources uuid, start, OrderedMap.empty, none, []⟩
  step := step

/-! ### The condition -/

/-- Queueing the packet at `now` gives it no more time than it had: it was not
queued before, or was first queued just now, or has no deadline. -/
def mayQueue (c : Courier) (packet : Packet) (now : ℤ) : Bool :=
  packet.isEmergency || (c.firstQueued.get? packet.id).all fun first => now ≤ first

/-- The packet may still be sent at `now`. -/
def inTime (c : Courier) (packet : Packet) (now : ℤ) : Bool :=
  packet.isEmergency ||
    (c.firstQueued.get? packet.id).all fun first =>
      now < first + c.node.pendingDeliveries.ttlMs

/-- No retry of a delivery ends with every send having failed, and no routed
retry fails, and so is flooded, when its time is up. -/
def retriesSucceed (c : Courier) : NodeEvent → Bool
  | .connected transport peerId address _ _ now =>
    let linked := c.node.link transport peerId address now
    (linked.ready now).all fun d =>
      !linked.mayRetry d || linked.hasSomewhereToSend d.packet d.exceptPeerId ||
        c.mayQueue d.packet now
  | .settled index delivered now =>
    match c.node.attempts[index]? with
    | some (.routed packet exceptPeerId ..) =>
      delivered || (c.inTime packet now &&
        (!(c.node.floodTargets exceptPeerId).isEmpty || c.mayQueue packet now))
    | some (.flooding packet ..) => delivered || c.mayQueue packet now
    | none => true
  | _ => true

/-! ### First queueing times -/

theorem noteQueued_of_some {m : OrderedMap String ℤ} {id : String} {t : ℤ}
    (held : List QueuedDelivery) (now : ℤ) (h : m.get? id = some t) :
    (noteQueued m held now).get? id = some t := by
  refine List.foldlRecOn (motive := fun m' : OrderedMap String ℤ => m'.get? id = some t) _ _ h ?_
  intro m' hm' d _
  split_ifs with hhas
  · exact hm'
  · rw [OrderedMap.get?_set]
    split_ifs with hid
    · simp [OrderedMap.has, ← hid, hm'] at hhas
    · exact hm'

theorem noteQueued_some {m : OrderedMap String ℤ} {id : String} {t : ℤ}
    {held : List QueuedDelivery} {now : ℤ} (h : (noteQueued m held now).get? id = some t) :
    m.get? id = some t ∨ (m.get? id = none ∧ t = now) := by
  cases hold : m.get? id with
  | some t' =>
    rw [noteQueued_of_some held now hold] at h
    exact .inl h
  | none =>
    refine .inr ⟨rfl, ?_⟩
    have hall : ∀ t, (noteQueued m held now).get? id = some t → t = now := by
      refine List.foldlRecOn
        (motive := fun m' : OrderedMap String ℤ => ∀ t, m'.get? id = some t → t = now) _ _
        (by simp [hold]) ?_
      intro m' hm' d _ t ht
      split_ifs at ht
      · exact hm' t ht
      · rw [OrderedMap.get?_set] at ht
        split_ifs at ht
        · exact (Option.some_inj.mp ht).symm
        · exact hm' t ht
    exact hall t h

theorem noteQueued_of_mem (m : OrderedMap String ℤ) {held : List QueuedDelivery} (now : ℤ)
    {d : QueuedDelivery} (h : d ∈ held) :
    ∃ t, (noteQueued m held now).get? d.packet.id = some t := by
  unfold noteQueued
  induction held generalizing m with
  | nil => simp at h
  | cons e rest ih =>
    rw [List.foldl_cons]
    rcases List.mem_cons.mp h with rfl | hrest
    · have hnoted : ∃ t, (if m.has d.packet.id then m else m.set d.packet.id now).get?
          d.packet.id = some t := by
        split_ifs with hhas
        · exact Option.isSome_iff_exists.mp hhas
        · exact ⟨now, OrderedMap.get?_set_self ..⟩
      obtain ⟨t, ht⟩ := hnoted
      exact ⟨t, noteQueued_of_some rest now ht⟩
    · exact ih _ hrest

/-! ### The invariant -/

/-- Nothing is held, or was sent from the queue, past its first deadline. -/
structure KeepsDeadlines (c : Courier) : Prop where
  first_le : ∀ id first, c.firstQueued.get? id = some first → first ≤ c.clock
  prune_le : ∀ p, c.lastPrune = some p → p ≤ c.clock
  held : ∀ d ∈ c.node.pendingDeliveries.held, d.packet.isEmergency = false →
    ∃ first, c.firstQueued.get? d.packet.id = some first ∧
      d.expiresAt ≤ ((first + c.node.pendingDeliveries.ttlMs : ℤ) : WithTop ℤ) ∧
      ∀ p, c.lastPrune = some p → first < p → (p : WithTop ℤ) < d.expiresAt
  sends : ∀ s ∈ c.queueSends, s.packet.isEmergency = false →
    ∃ first, c.firstQueued.get? s.packet.id = some first ∧
      s.time < first + c.node.pendingDeliveries.ttlMs

theorem keepsDeadlines_create (nodeId : String) (options : MeshOptions)
    (resources : ResourceState) (uuid : ℕ → String) (start : ℤ) :
    KeepsDeadlines
      ⟨create nodeId options resources uuid, start, OrderedMap.empty, none, []⟩ where
  first_le := by simp
  prune_le := by simp
  held := by
    intro d hd
    rw [PendingDeliveryQueue.mem_held] at hd
    cases hd
  sends := by simp

/-- What an event must respect: the queue keeps what it held, as far as it
outlives a prune, and gains only what may be queued. -/
theorem KeepsDeadlines.after {c : Courier} (h : KeepsDeadlines c) {node : MeshNode} {now : ℤ}
    {lastPrune : Option ℤ} {sends : List QueueSend} (hclock : c.clock ≤ now)
    (httl : node.pendingDeliveries.ttlMs = c.node.pendingDeliveries.ttlMs)
    (hprune : lastPrune = c.lastPrune ∨ lastPrune = some now)
    (hheld : ∀ d ∈ node.pendingDeliveries.held,
      (d ∈ c.node.pendingDeliveries.held ∧
        (lastPrune = c.lastPrune ∨ (now : WithTop ℤ) < d.expiresAt)) ∨
      ∃ packet, QueuedAnew c.node.pendingDeliveries.ttlMs packet now d ∧
        c.mayQueue packet now = true)
    (hsends : ∀ s ∈ sends, s.packet.isEmergency = false →
      ∃ first, c.firstQueued.get? s.packet.id = some first ∧
        s.time < first + c.node.pendingDeliveries.ttlMs) :
    KeepsDeadlines
      { node := node
        clock := now
        firstQueued := noteQueued c.firstQueued node.pendingDeliveries.held now
        lastPrune := lastPrune
        queueSends := c.queueSends ++ sends } := by
  have hprune_le : ∀ p, lastPrune = some p → p ≤ now := by
    intro p hp
    rcases hprune with hold | hnow
    · exact (h.prune_le p (hold ▸ hp)).trans hclock
    · rw [hnow] at hp
      exact (Option.some_inj.mp hp).ge
  refine ⟨?_, hprune_le, ?_, ?_⟩
  · intro id first hfirst
    rcases noteQueued_some hfirst with hold | ⟨-, rfl⟩
    · exact (h.first_le id first hold).trans hclock
    · exact le_rfl
  · intro d hd hemergency
    dsimp only at hd ⊢
    rw [httl]
    rcases hheld d hd with ⟨hold, hlives⟩ | ⟨packet, ⟨rfl, hexpires⟩, hmay⟩
    · obtain ⟨first, hfirst, hle, hlast⟩ := h.held d hold hemergency
      refine ⟨first, noteQueued_of_some _ _ hfirst, hle, ?_⟩
      intro p hp hlt
      rcases hlives with hsame | hlives
      · exact hlast p (hsame ▸ hp) hlt
      · exact lt_of_le_of_lt (by exact_mod_cast hprune_le p hp) hlives
    · -- a packet queued anew is queued for the first time now
      obtain ⟨first, hfirst⟩ := noteQueued_of_mem c.firstQueued now hd
      have hnow : first = now := by
        rcases noteQueued_some hfirst with hold | ⟨-, hnow⟩
        · have hlate : now ≤ first := by
            simpa [mayQueue, hemergency, hold] using hmay
          exact le_antisymm ((h.first_le _ _ hold).trans hclock) hlate
        · exact hnow
      subst hnow
      rw [hemergency] at hexpires
      exact ⟨first, hfirst, hexpires.le, fun p hp hlt => absurd (hprune_le p hp) (not_le.mpr hlt)⟩
  · intro s hs hemergency
    dsimp only
    rw [httl]
    have hknown : ∃ first, c.firstQueued.get? s.packet.id = some first ∧
        s.time < first + c.node.pendingDeliveries.ttlMs := by
      rcases List.mem_append.mp hs with hold | hnew
      · exact h.sends s hold hemergency
      · exact hsends s hnew hemergency
    obtain ⟨first, hfirst, hlt⟩ := hknown
    exact ⟨first, noteQueued_of_some _ _ hfirst, hlt⟩

/-- Queueing a packet whose id was not queued before is always fine. -/
theorem mayQueue_of_new {c : Courier} {packet : Packet} (now : ℤ)
    (h : c.firstQueued.has packet.id = false) : c.mayQueue packet now = true := by
  have hnone : c.firstQueued.get? packet.id = none := by simpa [OrderedMap.has] using h
  simp [mayQueue, hnone]

theorem KeepsDeadlines.connected {c : Courier} (h : KeepsDeadlines c) (transport peerId : String)
    (address : JsValue) (knownContentIds knownNodeIds : List JsValue) (now : ℤ)
    (hclock : c.clock ≤ now)
    (hcond : c.retriesSucceed
      (.connected transport peerId address knownContentIds knownNodeIds now) = true) :
    let node := c.node.peerConnected transport peerId address knownContentIds knownNodeIds now
    KeepsDeadlines
      { node := node
        clock := now
        firstQueued := noteQueued c.firstQueued node.pendingDeliveries.held now
        lastPrune := some now
        queueSends := c.queueSends ++ c.sendsFromQueue
          (.connected transport peerId address knownContentIds knownNodeIds now) } := by
  intro node
  have hqueue : node.pendingDeliveries =
      ((c.node.link transport peerId address now).flushPendingDeliveries now).pendingDeliveries :=
    (pendingDeliveries_openRoute ..).trans (startSync_sendsOnly ..).pendingDeliveries
  obtain ⟨httl, hheld⟩ := held_flushPendingDeliveries (c.node.link transport peerId address now) now
  rw [← hqueue] at httl hheld
  have hready : ∀ d ∈ (c.node.link transport peerId address now).ready now,
      d ∈ c.node.pendingDeliveries.held ∧ (now : WithTop ℤ) < d.expiresAt :=
    fun d hd => PendingDeliveryQueue.mem_drain.mp hd
  refine h.after hclock httl (.inr rfl) ?_ ?_
  · intro d hd
    rcases hheld d hd with hback | ⟨delivery, hdelivery, hgate, hnobody, hanew⟩
    · exact .inl ⟨(hready d hback).1, .inr (hready d hback).2⟩
    · refine .inr ⟨delivery.packet, hanew, ?_⟩
      have hall := List.all_eq_true.mp hcond delivery hdelivery
      simpa [hgate, hnobody] using hall
  · intro s hs hemergency
    obtain ⟨d, hd, rfl⟩ := List.mem_map.mp hs
    obtain ⟨hold, hlives⟩ := hready d (List.mem_of_mem_filter hd)
    obtain ⟨first, hfirst, hle, -⟩ := h.held d hold hemergency
    exact ⟨first, hfirst, by exact_mod_cast hlives.trans_le hle⟩

theorem KeepsDeadlines.settled {c : Courier} (h : KeepsDeadlines c) {index : ℕ}
    {delivered : Bool} {now : ℤ} {attempt : Attempt} (hclock : c.clock ≤ now)
    (hattempt : c.node.attempts[index]? = some attempt)
    (hcond : c.retriesSucceed (.settled index delivered now) = true) :
    let node := settle { c.node with attempts := c.node.attempts.eraseIdx index } attempt
      delivered now
    KeepsDeadlines
      { node := node
        clock := now
        firstQueued := noteQueued c.firstQueued node.pendingDeliveries.held now
        lastPrune := c.lastPrune
        queueSends := c.queueSends ++ c.sendsFromQueue (.settled index delivered now) } := by
  intro node
  have hgains := settle_gains { c.node with attempts := c.node.attempts.eraseIdx index } attempt
    delivered now
  refine h.after hclock hgains.ttlMs (.inl rfl) ?_ ?_
  · intro d hd
    rcases hgains.held d hd with hold | ⟨hfailed, hnobody, hanew⟩
    · exact .inl ⟨hold, .inl rfl⟩
    · refine .inr ⟨attempt.packet, hanew, ?_⟩
      cases attempt with
      | routed packet exceptPeerId nextHop handed =>
        have hempty : c.node.floodTargets exceptPeerId = [] := hnobody _ _ _ _ rfl
        have hboth : c.inTime packet now = true ∧ c.mayQueue packet now = true := by
          simpa [retriesSucceed, hattempt, hfailed, hempty] using hcond
        exact hboth.2
      | flooding packet exceptPeerId handed =>
        have hmay : c.mayQueue packet now = true := by
          simpa [retriesSucceed, hattempt, hfailed] using hcond
        exact hmay
  · intro s hs hemergency
    cases attempt with
    | routed packet exceptPeerId nextHop handed =>
      rw [sendsFromQueue, hattempt] at hs
      dsimp only at hs
      split_ifs at hs with hretried
      · obtain rfl := List.mem_singleton.mp hs
        obtain ⟨hfailed, hqueued⟩ : delivered = false ∧ c.firstQueued.has packet.id = true := by
          simpa using hretried
        obtain ⟨first, hfirst⟩ := Option.isSome_iff_exists.mp hqueued
        have htime : c.inTime packet now = true := by
          simp only [retriesSucceed, hattempt, hfailed, Bool.false_or, Bool.and_eq_true] at hcond
          exact hcond.1
        refine ⟨first, hfirst, ?_⟩
        simpa [inTime, show packet.isEmergency = false from hemergency, hfirst] using htime
      · simp at hs
    | flooding packet exceptPeerId handed =>
      rw [sendsFromQueue, hattempt] at hs
      simp at hs

/-- One event of a courier keeps the deadlines, if no retry of the event fails
outright or late. -/
theorem KeepsDeadlines.step {c c' : Courier} {e : NodeEvent} (h : KeepsDeadlines c)
    (hcond : c.retriesSucceed e = true) (hstep : c.step e = some c') : KeepsDeadlines c' := by
  unfold Courier.step at hstep
  dsimp only at hstep
  split_ifs at hstep with hguard
  obtain ⟨hclock, hnew⟩ : c.clock ≤ e.time?.getD c.clock ∧ c.reentering e = false := by
    simpa using hguard
  obtain ⟨node, hnode, rfl⟩ := Option.map_eq_some_iff.mp hstep
  cases e with
  | connected transport peerId address knownContentIds knownNodeIds now =>
    obtain rfl := Option.some_inj.mp hnode
    exact h.connected transport peerId address knownContentIds knownNodeIds now hclock hcond
  | disconnected peerId now =>
    obtain rfl := Option.some_inj.mp hnode
    have hsame := (propagateWithdrawals_sendsOnly (c.node.unlink peerId)
      (c.node.routingTable.removeRoutesVia peerId).2 peerId now).pendingDeliveries
    refine h.after hclock (congrArg _ hsame) (.inl rfl) (fun d hd => ?_) (by simp [sendsFromQueue])
    exact .inl ⟨by rwa [peerDisconnected, hsame] at hd, .inl rfl⟩
  | received packet fromPeerId now =>
    simp only [MeshNode.step] at hnode
    split_ifs at hnode
    obtain rfl := Option.some_inj.mp hnode
    have hgains := c.node.handlePacket_gains packet fromPeerId now
    refine h.after hclock hgains.ttlMs (.inl rfl) (fun d hd => ?_) (by simp [sendsFromQueue])
    rcases hgains.held d hd with hold | ⟨htaken, hrelays, hanew⟩
    · exact .inl ⟨hold, .inl rfl⟩
    · refine .inr ⟨packet.relayed, hanew, mayQueue_of_new now ?_⟩
      simpa [reentering, htaken, hrelays] using hnew
  | flooded options now =>
    simp only [MeshNode.step] at hnode
    split_ifs at hnode
    obtain rfl := Option.some_inj.mp hnode
    have hgains := (c.node.afterOriginate now).floodExcept_gains (c.node.originated options now)
      none now
    refine h.after hclock hgains.ttlMs (.inl rfl) (fun d hd => ?_) (by simp [sendsFromQueue])
    rcases hgains.held d hd with hold | ⟨-, hanew⟩
    · exact .inl ⟨hold, .inl rfl⟩
    · exact .inr ⟨c.node.originated options now, hanew, mayQueue_of_new now hnew⟩
  | sentTo peerId options now =>
    simp only [MeshNode.step] at hnode
    split_ifs at hnode
    obtain rfl := Option.some_inj.mp hnode
    have hsame := (c.node.sendOriginated_sendsOnly peerId options now).pendingDeliveries
    refine h.after hclock (congrArg _ hsame) (.inl rfl) (fun d hd => ?_) (by simp [sendsFromQueue])
    exact .inl ⟨by rwa [hsame] at hd, .inl rfl⟩
  | settled index delivered now =>
    simp only [MeshNode.step] at hnode
    split at hnode
    next attempt hattempt =>
      split_ifs at hnode
      obtain rfl := Option.some_inj.mp hnode
      exact h.settled hclock hattempt hcond
    · cases hnode
  | trustChanged trust =>
    obtain rfl := Option.some_inj.mp hnode
    exact h.after hclock rfl (.inl rfl) (fun d hd => .inl ⟨hd, .inl rfl⟩) (by simp [sendsFromQueue])
  | resourcesChanged resources =>
    obtain rfl := Option.some_inj.mp hnode
    exact h.after hclock rfl (.inl rfl) (fun d hd => .inl ⟨hd, .inl rfl⟩) (by simp [sendsFromQueue])

/-- What the time bound says of a courier: a delivery that is held has not been
through a prune at or after its first deadline, and no delivery was sent from
the queue at or after it. -/
def BoundedByTtl (c : Courier) : Prop :=
  (∀ d ∈ c.node.pendingDeliveries.held, d.packet.isEmergency = false →
    ∃ first, c.firstQueued.get? d.packet.id = some first ∧
      ∀ p, c.lastPrune = some p → first < p → p < first + c.node.pendingDeliveries.ttlMs) ∧
  ∀ s ∈ c.queueSends, s.packet.isEmergency = false →
    ∃ first, c.firstQueued.get? s.packet.id = some first ∧
      s.time < first + c.node.pendingDeliveries.ttlMs

/-- In every run in which no retry of a stored delivery fails outright, or late,
the time to live is a bound from the first queueing on. -/
theorem boundedByTtl_of_retriesSucceed {c : Courier}
    (h : system.ReachableUnder (fun c e => c.retriesSucceed e = true) c) : c.BoundedByTtl := by
  have hkeeps : KeepsDeadlines c := by
    refine h.invariant ?_ fun c e c' hc hcond hstep => hc.step hcond hstep
    rintro _ ⟨nodeId, options, resources, uuid, start, rfl⟩
    exact keepsDeadlines_create nodeId options resources uuid start
  refine ⟨fun d hd hemergency => ?_, hkeeps.sends⟩
  obtain ⟨first, hfirst, hle, hlast⟩ := hkeeps.held d hd hemergency
  exact ⟨first, hfirst, fun p hp hlt => by exact_mod_cast (hlast p hp hlt).trans_le hle⟩

/-- A courier whose queue keeps packets for 100 ms. -/
def sampleCourier : Courier :=
  ⟨create "a" { storeAndForwardTtlMs := 100 } ⟨none, none⟩ sampleIds, 0, OrderedMap.empty, none, []⟩

/-- A packet for the unreachable node `z`. -/
def sampleMessage : OriginateOptions where
  type := .data
  payload := .obj []
  destination := some "z"
  priority := .messaging

/-- Queued at 0, sent to `p` at 60. -/
def deliveredRun : List NodeEvent :=
  [ .flooded sampleMessage 0,
    .connected "tcp" "p" .undefined [] [] 60,
    .settled 0 true 61 ]

theorem boundedByTtl_delivered :
    ∃ c, system.runUnder retriesSucceed sampleCourier deliveredRun = some c ∧
      c.queueSends.map QueueSend.time = [60] ∧ c.BoundedByTtl := by
  have hrun : (system.runUnder retriesSucceed sampleCourier deliveredRun).map
      (fun c => c.queueSends.map QueueSend.time) = some [60] := by
    decide
  obtain ⟨c, hc, htimes⟩ := Option.map_eq_some_iff.mp hrun
  exact ⟨c, hc, htimes, boundedByTtl_of_retriesSucceed
    (System.reachableUnder_of_runUnder ⟨_, _, _, _, _, rfl⟩ hc)⟩

/-- Queued at 0; the retry at 60 fails and queues the packet until 160, so it is
sent again at 120. -/
def renewedRun : List NodeEvent :=
  [ .flooded sampleMessage 0,
    .connected "tcp" "p" .undefined [] [] 60,
    .settled 0 false 60,
    .connected "tcp" "q" .undefined [] [] 120 ]

theorem failed_retry_renews_ttl : ¬∀ c, system.Reachable c → c.BoundedByTtl := by
  intro hclaim
  have hrun : (system.run sampleCourier renewedRun).map
      (fun c => (c.queueSends.map fun s => (s.packet.id, s.packet.isEmergency, s.time),
        c.firstQueued.get? "u0", c.node.pendingDeliveries.ttlMs)) =
      some ([("u0", false, 60), ("u0", false, 120)], some 0, 100) := by
    decide
  obtain ⟨c, hc, hend⟩ := Option.map_eq_some_iff.mp hrun
  obtain ⟨hsends, hrest⟩ := Prod.mk.inj hend
  obtain ⟨hfirst, httl⟩ := Prod.mk.inj hrest
  have hmem : ("u0", false, 120) ∈
      c.queueSends.map fun s => (s.packet.id, s.packet.isEmergency, s.time) := by
    rw [hsends]
    decide
  obtain ⟨s, hs, heq⟩ := List.mem_map.mp hmem
  obtain ⟨hid, hs'⟩ := Prod.mk.inj heq
  obtain ⟨hemergency, htime⟩ := Prod.mk.inj hs'
  obtain ⟨first, hqueued, hlt⟩ :=
    (hclaim c (System.reachable_of_run ⟨_, _, _, _, _, rfl⟩ hc)).2 s hs hemergency
  rw [hid, hfirst] at hqueued
  obtain rfl := Option.some_inj.mp hqueued
  rw [htime, httl] at hlt
  omega

end Courier
end Arald
