import Arald.Mesh.Frames

/-!
# Where adopted routes come from

A ROUTE_ANNOUNCE concerns one link. Nodes that run this code address the ones
they originate to a neighbour and name themselves as source, so no honest node
relays them. The forwarding decision does not look at the packet type, however,
and the arrival of a broadcast or foreign-addressed ROUTE_ANNOUNCE is enough to
have it relayed and then applied as the relaying neighbour's own.

The network has honest nodes, whose logs of sent packets are the messages in
flight (in any order, any number of times), and one peer that sends anything.
-/

namespace Arald

open Foundations

namespace MeshNode

/-- The node `id` announces in its own name, never keeps an announcement to send
it on, and adopts routes from the announcements of the announcer itself. -/
structure AnnouncesOwn (id : String) (n : MeshNode) : Prop where
  named : n.nodeId = id
  sent : ∀ s ∈ n.sent, s.packet.type = .routeAnnounce →
    s.packet.source = id ∧ s.packet.isFor s.recipient = true
  queue : ∀ d ∈ n.pendingDeliveries.held, d.packet.type ≠ .routeAnnounce
  attempts : ∀ a ∈ n.attempts, a.packet.type ≠ .routeAnnounce
  updates : ∀ u ∈ n.updates, u.packet.source = u.fromPeerId

theorem announcesOwn_create (nodeId : String) (options : MeshOptions) (resources : ResourceState)
    (uuid : ℕ → String) : AnnouncesOwn nodeId (create nodeId options resources uuid) where
  named := rfl
  sent := by simp [create]
  queue := by
    intro d hd
    rw [PendingDeliveryQueue.mem_held] at hd
    cases hd
  attempts := by simp [create]
  updates := by simp [create]

namespace AnnouncesOwn

variable {id : String} {n : MeshNode} {packet : Packet} {peerId : String} {exceptPeerId : Option String} {now : ℤ}

/-! ### Sending -/

theorem sendToPeer (h : AnnouncesOwn id n)
    (hown : packet.type = .routeAnnounce →
      packet.source = id ∧ packet.isFor peerId = true) :
    AnnouncesOwn id (n.sendToPeer peerId packet now) := by
  unfold MeshNode.sendToPeer
  split_ifs
  · refine ⟨h.named, ?_, h.queue, h.attempts, h.updates⟩
    intro s hs
    rcases List.mem_append.mp hs with hold | hnew
    · exact h.sent s hold
    · obtain rfl := List.mem_singleton.mp hnew
      exact hown
  · exact h

theorem sendOriginated {options : OriginateOptions} (h : AnnouncesOwn id n)
    (hown : options.type = .routeAnnounce → options.destination = some peerId) :
    AnnouncesOwn id (n.sendOriginated peerId options now) := by
  have hafter : AnnouncesOwn id (n.afterOriginate now) := ⟨h.named, h.sent, h.queue, h.attempts, h.updates⟩
  refine hafter.sendToPeer fun htype => ⟨h.named, ?_⟩
  simp [Packet.isFor, originated, createPacket, hown htype, JsValue.string?]

theorem announceRoutes {destinations : Option (List String)} (h : AnnouncesOwn id n) :
    AnnouncesOwn id (n.announceRoutes peerId destinations now) := by
  unfold MeshNode.announceRoutes
  dsimp only
  split_ifs
  · exact h
  · exact h.sendOriginated fun _ => rfl

theorem announceToOthers {destinations : List String} (h : AnnouncesOwn id n) :
    AnnouncesOwn id (n.announceToOthers peerId destinations now) :=
  List.foldlRecOn _ _ h fun _ hm _ _ => hm.announceRoutes

theorem propagateWithdrawals {withdrawn : List String} (h : AnnouncesOwn id n) :
    AnnouncesOwn id (n.propagateWithdrawals withdrawn peerId now) := by
  unfold MeshNode.propagateWithdrawals
  split_ifs
  · exact h
  · exact List.foldlRecOn _ _ h fun _ hm _ _ => hm.sendOriginated fun _ => rfl

theorem startSync {knownContentIds knownNodeIds : List JsValue} (h : AnnouncesOwn id n) :
    AnnouncesOwn id (n.startSync peerId knownContentIds knownNodeIds now) := by
  refine sendOriginated (sendOriginated h ?_) ?_ <;> simp

theorem openRoute (h : AnnouncesOwn id n) : AnnouncesOwn id (n.openRoute peerId now) := by
  have htable : ∀ t, AnnouncesOwn id
      (MeshNode.announceRoutes { n with routingTable := t } peerId none now) := fun t =>
    AnnouncesOwn.announceRoutes ⟨h.named, h.sent, h.queue, h.attempts, h.updates⟩
  unfold MeshNode.openRoute
  dsimp only
  split_ifs
  · exact (htable _).announceToOthers
  · exact htable _

/-! ### Flooding what is not an announcement -/

theorem settleFlood {delivered : Bool} (h : AnnouncesOwn id n) (htype : packet.type ≠ .routeAnnounce) :
    AnnouncesOwn id (n.settleFlood packet exceptPeerId delivered now) := by
  unfold MeshNode.settleFlood
  split_ifs
  · refine ⟨h.named, h.sent, ?_, h.attempts, h.updates⟩
    intro d hd
    rcases PendingDeliveryQueue.mem_held_enqueue hd with rfl | hold
    · exact htype
    · exact h.queue d hold
  · exact h

theorem addAttempt {attempt : Attempt} (h : AnnouncesOwn id n)
    (htype : attempt.packet.type ≠ .routeAnnounce) :
    AnnouncesOwn id { n with attempts := n.attempts ++ [attempt] } := by
  refine ⟨h.named, h.sent, h.queue, ?_, h.updates⟩
  intro a ha
  rcases List.mem_append.mp ha with hold | hnew
  · exact h.attempts a hold
  · obtain rfl := List.mem_singleton.mp hnew
    exact htype

theorem flood (h : AnnouncesOwn id n) (htype : packet.type ≠ .routeAnnounce) :
    AnnouncesOwn id (n.flood packet exceptPeerId now) := by
  unfold MeshNode.flood
  dsimp only
  split_ifs
  · exact h.settleFlood htype
  · refine addAttempt ?_ htype
    exact List.foldlRecOn _ _ h fun _ hm _ _ => hm.sendToPeer fun heq => absurd heq htype

theorem floodExcept (h : AnnouncesOwn id n) (htype : packet.type ≠ .routeAnnounce) :
    AnnouncesOwn id (n.floodExcept packet exceptPeerId now) := by
  unfold MeshNode.floodExcept
  split
  · exact addAttempt (h.sendToPeer fun heq => absurd heq htype) htype
  · exact h.flood htype

theorem settle {attempt : Attempt} {delivered : Bool} (h : AnnouncesOwn id n)
    (htype : attempt.packet.type ≠ .routeAnnounce) :
    AnnouncesOwn id (n.settle attempt delivered now) := by
  cases attempt with
  | routed packet exceptPeerId nextHop handed =>
    rw [MeshNode.settle]
    split_ifs
    · exact h
    · exact h.flood htype
  | flooding packet exceptPeerId handed => exact h.settleFlood htype

theorem retry {delivery : QueuedDelivery} (h : AnnouncesOwn id n)
    (htype : delivery.packet.type ≠ .routeAnnounce) : AnnouncesOwn id (n.retry delivery now) := by
  unfold MeshNode.retry
  split_ifs
  · exact h.floodExcept htype
  · refine ⟨h.named, h.sent, ?_, h.attempts, h.updates⟩
    intro d hd
    rcases PendingDeliveryQueue.mem_held_requeue hd with rfl | hold
    · exact htype
    · exact h.queue d hold

theorem flushPendingDeliveries (h : AnnouncesOwn id n) :
    AnnouncesOwn id (n.flushPendingDeliveries now) := by
  unfold MeshNode.flushPendingDeliveries
  dsimp only
  refine List.foldlRecOn _ _ ⟨h.named, h.sent, by simp, h.attempts, h.updates⟩ fun _ hm d hd => ?_
  exact hm.retry (h.queue d (PendingDeliveryQueue.mem_drain.mp hd).1)

theorem forward (h : AnnouncesOwn id n) (htype : packet.type ≠ .routeAnnounce) :
    AnnouncesOwn id (n.forward packet peerId now) := by
  unfold MeshNode.forward
  split_ifs
  · exact h.floodExcept htype
  · refine ⟨h.named, h.sent, ?_, h.attempts, h.updates⟩
    intro d hd
    rcases PendingDeliveryQueue.mem_held_enqueue hd with rfl | hold
    · exact htype
    · exact h.queue d hold
  · exact h

end AnnouncesOwn

/-! ### Receiving -/

/-- Some element of the announcement asks for a route, rather than withdrawing one. -/
def offersRoutes (n : MeshNode) (packet : Packet) : Bool :=
  (n.routeRequests packet).any fun
    | .offer .. => true
    | .withdraw _ => false

/-- What keeps an arriving packet within the bounds of its link: an announcement
is not one to be relayed, and names its sender as source when it offers routes
to this node. -/
def staysOnLink (n : MeshNode) (packet : Packet) (fromPeerId : String) (now : ℤ) : Bool :=
  !n.takesIn packet fromPeerId now || packet.type ≠ .routeAnnounce ||
    (!n.relays packet &&
      (!n.deliversLocally packet || packet.source = fromPeerId || !n.offersRoutes packet))

theorem changed_applyRequest_withdraw (trustRankOf : String → ℤ) (fromPeerId destination : String)
    (loop : AnnounceLoop) :
    (applyRequest trustRankOf fromPeerId loop (.withdraw destination)).changed = loop.changed := rfl

/-- An announcement that offers nothing changes no route for the better. -/
theorem changed_announceLoop_of_not_offersRoutes {n : MeshNode} {packet : Packet}
    (fromPeerId : String) (h : n.offersRoutes packet = false) :
    (n.announceLoop packet fromPeerId).changed = [] := by
  have hwithdraw : ∀ r ∈ n.routeRequests packet, ∃ d, r = .withdraw d := by
    intro r hr
    have hno := (List.any_eq_false.mp h) r hr
    cases r with
    | withdraw d => exact ⟨d, rfl⟩
    | offer d c => simp at hno
  refine List.foldlRecOn (motive := fun loop : AnnounceLoop => loop.changed = []) _ _ rfl ?_
  intro loop hloop r hr
  obtain ⟨d, rfl⟩ := hwithdraw r hr
  rw [changed_applyRequest_withdraw, hloop]

variable {id : String} {n : MeshNode} {packet : Packet} {fromPeerId : String} {now : ℤ}

theorem AnnouncesOwn.handleRouteAnnounce (h : AnnouncesOwn id n)
    (hsource : packet.source = fromPeerId ∨ n.offersRoutes packet = false) :
    AnnouncesOwn id (n.handleRouteAnnounce packet fromPeerId now) := by
  refine AnnouncesOwn.propagateWithdrawals ?_
  unfold propagateChanges
  split_ifs with hempty
  · exact ⟨h.named, h.sent, h.queue, h.attempts, h.updates⟩
  · refine AnnouncesOwn.announceToOthers ⟨h.named, h.sent, h.queue, h.attempts, ?_⟩
    intro u hu
    rcases List.mem_append.mp hu with hold | hnew
    · exact h.updates u hold
    · obtain rfl := List.mem_singleton.mp hnew
      refine hsource.resolve_right fun hno => hempty ?_
      simp [changed_announceLoop_of_not_offersRoutes fromPeerId hno]

theorem AnnouncesOwn.deliver (h : AnnouncesOwn id n)
    (hsource : packet.type = .routeAnnounce →
      packet.source = fromPeerId ∨ n.offersRoutes packet = false) :
    AnnouncesOwn id (n.deliver packet fromPeerId now) := by
  unfold MeshNode.deliver
  split
  · exact h.sendOriginated (by simp)
  · exact ⟨h.named, h.sent, h.queue, h.attempts, h.updates⟩
  · exact h.sendOriginated (by simp)
  next htype => exact h.handleRouteAnnounce (hsource htype)
  · exact h

theorem AnnouncesOwn.handlePacket (h : AnnouncesOwn id n)
    (hlink : n.staysOnLink packet fromPeerId now = true) :
    AnnouncesOwn id (n.handlePacket packet fromPeerId now) := by
  by_cases htaken : n.takesIn packet fromPeerId now = true
  · have hlocal : AnnouncesOwn id
        (if n.deliversLocally packet then (n.intake packet fromPeerId now).deliver packet fromPeerId now
          else n.intake packet fromPeerId now) := by
      have hintake : AnnouncesOwn id (n.intake packet fromPeerId now) :=
        ⟨h.named, h.sent, h.queue, h.attempts, h.updates⟩
      split_ifs with hdeliver
      · refine hintake.deliver fun htype => ?_
        have hcond : packet.source = fromPeerId ∨ n.offersRoutes packet = false := by
          simp only [staysOnLink, htaken, htype, hdeliver, Bool.not_true, Bool.false_or,
            Bool.and_eq_true, Bool.or_eq_true, decide_eq_true_eq, ne_eq, not_true_eq_false,
            Bool.not_eq_true', decide_false] at hlink
          exact hlink.2
        exact hcond
      · exact hintake
    rw [handlePacket_of_takesIn htaken]
    by_cases hrelays : n.relays packet = true
    · have htype : packet.type ≠ .routeAnnounce := by
        intro htype
        simp [staysOnLink, htaken, htype, hrelays] at hlink
      simp only [hrelays, if_true]
      exact hlocal.forward htype
    · simpa only [hrelays, if_false, Bool.false_eq_true] using hlocal
  · have hnot : n.takesIn packet fromPeerId now = false := by simpa using htaken
    rw [handlePacket_of_not_takesIn hnot]
    exact ⟨h.named, h.sent, h.queue, h.attempts, h.updates⟩

/-- Announcements of honest nodes stay on their link: they are addressed to the
node they arrive at, under the name of the neighbour they come from. -/
theorem staysOnLink_of_own
    (hown : packet.type = .routeAnnounce →
      packet.source = fromPeerId ∧ packet.isFor n.nodeId = true) :
    n.staysOnLink packet fromPeerId now = true := by
  by_cases htype : packet.type = .routeAnnounce
  · obtain ⟨hsource, hfor⟩ := hown htype
    simp [staysOnLink, relays, hsource, hfor]
  · simp [staysOnLink, htype]

/-- One event at a node that does not receive anything out of bounds. -/
theorem AnnouncesOwn.step {event : NodeEvent} {n' : MeshNode} (h : AnnouncesOwn id n)
    (hlink : ∀ packet fromPeerId now, event = .received packet fromPeerId now →
      n.staysOnLink packet fromPeerId now = true)
    (hstep : n.step event = some n') : AnnouncesOwn id n' := by
  cases event with
  | connected transport peerId address knownContentIds knownNodeIds now =>
    obtain rfl := Option.some_inj.mp hstep
    have hlinked : AnnouncesOwn id (n.link transport peerId address now) :=
      ⟨h.named, h.sent, h.queue, h.attempts, h.updates⟩
    exact hlinked.flushPendingDeliveries.startSync.openRoute
  | disconnected peerId now =>
    obtain rfl := Option.some_inj.mp hstep
    have hunlinked : AnnouncesOwn id (n.unlink peerId) := ⟨h.named, h.sent, h.queue, h.attempts, h.updates⟩
    exact hunlinked.propagateWithdrawals
  | received packet fromPeerId now =>
    simp only [MeshNode.step] at hstep
    split_ifs at hstep
    obtain rfl := Option.some_inj.mp hstep
    exact h.handlePacket (hlink packet fromPeerId now rfl)
  | flooded options now =>
    simp only [MeshNode.step] at hstep
    split_ifs at hstep with htype
    obtain rfl := Option.some_inj.mp hstep
    have hafter : AnnouncesOwn id (n.afterOriginate now) := ⟨h.named, h.sent, h.queue, h.attempts, h.updates⟩
    exact hafter.floodExcept htype
  | sentTo peerId options now =>
    simp only [MeshNode.step] at hstep
    split_ifs at hstep with htype
    obtain rfl := Option.some_inj.mp hstep
    exact h.sendOriginated fun heq => absurd heq htype
  | settled index delivered now =>
    simp only [MeshNode.step] at hstep
    split at hstep
    next attempt hattempt =>
      split_ifs at hstep
      obtain rfl := Option.some_inj.mp hstep
      have herased : AnnouncesOwn id { n with attempts := n.attempts.eraseIdx index } :=
        ⟨h.named, h.sent, h.queue, fun a ha => h.attempts a (List.mem_of_mem_eraseIdx ha), h.updates⟩
      exact herased.settle (h.attempts attempt (List.mem_of_getElem? hattempt))
    · cases hstep
  | trustChanged trust =>
    obtain rfl := Option.some_inj.mp hstep
    exact ⟨h.named, h.sent, h.queue, h.attempts, h.updates⟩
  | resourcesChanged resources =>
    obtain rfl := Option.some_inj.mp hstep
    exact ⟨h.named, h.sent, h.queue, h.attempts, h.updates⟩

end MeshNode
end Arald
