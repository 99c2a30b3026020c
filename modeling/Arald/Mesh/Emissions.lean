import Arald.Mesh.Frames

/-!
# What a node sends, and what it keeps to send

Every packet that a node hands over, floods or stores is one it originated, one
it held before, or the relayed copy of one it has just taken in. The effect of
an event on the seen cache and on these packets is stated once, in `Effect`;
what holds of whole networks is derived from it.
-/

namespace Arald
namespace MeshNode

open Foundations

/-- The packet ids drawn between `n` and `n'`. -/
def newIds (n n' : MeshNode) : List String :=
  (List.range' n.drawn (n'.drawn - n.drawn)).map n.uuid

/-- The packet is one that `n` created. -/
structure Originated (n : MeshNode) (p : Packet) : Prop where
  source : p.source = n.nodeId
  ttl : p.ttl = n.ttl
  id : ∃ i < n.drawn, p.id = n.uuid i

/-- The packet was created on the way from `n` to `n'`. -/
structure OriginatedSince (n n' : MeshNode) (p : Packet) : Prop where
  source : p.source = n.nodeId
  ttl : p.ttl = n.ttl
  id : p.id ∈ n.newIds n'

/-- The node has handed the packet over, is flooding it, or keeps it for later. -/
def Holds (n : MeshNode) (p : Packet) : Prop :=
  (∃ s ∈ n.sent, s.packet = p) ∨ (∃ a ∈ n.attempts, a.packet = p) ∨
    ∃ d ∈ n.pendingDeliveries.held, d.packet = p

/-- From `n` to `n'` ids were drawn, and nothing entered the log, the attempts
or the queue but packets originated meanwhile and packets that satisfy `P`. -/
structure Emits (now : ℤ) (P : Packet → Prop) (n n' : MeshNode) : Prop where
  nodeId : n'.nodeId = n.nodeId
  ttl : n'.ttl = n.ttl
  uuid : n'.uuid = n.uuid
  peerTransport : n'.peerTransport = n.peerTransport
  drawn : n.drawn ≤ n'.drawn
  seen : n'.seenCache = n.seenCache.markAll (n.newIds n') now
  kept : n.sent ⊆ n'.sent
  sent : ∀ s ∈ n'.sent, s ∈ n.sent ∨ n.peerTransport.has s.recipient = true
  holds : ∀ p, n'.Holds p → n.Holds p ∨ n.OriginatedSince n' p ∨ P p

variable {n n' n'' : MeshNode} {now : ℤ} {P Q : Packet → Prop}

theorem newIds_self (h : n'.drawn = n.drawn) : n.newIds n' = [] := by
  simp [newIds, h]

theorem newIds_append (huuid : n'.uuid = n.uuid) (h : n.drawn ≤ n'.drawn)
    (h' : n'.drawn ≤ n''.drawn) : n.newIds n' ++ n'.newIds n'' = n.newIds n'' := by
  have hstart : n'.drawn = n.drawn + 1 * (n'.drawn - n.drawn) := by omega
  have hlength : n''.drawn - n.drawn = n'.drawn - n.drawn + (n''.drawn - n'.drawn) := by omega
  rw [newIds, newIds, newIds, huuid, ← List.map_append, hlength, ← List.range'_append, ← hstart]

theorem mem_newIds {x : String} :
    x ∈ n.newIds n' ↔ ∃ i, n.drawn ≤ i ∧ i < n'.drawn ∧ n.uuid i = x := by
  simp only [newIds, List.mem_map, List.mem_range'_1]
  constructor
  · rintro ⟨i, ⟨hlow, hhigh⟩, rfl⟩
    exact ⟨i, hlow, by omega, rfl⟩
  · rintro ⟨i, hlow, hhigh, rfl⟩
    exact ⟨i, ⟨hlow, by omega⟩, rfl⟩

theorem Originated.mono {p : Packet} (h : n.Originated p) (hid : n'.nodeId = n.nodeId)
    (httl : n'.ttl = n.ttl) (huuid : n'.uuid = n.uuid) (hdrawn : n.drawn ≤ n'.drawn) :
    n'.Originated p := by
  obtain ⟨i, hi, hp⟩ := h.id
  exact ⟨h.source.trans hid.symm, h.ttl.trans httl.symm, i, hi.trans_le hdrawn, by rw [huuid, hp]⟩

theorem OriginatedSince.originated {p : Packet} (h : n.OriginatedSince n' p)
    (hid : n'.nodeId = n.nodeId) (httl : n'.ttl = n.ttl) (huuid : n'.uuid = n.uuid) :
    n'.Originated p := by
  obtain ⟨i, -, hi, hp⟩ := mem_newIds.mp h.id
  exact ⟨h.source.trans hid.symm, h.ttl.trans httl.symm, i, hi, by rw [huuid, hp]⟩

/-- What `originate` returns was created by it, whatever follows. -/
theorem originatedSince_originated (n : MeshNode) (options : OriginateOptions) (now : ℤ)
    (h : (n.afterOriginate now).drawn ≤ n'.drawn) :
    n.OriginatedSince n' (n.originated options now) :=
  ⟨rfl, rfl, mem_newIds.mpr ⟨n.drawn, le_rfl, h, rfl⟩⟩

theorem seen_of_undrawn (hdrawn : n'.drawn = n.drawn) (hseen : n'.seenCache = n.seenCache) :
    n'.seenCache = n.seenCache.markAll (n.newIds n') now := by
  rw [hseen, newIds_self hdrawn]
  rfl

namespace Emits

/-- What concerns neither packets nor their ids emits nothing. -/
theorem of_frame (hid : n'.nodeId = n.nodeId) (httl : n'.ttl = n.ttl) (huuid : n'.uuid = n.uuid)
    (hpeers : n'.peerTransport = n.peerTransport) (hdrawn : n'.drawn = n.drawn)
    (hseen : n'.seenCache = n.seenCache) (hsent : n'.sent = n.sent)
    (hattempts : n'.attempts = n.attempts) (hqueue : n'.pendingDeliveries = n.pendingDeliveries) :
    Emits now P n n' where
  nodeId := hid
  ttl := httl
  uuid := huuid
  peerTransport := hpeers
  drawn := hdrawn.ge
  seen := seen_of_undrawn hdrawn hseen
  kept := by
    rw [hsent]
    exact List.Subset.refl _
  sent := fun s hs => .inl (hsent ▸ hs)
  holds := by
    intro p hp
    rw [Holds, hsent, hattempts, hqueue] at hp
    exact .inl hp

theorem refl (n : MeshNode) : Emits now P n n := of_frame rfl rfl rfl rfl rfl rfl rfl rfl rfl

theorem trans (h : Emits now P n n') (h' : Emits now P n' n'') : Emits now P n n'' where
  nodeId := h'.nodeId.trans h.nodeId
  ttl := h'.ttl.trans h.ttl
  uuid := h'.uuid.trans h.uuid
  peerTransport := h'.peerTransport.trans h.peerTransport
  drawn := h.drawn.trans h'.drawn
  seen := by
    rw [h'.seen, h.seen, ← SeenCache.markAll_append, newIds_append h.uuid h.drawn h'.drawn]
  kept := List.Subset.trans h.kept h'.kept
  sent := by
    intro s hs
    rcases h'.sent s hs with hmid | hnew
    · exact h.sent s hmid
    · exact .inr (h.peerTransport ▸ hnew)
  holds := by
    intro p hp
    have hids := newIds_append h.uuid h.drawn h'.drawn
    rcases h'.holds p hp with hmid | hown | hP
    · rcases h.holds p hmid with hold | hown | hP
      · exact .inl hold
      · exact .inr (.inl ⟨hown.source, hown.ttl, hids ▸ List.mem_append_left _ hown.id⟩)
      · exact .inr (.inr hP)
    · refine .inr (.inl ⟨hown.source.trans h.nodeId, hown.ttl.trans h.ttl, ?_⟩)
      exact hids ▸ List.mem_append_right _ hown.id
    · exact .inr (.inr hP)

/-- Packets that were originated or held anyway need not be allowed for. -/
theorem absorb (h : Emits now P n n')
    (hP : ∀ p, P p → n.Holds p ∨ n.OriginatedSince n' p ∨ Q p) : Emits now Q n n' := by
  refine { h with holds := fun p hp => ?_ }
  rcases h.holds p hp with hold | hown | hp
  · exact .inl hold
  · exact .inr (.inl hown)
  · exact hP p hp

theorem mono (h : Emits now P n n') (hPQ : ∀ p, P p → Q p) : Emits now Q n n' :=
  h.absorb fun p hp => .inr (.inr (hPQ p hp))

theorem foldl {β : Type*} {f : MeshNode → β → MeshNode} {l : List β}
    (hf : ∀ n, ∀ b ∈ l, Emits now P n (f n b)) (n : MeshNode) : Emits now P n (l.foldl f n) := by
  induction l generalizing n with
  | nil => exact refl n
  | cons b l ih =>
    exact (hf n b (by simp)).trans (ih (fun n c hc => hf n c (List.mem_cons_of_mem _ hc)) (f n b))

end Emits

/-! ### Sending -/

theorem afterOriginate_emits (n : MeshNode) (now : ℤ) : Emits now P n (n.afterOriginate now) where
  nodeId := rfl
  ttl := rfl
  uuid := rfl
  peerTransport := rfl
  drawn := Nat.le_succ _
  seen := by simp [newIds, afterOriginate, SeenCache.markAll]
  kept := List.Subset.refl _
  sent := fun s hs => .inl hs
  holds := fun p hp => .inl hp

theorem sendToPeer_emits (n : MeshNode) (peerId : String) (packet : Packet) (now : ℤ) :
    Emits now (· = packet) n (n.sendToPeer peerId packet now) := by
  unfold sendToPeer
  split_ifs with hpeer
  · refine ⟨rfl, rfl, rfl, rfl, le_rfl, seen_of_undrawn rfl rfl,
      List.subset_append_left .., ?_, ?_⟩
    · intro s hs
      rcases List.mem_append.mp hs with hold | hnew
      · exact .inl hold
      · obtain rfl := List.mem_singleton.mp hnew
        exact .inr hpeer
    · rintro p (⟨s, hs, rfl⟩ | hattempt | hqueue)
      · rcases List.mem_append.mp hs with hold | hnew
        · exact .inl (.inl ⟨s, hold, rfl⟩)
        · obtain rfl := List.mem_singleton.mp hnew
          exact .inr (.inr rfl)
      · exact .inl (.inr (.inl hattempt))
      · exact .inl (.inr (.inr hqueue))
  · exact .refl n

theorem sendOriginated_emits (n : MeshNode) (peerId : String) (options : OriginateOptions)
    (now : ℤ) : Emits now P n (n.sendOriginated peerId options now) := by
  have hsent := (n.afterOriginate now).sendToPeer_emits peerId (n.originated options now) now
  have hown : n.OriginatedSince (n.sendOriginated peerId options now) (n.originated options now) :=
    originatedSince_originated n options now hsent.drawn
  refine ((n.afterOriginate_emits now).trans hsent).absorb ?_
  rintro p rfl
  exact .inr (.inl hown)

theorem announceRoutes_emits (n : MeshNode) (peerId : String)
    (destinations : Option (List String)) (now : ℤ) :
    Emits now P n (n.announceRoutes peerId destinations now) := by
  unfold announceRoutes
  dsimp only
  split_ifs
  · exact .refl n
  · exact sendOriginated_emits ..

theorem announceToOthers_emits (n : MeshNode) (exceptPeerId : String)
    (destinations : List String) (now : ℤ) :
    Emits now P n (n.announceToOthers exceptPeerId destinations now) :=
  .foldl (fun n id _ => n.announceRoutes_emits id (some destinations) now) n

theorem propagateWithdrawals_emits (n : MeshNode) (withdrawn : List String)
    (exceptPeerId : String) (now : ℤ) :
    Emits now P n (n.propagateWithdrawals withdrawn exceptPeerId now) := by
  unfold propagateWithdrawals
  split_ifs
  · exact .refl n
  · exact .foldl (fun n id _ => n.sendOriginated_emits id _ now) n

theorem startSync_emits (n : MeshNode) (peerId : String)
    (knownContentIds knownNodeIds : List JsValue) (now : ℤ) :
    Emits now P n (n.startSync peerId knownContentIds knownNodeIds now) :=
  (sendOriginated_emits ..).trans (sendOriginated_emits ..)

theorem openRoute_emits (n : MeshNode) (peerId : String) (now : ℤ) :
    Emits now P n (n.openRoute peerId now) := by
  have htable : ∀ t, Emits now P n
      (announceRoutes { n with routingTable := t } peerId none now) := by
    intro t
    have hset : Emits now P n { n with routingTable := t } :=
      .of_frame rfl rfl rfl rfl rfl rfl rfl rfl rfl
    exact hset.trans (announceRoutes_emits ..)
  unfold openRoute
  dsimp only
  split_ifs
  · exact (htable _).trans (announceToOthers_emits ..)
  · exact htable _

/-! ### Flooding and retrying -/

section Flooding

variable (n : MeshNode) (packet : Packet) (exceptPeerId : Option String) (now : ℤ)

theorem enqueue_emits :
    Emits now (· = packet) n
      { n with pendingDeliveries := n.pendingDeliveries.enqueue packet exceptPeerId now } := by
  refine ⟨rfl, rfl, rfl, rfl, le_rfl, seen_of_undrawn rfl rfl, List.Subset.refl _,
    fun s hs => .inl hs, ?_⟩
  rintro p (hsent | hattempt | ⟨d, hd, rfl⟩)
  · exact .inl (.inl hsent)
  · exact .inl (.inr (.inl hattempt))
  · rcases PendingDeliveryQueue.mem_held_enqueue hd with rfl | hold
    · exact .inr (.inr rfl)
    · exact .inl (.inr (.inr ⟨d, hold, rfl⟩))

theorem addAttempt_emits {attempt : Attempt} (hpacket : attempt.packet = packet) :
    Emits now (· = packet) n { n with attempts := n.attempts ++ [attempt] } := by
  refine ⟨rfl, rfl, rfl, rfl, le_rfl, seen_of_undrawn rfl rfl, List.Subset.refl _,
    fun s hs => .inl hs, ?_⟩
  rintro p (hsent | ⟨a, ha, rfl⟩ | hqueue)
  · exact .inl (.inl hsent)
  · rcases List.mem_append.mp ha with hold | hnew
    · exact .inl (.inr (.inl ⟨a, hold, rfl⟩))
    · obtain rfl := List.mem_singleton.mp hnew
      exact .inr (.inr hpacket)
  · exact .inl (.inr (.inr hqueue))

theorem settleFlood_emits (delivered : Bool) :
    Emits now (· = packet) n (n.settleFlood packet exceptPeerId delivered now) := by
  unfold settleFlood
  split_ifs
  · exact enqueue_emits ..
  · exact .refl n

theorem flood_emits : Emits now (· = packet) n (n.flood packet exceptPeerId now) := by
  unfold flood
  dsimp only
  split_ifs
  · exact settleFlood_emits ..
  · have hsends : Emits now (· = packet) n
        ((n.floodTargets exceptPeerId).foldl (fun n id => n.sendToPeer id packet now) n) :=
      .foldl (fun n id _ => n.sendToPeer_emits id packet now) n
    exact hsends.trans (addAttempt_emits _ _ _ rfl)

theorem floodExcept_emits : Emits now (· = packet) n (n.floodExcept packet exceptPeerId now) := by
  unfold floodExcept
  split
  · exact (n.sendToPeer_emits _ packet now).trans (addAttempt_emits _ _ _ rfl)
  · exact flood_emits ..

theorem settle_emits (attempt : Attempt) (delivered : Bool) :
    Emits now (· = attempt.packet) n (n.settle attempt delivered now) := by
  cases attempt with
  | routed packet exceptPeerId nextHop handed =>
    rw [settle]
    split_ifs
    · exact .refl n
    · exact flood_emits ..
  | flooding packet exceptPeerId handed => exact settleFlood_emits ..

theorem retry_emits (delivery : QueuedDelivery) :
    Emits now (· = delivery.packet) n (n.retry delivery now) := by
  unfold retry
  split_ifs
  · exact floodExcept_emits ..
  · refine ⟨rfl, rfl, rfl, rfl, le_rfl, seen_of_undrawn rfl rfl, List.Subset.refl _,
      fun s hs => .inl hs, ?_⟩
    rintro p (hsent | hattempt | ⟨d, hd, rfl⟩)
    · exact .inl (.inl hsent)
    · exact .inl (.inr (.inl hattempt))
    · rcases PendingDeliveryQueue.mem_held_requeue hd with rfl | hold
      · exact .inr (.inr rfl)
      · exact .inl (.inr (.inr ⟨d, hold, rfl⟩))

theorem flushPendingDeliveries_emits : Emits now P n (n.flushPendingDeliveries now) := by
  have hdrained : Emits now n.Holds n
      { n with pendingDeliveries := (n.pendingDeliveries.drain now).1 } := by
    refine ⟨rfl, rfl, rfl, rfl, le_rfl, seen_of_undrawn rfl rfl, List.Subset.refl _,
      fun s hs => .inl hs, ?_⟩
    rintro p (hsent | hattempt | ⟨d, hd, -⟩)
    · exact .inl (.inl hsent)
    · exact .inl (.inr (.inl hattempt))
    · simp at hd
  refine (hdrained.trans (.foldl (fun m d hd => ?_) _)).absorb fun p hp => .inl hp
  refine (m.retry_emits now d).mono ?_
  rintro p rfl
  exact .inr (.inr ⟨d, (PendingDeliveryQueue.mem_drain.mp hd).1, rfl⟩)

theorem forward_emits (fromPeerId : String) :
    Emits now (· = packet) n (n.forward packet fromPeerId now) := by
  unfold forward
  split_ifs
  · exact floodExcept_emits ..
  · exact enqueue_emits ..
  · exact .refl n

end Flooding

/-! ### Receiving -/

theorem propagateChanges_emits (n : MeshNode) (packet : Packet) (fromPeerId : String)
    (changed : List String) (now : ℤ) :
    Emits now P n (n.propagateChanges packet fromPeerId changed now) := by
  unfold propagateChanges
  split_ifs
  · exact .refl n
  · have hnoted : Emits now P n
        { n with updates := n.updates ++ [⟨fromPeerId, packet, changed⟩] } :=
      .of_frame rfl rfl rfl rfl rfl rfl rfl rfl rfl
    exact hnoted.trans (announceToOthers_emits ..)

theorem handleRouteAnnounce_emits (n : MeshNode) (packet : Packet) (fromPeerId : String)
    (now : ℤ) : Emits now P n (n.handleRouteAnnounce packet fromPeerId now) := by
  have htable : Emits now P n
      { n with routingTable := (n.announceLoop packet fromPeerId).table } :=
    .of_frame rfl rfl rfl rfl rfl rfl rfl rfl rfl
  exact (htable.trans (propagateChanges_emits ..)).trans (propagateWithdrawals_emits ..)

theorem deliver_emits (n : MeshNode) (packet : Packet) (fromPeerId : String) (now : ℤ) :
    Emits now P n (n.deliver packet fromPeerId now) := by
  unfold deliver
  split
  · exact sendOriginated_emits ..
  · exact .of_frame rfl rfl rfl rfl rfl rfl rfl rfl rfl
  · exact sendOriginated_emits ..
  · exact handleRouteAnnounce_emits ..
  · exact .refl n

theorem handlePacket_emits {packet : Packet} {fromPeerId : String}
    (h : n.takesIn packet fromPeerId now = true) :
    Emits now (fun p => n.relays packet = true ∧ p = packet.relayed)
      (n.intake packet fromPeerId now) (n.handlePacket packet fromPeerId now) := by
  rw [handlePacket_of_takesIn h]
  dsimp only
  have hlocal : Emits now (fun p => n.relays packet = true ∧ p = packet.relayed)
      (n.intake packet fromPeerId now)
      (if n.deliversLocally packet then (n.intake packet fromPeerId now).deliver packet fromPeerId now
        else n.intake packet fromPeerId now) := by
    split_ifs
    · exact deliver_emits ..
    · exact .refl _
  by_cases hrelays : n.relays packet = true
  · rw [if_pos hrelays]
    exact hlocal.trans ((forward_emits ..).mono fun p hp => ⟨hrelays, hp⟩)
  · rw [if_neg hrelays]
    exact hlocal

/-! ### One event -/

/-- The peer to which the event opens a connection. -/
def opensTo? : NodeEvent → Option String
  | .connected _ peerId .. => some peerId
  | _ => none

def changesLinks : NodeEvent → Bool
  | .connected .. => true
  | .disconnected .. => true
  | _ => false

/-- The id of the packet that the event makes the node take in. -/
def acceptedIds (n : MeshNode) : NodeEvent → List String
  | .received packet fromPeerId now => if n.takesIn packet fromPeerId now then [packet.id] else []
  | _ => []

/-- The event makes the node relay `p`. -/
def RelaysOn (n : MeshNode) (event : NodeEvent) (p : Packet) : Prop :=
  ∃ packet fromPeerId now, event = .received packet fromPeerId now ∧
    n.takesIn packet fromPeerId now = true ∧ n.relays packet = true ∧ p = packet.relayed

/-- What one event does to the ids remembered and to the packets held. -/
structure Effect (n : MeshNode) (event : NodeEvent) (n' : MeshNode) : Prop where
  nodeId : n'.nodeId = n.nodeId
  ttl : n'.ttl = n.ttl
  uuid : n'.uuid = n.uuid
  drawn : n.drawn ≤ n'.drawn
  links : changesLinks event = false → n'.peerTransport = n.peerTransport
  kept : n.sent ⊆ n'.sent
  seen : ∃ now, n'.seenCache = n.seenCache.markAll (n.acceptedIds event ++ n.newIds n') now
  peerTransport : ∀ p, n'.peerTransport.has p = true →
    n.peerTransport.has p = true ∨ opensTo? event = some p
  sent : ∀ s ∈ n'.sent, s ∈ n.sent ∨ n'.peerTransport.has s.recipient = true
  holds : ∀ p, n'.Holds p → n.Holds p ∨ n.OriginatedSince n' p ∨ n.RelaysOn event p

/-- An event that prepares `m` from `n` without drawing ids or holding anything
new, and then emits. -/
theorem Effect.of_emits {event : NodeEvent} {m : MeshNode} (h : Emits now P m n')
    (hid : m.nodeId = n.nodeId) (httl : m.ttl = n.ttl) (huuid : m.uuid = n.uuid) (hdrawn : m.drawn = n.drawn)
    (hseen : m.seenCache = n.seenCache.markAll (n.acceptedIds event) now)
    (hlinks : changesLinks event = false → m.peerTransport = n.peerTransport)
    (hpeers : ∀ p, m.peerTransport.has p = true →
      n.peerTransport.has p = true ∨ opensTo? event = some p)
    (hsent : m.sent = n.sent) (hholds : ∀ p, m.Holds p → n.Holds p)
    (hP : ∀ p, P p → n.Holds p ∨ n.RelaysOn event p) : Effect n event n' where
  nodeId := h.nodeId.trans hid
  ttl := h.ttl.trans httl
  uuid := h.uuid.trans huuid
  drawn := hdrawn ▸ h.drawn
  links := fun hno => h.peerTransport.trans (hlinks hno)
  kept := hsent ▸ h.kept
  seen := by
    refine ⟨now, ?_⟩
    have hids : m.newIds n' = n.newIds n' := by rw [newIds, newIds, hdrawn, huuid]
    rw [h.seen, hseen, hids, SeenCache.markAll_append]
  peerTransport := fun p hp => hpeers p (h.peerTransport ▸ hp)
  sent := by
    intro s hs
    rcases h.sent s hs with hold | hnew
    · exact .inl (hsent ▸ hold)
    · exact .inr (h.peerTransport ▸ hnew)
  holds := by
    intro p hp
    have hids : m.newIds n' = n.newIds n' := by rw [newIds, newIds, hdrawn, huuid]
    rcases h.holds p hp with hold | hown | hP'
    · exact .inl (hholds p hold)
    · exact .inr (.inl ⟨hown.source.trans hid, hown.ttl.trans httl, hids ▸ hown.id⟩)
    · exact (hP p hP').imp_right .inr

theorem acceptedIds_received {packet : Packet} {fromPeerId : String}
    (h : n.takesIn packet fromPeerId now = true) :
    n.acceptedIds (.received packet fromPeerId now) = [packet.id] := by
  simp [acceptedIds, h]

theorem RelaysOn.id_mem {event : NodeEvent} {p : Packet} (h : n.RelaysOn event p) : p.id ∈ n.acceptedIds event := by
  obtain ⟨packet, fromPeerId, now, rfl, htaken, -, rfl⟩ := h
  rw [acceptedIds_received htaken]
  exact List.mem_singleton.mpr rfl

theorem step_effect {event : NodeEvent} (h : n.step event = some n') : Effect n event n' := by
  cases event with
  | connected transport peerId address knownContentIds knownNodeIds now =>
    obtain rfl := Option.some_inj.mp h
    have hemits : Emits now (fun _ => False) (n.link transport peerId address now)
        (n.peerConnected transport peerId address knownContentIds knownNodeIds now) :=
      ((flushPendingDeliveries_emits ..).trans (startSync_emits ..)).trans (openRoute_emits ..)
    refine .of_emits hemits rfl rfl rfl rfl rfl (by simp [changesLinks]) (fun p hp => ?_) rfl (fun p hp => hp)
      fun _ hp => hp.elim
    rw [OrderedMap.has_iff, link, OrderedMap.mem_keys_set] at hp
    rcases hp with rfl | hold
    · exact .inr rfl
    · exact .inl (OrderedMap.has_iff.mpr hold)
  | disconnected peerId now =>
    obtain rfl := Option.some_inj.mp h
    have hemits : Emits now (fun _ => False) (n.unlink peerId) (n.peerDisconnected peerId now) :=
      propagateWithdrawals_emits ..
    refine .of_emits hemits rfl rfl rfl rfl rfl (by simp [changesLinks]) (fun p hp => .inl ?_) rfl (fun p hp => hp)
      fun _ hp => hp.elim
    rw [OrderedMap.has_iff, unlink, OrderedMap.mem_keys_delete] at hp
    exact OrderedMap.has_iff.mpr hp.1
  | received packet fromPeerId now =>
    simp only [step] at h
    split_ifs at h
    obtain rfl := Option.some_inj.mp h
    by_cases htaken : n.takesIn packet fromPeerId now = true
    · refine .of_emits (handlePacket_emits htaken) rfl rfl rfl rfl ?_ (fun _ => rfl)
        (fun p hp => .inl hp) rfl
        (fun p hp => hp) ?_
      · rw [acceptedIds_received htaken]
        rfl
      · rintro p ⟨hrelays, rfl⟩
        exact .inr ⟨packet, fromPeerId, now, rfl, htaken, hrelays, rfl⟩
    · have hnot : n.takesIn packet fromPeerId now = false := by simpa using htaken
      have hids : n.acceptedIds (.received packet fromPeerId now) = [] := by
        simp [acceptedIds, hnot]
      have hemits : Emits now (fun _ => False) n (n.handlePacket packet fromPeerId now) := by
        rw [handlePacket_of_not_takesIn hnot]
        exact .of_frame rfl rfl rfl rfl rfl rfl rfl rfl rfl
      exact .of_emits hemits rfl rfl rfl rfl (by rw [hids]; rfl) (fun _ => rfl)
        (fun p hp => .inl hp) rfl
        (fun p hp => hp) fun _ hp => hp.elim
  | flooded options now =>
    simp only [step] at h
    split_ifs at h
    obtain rfl := Option.some_inj.mp h
    have hflood := floodExcept_emits (n.afterOriginate now) (n.originated options now) none now
    have hemits : Emits now (fun _ => False) n
        ((n.afterOriginate now).floodExcept (n.originated options now) none now) := by
      refine ((n.afterOriginate_emits now).trans hflood).absorb ?_
      rintro p rfl
      exact .inr (.inl (originatedSince_originated n options now hflood.drawn))
    exact .of_emits hemits rfl rfl rfl rfl rfl (fun _ => rfl) (fun p hp => .inl hp) rfl (fun p hp => hp)
      fun _ hp => hp.elim
  | sentTo peerId options now =>
    simp only [step] at h
    split_ifs at h
    obtain rfl := Option.some_inj.mp h
    have hemits : Emits now (fun _ => False) n (n.sendOriginated peerId options now) :=
      sendOriginated_emits ..
    exact .of_emits hemits rfl rfl rfl rfl rfl (fun _ => rfl) (fun p hp => .inl hp) rfl (fun p hp => hp)
      fun _ hp => hp.elim
  | settled index delivered now =>
    simp only [step] at h
    split at h
    next attempt hattempt =>
      split_ifs at h
      obtain rfl := Option.some_inj.mp h
      refine .of_emits (settle_emits _ now attempt delivered) rfl rfl rfl rfl rfl (fun _ => rfl)
        (fun p hp => .inl hp) rfl ?_ ?_
      · rintro p (hsent | ⟨a, ha, rfl⟩ | hqueue)
        · exact .inl hsent
        · exact .inr (.inl ⟨a, List.mem_of_mem_eraseIdx ha, rfl⟩)
        · exact .inr (.inr hqueue)
      · rintro p rfl
        exact .inl (.inr (.inl ⟨attempt, List.mem_of_getElem? hattempt, rfl⟩))
    · cases h
  | trustChanged trust =>
    obtain rfl := Option.some_inj.mp h
    have hemits : Emits 0 (fun _ => False) n { n with trust := trust } :=
      .of_frame rfl rfl rfl rfl rfl rfl rfl rfl rfl
    exact .of_emits hemits rfl rfl rfl rfl rfl (fun _ => rfl) (fun p hp => .inl hp) rfl (fun p hp => hp)
      fun _ hp => hp.elim
  | resourcesChanged resources =>
    obtain rfl := Option.some_inj.mp h
    have hemits : Emits 0 (fun _ => False) n { n with resources := resources } :=
      .of_frame rfl rfl rfl rfl rfl rfl rfl rfl rfl
    exact .of_emits hemits rfl rfl rfl rfl rfl (fun _ => rfl) (fun p hp => .inl hp) rfl (fun p hp => hp)
      fun _ hp => hp.elim

end MeshNode
end Arald
