import Arald.Mesh.Node

/-!
# What the node's operations leave alone

Sending and announcing only append to the log and draw packet ids; flooding
and retrying change the queue and the open attempts besides. The handlers are
then read through these two relations, never by unfolding what they call.
-/

namespace Arald
namespace MeshNode

open Foundations

/-- From `n` to `n'` only packets were originated and sent. -/
def SendsOnly (n n' : MeshNode) : Prop :=
  n' = { n with sent := n'.sent, seenCache := n'.seenCache, drawn := n'.drawn }

/-- From `n` to `n'` packets were also queued, and floods begun or ended. -/
def DeliversOnly (n n' : MeshNode) : Prop :=
  n' =
    { n with
      sent := n'.sent
      seenCache := n'.seenCache
      drawn := n'.drawn
      pendingDeliveries := n'.pendingDeliveries
      attempts := n'.attempts }

variable {n n' n'' : MeshNode}

namespace SendsOnly

theorem refl (n : MeshNode) : SendsOnly n n := rfl

theorem trans (h : SendsOnly n n') (h' : SendsOnly n' n'') : SendsOnly n n'' := by
  unfold SendsOnly at h h' ⊢
  rw [h'.trans (by rw [h])]

theorem foldl {β : Type*} {f : MeshNode → β → MeshNode} (hf : ∀ n b, SendsOnly n (f n b))
    (l : List β) (n : MeshNode) : SendsOnly n (l.foldl f n) := by
  induction l generalizing n with
  | nil => exact refl n
  | cons b l ih => exact (hf n b).trans (ih (f n b))

theorem deliversOnly (h : SendsOnly n n') : DeliversOnly n n' := by
  unfold SendsOnly at h
  unfold DeliversOnly
  rw [h]

end SendsOnly

namespace DeliversOnly

theorem refl (n : MeshNode) : DeliversOnly n n := rfl

theorem trans (h : DeliversOnly n n') (h' : DeliversOnly n' n'') : DeliversOnly n n'' := by
  unfold DeliversOnly at h h' ⊢
  rw [h'.trans (by rw [h])]

theorem foldl {β : Type*} {f : MeshNode → β → MeshNode} (hf : ∀ n b, DeliversOnly n (f n b))
    (l : List β) (n : MeshNode) : DeliversOnly n (l.foldl f n) := by
  induction l generalizing n with
  | nil => exact refl n
  | cons b l ih => exact (hf n b).trans (ih (f n b))

section Fields

variable (h : DeliversOnly n n')
include h

theorem nodeId : n'.nodeId = n.nodeId := by
  unfold DeliversOnly at h
  rw [h]

theorem peers : n'.peers = n.peers := by
  unfold DeliversOnly at h
  rw [h]

theorem peerTransport : n'.peerTransport = n.peerTransport := by
  unfold DeliversOnly at h
  rw [h]

theorem trust : n'.trust = n.trust := by
  unfold DeliversOnly at h
  rw [h]

theorem routingTable : n'.routingTable = n.routingTable := by
  unfold DeliversOnly at h
  rw [h]

theorem updates : n'.updates = n.updates := by
  unfold DeliversOnly at h
  rw [h]

theorem relayGateFor (peerId : String) : n'.relayGateFor peerId = n.relayGateFor peerId := by
  unfold DeliversOnly at h
  rw [h]
  rfl

theorem mayRetry (delivery : QueuedDelivery) : n'.mayRetry delivery = n.mayRetry delivery := by
  unfold DeliversOnly at h
  rw [h]
  rfl

theorem unicastHop? (packet : Packet) (exceptPeerId : Option String) :
    n'.unicastHop? packet exceptPeerId = n.unicastHop? packet exceptPeerId := by
  unfold DeliversOnly at h
  rw [h]
  rfl

theorem floodTargets (exceptPeerId : Option String) :
    n'.floodTargets exceptPeerId = n.floodTargets exceptPeerId := by
  unfold DeliversOnly at h
  rw [h]
  rfl

end Fields

end DeliversOnly

/-! ### Sending -/

theorem afterOriginate_sendsOnly (n : MeshNode) (now : ℤ) : SendsOnly n (n.afterOriginate now) := rfl

theorem sendToPeer_sendsOnly (n : MeshNode) (peerId : String) (packet : Packet) (now : ℤ) :
    SendsOnly n (n.sendToPeer peerId packet now) := by
  unfold sendToPeer
  split_ifs <;> rfl

theorem sendOriginated_sendsOnly (n : MeshNode) (peerId : String) (options : OriginateOptions)
    (now : ℤ) : SendsOnly n (n.sendOriginated peerId options now) :=
  (n.afterOriginate_sendsOnly now).trans (sendToPeer_sendsOnly ..)

theorem announceRoutes_sendsOnly (n : MeshNode) (peerId : String)
    (destinations : Option (List String)) (now : ℤ) :
    SendsOnly n (n.announceRoutes peerId destinations now) := by
  unfold announceRoutes
  dsimp only
  split_ifs
  · exact .refl n
  · exact sendOriginated_sendsOnly ..

theorem announceToOthers_sendsOnly (n : MeshNode) (exceptPeerId : String)
    (destinations : List String) (now : ℤ) :
    SendsOnly n (n.announceToOthers exceptPeerId destinations now) :=
  .foldl (fun n id => n.announceRoutes_sendsOnly id (some destinations) now) ..

theorem broadcastWithdrawal_sendsOnly (n : MeshNode) (destinations : List String)
    (exceptPeerId : String) (now : ℤ) :
    SendsOnly n (n.broadcastWithdrawal destinations exceptPeerId now) :=
  .foldl (fun n id => n.sendOriginated_sendsOnly id _ now) ..

theorem propagateWithdrawals_sendsOnly (n : MeshNode) (withdrawn : List String)
    (exceptPeerId : String) (now : ℤ) :
    SendsOnly n (n.propagateWithdrawals withdrawn exceptPeerId now) := by
  unfold propagateWithdrawals
  split_ifs
  · exact .refl n
  · exact broadcastWithdrawal_sendsOnly ..

theorem startSync_sendsOnly (n : MeshNode) (peerId : String)
    (knownContentIds knownNodeIds : List JsValue) (now : ℤ) :
    SendsOnly n (n.startSync peerId knownContentIds knownNodeIds now) :=
  (sendOriginated_sendsOnly ..).trans (sendOriginated_sendsOnly ..)

/-- Opening a route sends, once the table holds the offered link. -/
theorem openRoute_sendsOnly (n : MeshNode) (peerId : String) (now : ℤ) :
    SendsOnly
      { n with
        routingTable := (n.routingTable.offer n.trustRankOf peerId peerId (.finite 1)).1 }
      (n.openRoute peerId now) := by
  unfold openRoute
  dsimp only
  split_ifs
  · exact (announceRoutes_sendsOnly ..).trans (announceToOthers_sendsOnly ..)
  · exact announceRoutes_sendsOnly ..

/-! ### Flooding and retrying -/

theorem settleFlood_deliversOnly (n : MeshNode) (packet : Packet) (exceptPeerId : Option String)
    (delivered : Bool) (now : ℤ) :
    DeliversOnly n (n.settleFlood packet exceptPeerId delivered now) := by
  unfold settleFlood
  split_ifs <;> rfl

theorem flood_deliversOnly (n : MeshNode) (packet : Packet) (exceptPeerId : Option String)
    (now : ℤ) : DeliversOnly n (n.flood packet exceptPeerId now) := by
  unfold flood
  dsimp only
  split_ifs
  · exact settleFlood_deliversOnly ..
  · refine DeliversOnly.trans ?_ rfl
    exact (SendsOnly.foldl (fun n id => n.sendToPeer_sendsOnly id packet now) ..).deliversOnly

theorem floodExcept_deliversOnly (n : MeshNode) (packet : Packet) (exceptPeerId : Option String)
    (now : ℤ) : DeliversOnly n (n.floodExcept packet exceptPeerId now) := by
  unfold floodExcept
  split
  · exact DeliversOnly.trans (sendToPeer_sendsOnly n _ packet now).deliversOnly rfl
  · exact flood_deliversOnly ..

theorem settle_deliversOnly (n : MeshNode) (attempt : Attempt) (delivered : Bool) (now : ℤ) :
    DeliversOnly n (n.settle attempt delivered now) := by
  cases attempt with
  | routed packet exceptPeerId nextHop handed =>
    rw [settle]
    split_ifs
    · exact .refl n
    · exact flood_deliversOnly ..
  | flooding packet exceptPeerId handed => exact settleFlood_deliversOnly ..

theorem retry_deliversOnly (n : MeshNode) (delivery : QueuedDelivery) (now : ℤ) :
    DeliversOnly n (n.retry delivery now) := by
  unfold retry
  split_ifs
  · exact floodExcept_deliversOnly ..
  · rfl

theorem flushPendingDeliveries_deliversOnly (n : MeshNode) (now : ℤ) :
    DeliversOnly n (n.flushPendingDeliveries now) := by
  unfold flushPendingDeliveries
  have hdrained : DeliversOnly n { n with pendingDeliveries := (n.pendingDeliveries.drain now).1 } :=
    rfl
  exact hdrained.trans (.foldl (fun n delivery => n.retry_deliversOnly delivery now) ..)

theorem forward_deliversOnly (n : MeshNode) (packet : Packet) (fromPeerId : String) (now : ℤ) :
    DeliversOnly n (n.forward packet fromPeerId now) := by
  unfold forward
  split_ifs
  · exact floodExcept_deliversOnly ..
  · rfl
  · exact .refl n

/-! ### The frame of `handlePacket` -/

/-- The node when an admitted packet that is no duplicate is dispatched. -/
def intake (n : MeshNode) (packet : Packet) (fromPeerId : String) (now : ℤ) : MeshNode :=
  { n with
    rateLimiter := (n.rateLimiter.allow fromPeerId now).1
    peers := PeerTable.touch n.peers fromPeerId now
    seenCache := n.seenCache.markSeen packet.id now }

/-- The packet is for this node or for everybody. -/
def deliversLocally (n : MeshNode) (packet : Packet) : Bool :=
  packet.isFor n.nodeId || packet.isBroadcast

/-- The packet goes on to others. -/
def relays (n : MeshNode) (packet : Packet) : Bool :=
  !packet.isFor n.nodeId && packet.hasHopsLeft

theorem handlePacket_of_takesIn {packet : Packet} {fromPeerId : String} {now : ℤ}
    (h : n.takesIn packet fromPeerId now = true) :
    n.handlePacket packet fromPeerId now =
      let taken := n.intake packet fromPeerId now
      let delivered := if n.deliversLocally packet then taken.deliver packet fromPeerId now
        else taken
      if n.relays packet then delivered.forward packet.relayed fromPeerId now else delivered := by
  obtain ⟨⟨hallow, htype⟩, hseen⟩ : ((n.rateLimiter.allow fromPeerId now).2 = true ∧
      packet.type ≠ .hello) ∧ n.seenCache.hasSeen packet.id = false := by
    simpa [takesIn, admits] using h
  simp only [handlePacket, hallow, htype, decideForward, hseen, Bool.not_true, Bool.false_eq_true,
    if_false, deliversLocally, intake, relays]
  by_cases hrelay : (!packet.isFor n.nodeId && packet.hasHopsLeft) = true
  · simp only [hrelay, if_true]
    rfl
  · simp only [hrelay, if_false, Bool.false_eq_true]
    rfl

/-- A packet that is not taken in touches the rate limiter and the peer table only. -/
theorem handlePacket_of_not_takesIn {packet : Packet} {fromPeerId : String} {now : ℤ}
    (h : n.takesIn packet fromPeerId now = false) :
    n.handlePacket packet fromPeerId now =
      { n with
        rateLimiter := (n.handlePacket packet fromPeerId now).rateLimiter
        peers := (n.handlePacket packet fromPeerId now).peers } := by
  by_cases hallow : (n.rateLimiter.allow fromPeerId now).2 = true
  · by_cases htype : packet.type = .hello
    · simp [handlePacket, hallow, htype]
    · have hseen : n.seenCache.hasSeen packet.id = true := by
        simpa [takesIn, admits, hallow, htype] using h
      simp [handlePacket, hallow, htype, decideForward, hseen]
  · simp [handlePacket, hallow]

@[simp] theorem keys_touch (peers : PeerTable) (id : String) (now : ℤ) :
    (PeerTable.touch peers id now).keys = peers.keys := by
  unfold PeerTable.touch
  cases h : peers.get? id with
  | none => rfl
  | some info => exact OrderedMap.keys_set_of_mem _ (OrderedMap.mem_keys_of_get? h)

end MeshNode
end Arald
