import Arald.Foundations.Flooding
import Arald.Mesh.FloodSafety

/-!
# How far a broadcast reaches

A node hands a broadcast on to every peer but the one it came from, unless the
copy it took in has no hops left. Duplicates are recognised by the id alone: the
copy that comes first decides how far the packet goes on from here, also when
it came by a detour and a later one has more hops left.
-/

namespace Arald

open Foundations

namespace MeshNode

variable {n n' : MeshNode} {packet : Packet} {exceptPeerId : Option String} {v : String} {now : ℤ}

/-! ### Every peer is sent to -/

theorem mem_sent_sendToPeer (packet : Packet) (now : ℤ) (h : n.peerTransport.has v = true) :
    ⟨v, packet, now⟩ ∈ (n.sendToPeer v packet now).sent := by
  rw [sendToPeer, if_pos h]
  exact List.mem_append_right _ (List.mem_singleton.mpr rfl)

theorem mem_sent_foldl {l : List String} (hv : v ∈ l) (h : n.peerTransport.has v = true) :
    ⟨v, packet, now⟩ ∈ (l.foldl (fun n id => n.sendToPeer id packet now) n).sent := by
  induction l generalizing n with
  | nil => cases hv
  | cons id l ih =>
    rcases List.mem_cons.mp hv with rfl | hrest
    · have hkept : Emits now (· = packet) (n.sendToPeer v packet now)
          (l.foldl (fun n id => n.sendToPeer id packet now) (n.sendToPeer v packet now)) :=
        .foldl (fun n id _ => n.sendToPeer_emits id packet now) _
      exact hkept.kept (mem_sent_sendToPeer packet now h)
    · exact ih hrest ((n.sendToPeer_emits id packet now).peerTransport ▸ h)

theorem mem_sent_flood (hv : v ∈ n.floodTargets exceptPeerId) (h : n.peerTransport.has v = true) :
    ⟨v, packet, now⟩ ∈ (n.flood packet exceptPeerId now).sent := by
  unfold flood
  dsimp only
  split_ifs with hempty
  · rw [List.isEmpty_iff.mp hempty] at hv
    cases hv
  · exact mem_sent_foldl hv h

/-- A broadcast has no next hop, so it is flooded. -/
theorem floodExcept_of_isBroadcast (hbroadcast : packet.isBroadcast = true) :
    n.floodExcept packet exceptPeerId now = n.flood packet exceptPeerId now := by
  have hhop : n.unicastHop? packet exceptPeerId = none := by
    simp [unicastHop?, Packet.isElsewhere, hbroadcast]
  rw [floodExcept, hhop]

theorem mem_floodTargets (hpeer : v ∈ n.peers.keys) (hexcept : exceptPeerId ≠ some v) :
    v ∈ n.floodTargets exceptPeerId :=
  List.mem_filter.mpr ⟨hpeer, by simpa using hexcept⟩

theorem keys_upsert_subset (peers : PeerTable) (id : String) (address : JsValue) (now : ℤ) :
    peers.keys ⊆ (PeerTable.upsert peers id address now).keys := by
  intro x hx
  unfold PeerTable.upsert
  split
  · exact OrderedMap.mem_keys_set.mpr (.inr hx)
  · exact OrderedMap.mem_keys_set.mpr (.inr hx)

theorem mem_keys_upsert (peers : PeerTable) (id : String) (address : JsValue) (now : ℤ) :
    id ∈ (PeerTable.upsert peers id address now).keys := by
  unfold PeerTable.upsert
  split <;> exact OrderedMap.mem_keys_set.mpr (.inl rfl)

/-- The node knows at least the peers it knew, by the same transports, and relays
for the same ones. -/
structure KeepsPeers (n n' : MeshNode) : Prop where
  peers : n.peers.keys ⊆ n'.peers.keys
  peerTransport : n'.peerTransport = n.peerTransport
  relayGateFor : ∀ peerId, n'.relayGateFor peerId = n.relayGateFor peerId

namespace KeepsPeers

theorem refl (n : MeshNode) : KeepsPeers n n := ⟨List.Subset.refl _, rfl, fun _ => rfl⟩

theorem trans {n'' : MeshNode} (h : KeepsPeers n n') (h' : KeepsPeers n' n'') :
    KeepsPeers n n'' where
  peers := List.Subset.trans h.peers h'.peers
  peerTransport := h'.peerTransport.trans h.peerTransport
  relayGateFor peerId := (h'.relayGateFor peerId).trans (h.relayGateFor peerId)

theorem of_deliversOnly (h : DeliversOnly n n') : KeepsPeers n n' where
  peers := by
    rw [h.peers]
    exact List.Subset.refl _
  peerTransport := h.peerTransport
  relayGateFor := h.relayGateFor

theorem of_sendsOnly (h : SendsOnly n n') : KeepsPeers n n' := of_deliversOnly h.deliversOnly

end KeepsPeers

theorem propagateChanges_keepsPeers (n : MeshNode) (packet : Packet) (fromPeerId : String)
    (changed : List String) (now : ℤ) :
    KeepsPeers n (n.propagateChanges packet fromPeerId changed now) := by
  unfold propagateChanges
  split_ifs
  · exact .refl n
  · have hnoted : KeepsPeers n
        { n with updates := n.updates ++ [⟨fromPeerId, packet, changed⟩] } :=
      ⟨List.Subset.refl _, rfl, fun _ => rfl⟩
    exact hnoted.trans (.of_sendsOnly (announceToOthers_sendsOnly ..))

theorem deliver_keepsPeers (n : MeshNode) (packet : Packet) (fromPeerId : String) (now : ℤ) :
    KeepsPeers n (n.deliver packet fromPeerId now) := by
  unfold deliver
  split
  · exact .of_sendsOnly (sendOriginated_sendsOnly ..)
  · refine ⟨?_, rfl, fun _ => rfl⟩
    exact List.foldlRecOn (motive := fun peers : PeerTable => n.peers.keys ⊆ peers.keys) _ _
      (List.Subset.refl _) fun peers hpeers e _ =>
        List.Subset.trans hpeers (keys_upsert_subset peers e.1 e.2 now)
  · exact .of_sendsOnly (sendOriginated_sendsOnly ..)
  · have htable : KeepsPeers n
        { n with routingTable := (n.announceLoop packet fromPeerId).table } :=
      ⟨List.Subset.refl _, rfl, fun _ => rfl⟩
    exact (htable.trans (propagateChanges_keepsPeers ..)).trans
      (.of_sendsOnly (propagateWithdrawals_sendsOnly ..))
  · exact .refl n

/-- The node once the local handlers have run. -/
theorem delivered_keepsPeers (n : MeshNode) (packet : Packet) (fromPeerId : String) (now : ℤ) :
    KeepsPeers n (if n.deliversLocally packet then
        (n.intake packet fromPeerId now).deliver packet fromPeerId now
      else n.intake packet fromPeerId now) := by
  have hintake : KeepsPeers n (n.intake packet fromPeerId now) :=
    ⟨by simp [intake], rfl, fun _ => rfl⟩
  split_ifs
  · exact hintake.trans (deliver_keepsPeers ..)
  · exact hintake

theorem keys_peers_of_not_takesIn {fromPeerId : String}
    (h : n.takesIn packet fromPeerId now = false) :
    (n.handlePacket packet fromPeerId now).peers.keys = n.peers.keys := by
  by_cases hallow : (n.rateLimiter.allow fromPeerId now).2 = true
  · by_cases htype : packet.type = .hello
    · simp [handlePacket, hallow, htype]
    · have hseen : n.seenCache.hasSeen packet.id = true := by
        simpa [takesIn, admits, hallow, htype] using h
      simp [handlePacket, hallow, htype, decideForward, hseen]
  · simp [handlePacket, hallow]

theorem handlePacket_keepsPeers (n : MeshNode) (packet : Packet) (fromPeerId : String) (now : ℤ) :
    KeepsPeers n (n.handlePacket packet fromPeerId now) := by
  by_cases htaken : n.takesIn packet fromPeerId now = true
  · have hlocal := n.delivered_keepsPeers packet fromPeerId now
    rw [handlePacket_of_takesIn htaken]
    by_cases hrelays : n.relays packet = true
    · simp only [hrelays, if_true]
      exact hlocal.trans (.of_deliversOnly (forward_deliversOnly ..))
    · simp only [hrelays, if_false, Bool.false_eq_true]
      exact hlocal
  · have hnot : n.takesIn packet fromPeerId now = false := by simpa using htaken
    refine ⟨?_, ?_, fun peerId => ?_⟩
    · rw [keys_peers_of_not_takesIn hnot]
      exact List.Subset.refl _
    · rw [handlePacket_of_not_takesIn hnot]
    · rw [handlePacket_of_not_takesIn hnot]
      rfl

/-- A broadcast that is taken in with hops left goes to every other peer, if the
gate for its sender is open. -/
theorem mem_sent_handlePacket {fromPeerId : String}
    (htaken : n.takesIn packet fromPeerId now = true) (hrelays : n.relays packet = true)
    (hbroadcast : packet.isBroadcast = true) (hgate : n.relayGateFor fromPeerId = .ok)
    (hpeer : v ∈ n.peers.keys) (hv : n.peerTransport.has v = true) (hother : v ≠ fromPeerId) :
    ⟨v, packet.relayed, now⟩ ∈ (n.handlePacket packet fromPeerId now).sent := by
  rw [handlePacket_of_takesIn htaken]
  have hkeeps := n.delivered_keepsPeers packet fromPeerId now
  have hrelayed : packet.relayed.isBroadcast = true := hbroadcast
  simp only [hrelays, if_true]
  rw [forward, if_pos ((hkeeps.relayGateFor fromPeerId).trans hgate),
    floodExcept_of_isBroadcast hrelayed]
  refine mem_sent_flood (mem_floodTargets (hkeeps.peers hpeer) ?_) (hkeeps.peerTransport ▸ hv)
  simpa using hother.symm

end MeshNode

namespace MeshNode

/-- Every connected peer is in the peer table. -/
def PeersKnown (n : MeshNode) : Prop := ∀ v, n.peerTransport.has v = true → v ∈ n.peers.keys

theorem PeersKnown.keepsPeers {n n' : MeshNode} (h : PeersKnown n) (hkeeps : KeepsPeers n n') :
    PeersKnown n' :=
  fun v hv => hkeeps.peers (h v (hkeeps.peerTransport ▸ hv))

/-- Apart from connections, nothing removes a peer. -/
theorem step_keepsPeers {n n' : MeshNode} {event : NodeEvent} (h : n.step event = some n')
    (hlinks : changesLinks event = false) :
    n.peers.keys ⊆ n'.peers.keys ∧ n'.peerTransport = n.peerTransport := by
  refine ⟨?_, (step_effect h).links hlinks⟩
  cases event with
  | connected => simp [changesLinks] at hlinks
  | disconnected => simp [changesLinks] at hlinks
  | received packet fromPeerId now =>
    simp only [step] at h
    split_ifs at h
    obtain rfl := Option.some_inj.mp h
    exact (handlePacket_keepsPeers ..).peers
  | flooded options now =>
    simp only [step] at h
    split_ifs at h
    obtain rfl := Option.some_inj.mp h
    have hflood := KeepsPeers.of_deliversOnly
      (floodExcept_deliversOnly (n.afterOriginate now) (n.originated options now) none now)
    exact hflood.peers
  | sentTo peerId options now =>
    simp only [step] at h
    split_ifs at h
    obtain rfl := Option.some_inj.mp h
    exact (KeepsPeers.of_sendsOnly (sendOriginated_sendsOnly ..)).peers
  | settled index delivered now =>
    simp only [step] at h
    split at h
    next attempt _ =>
      split_ifs at h
      obtain rfl := Option.some_inj.mp h
      have hsettle := KeepsPeers.of_deliversOnly
        (settle_deliversOnly { n with attempts := n.attempts.eraseIdx index } attempt delivered now)
      exact hsettle.peers
    · cases h
  | trustChanged trust =>
    obtain rfl := Option.some_inj.mp h
    exact List.Subset.refl _
  | resourcesChanged resources =>
    obtain rfl := Option.some_inj.mp h
    exact List.Subset.refl _

theorem PeersKnown.step {n n' : MeshNode} {event : NodeEvent} (hn : PeersKnown n)
    (h : n.step event = some n') : PeersKnown n' := by
  by_cases hlinks : changesLinks event = false
  · obtain ⟨hpeers, htransport⟩ := step_keepsPeers h hlinks
    exact fun v hv => hpeers (hn v (htransport ▸ hv))
  cases event with
  | connected transport peerId address knownContentIds knownNodeIds now =>
    obtain rfl := Option.some_inj.mp h
    have hlinked : PeersKnown (n.link transport peerId address now) := by
      intro v hv
      rw [OrderedMap.has_iff, link, OrderedMap.mem_keys_set] at hv
      rcases hv with rfl | hold
      · exact mem_keys_upsert ..
      · exact keys_upsert_subset _ _ _ _ (hn v (OrderedMap.has_iff.mpr hold))
    have hflush := KeepsPeers.of_deliversOnly
      ((n.link transport peerId address now).flushPendingDeliveries_deliversOnly now)
    have hsync := KeepsPeers.of_sendsOnly
      (((n.link transport peerId address now).flushPendingDeliveries now).startSync_sendsOnly
        peerId knownContentIds knownNodeIds now)
    have hsynced := (hlinked.keepsPeers hflush).keepsPeers hsync
    have hroute := KeepsPeers.of_sendsOnly ((((n.link transport peerId address
      now).flushPendingDeliveries now).startSync peerId knownContentIds knownNodeIds
        now).openRoute_sendsOnly peerId now)
    exact fun v hv => hroute.peers (hsynced v (hroute.peerTransport ▸ hv))
  | disconnected peerId now =>
    obtain rfl := Option.some_inj.mp h
    have hunlinked : PeersKnown (n.unlink peerId) := by
      intro v hv
      rw [OrderedMap.has_iff, unlink, OrderedMap.mem_keys_delete] at hv
      exact OrderedMap.mem_keys_delete.mpr ⟨hn v (OrderedMap.has_iff.mpr hv.1), hv.2⟩
    exact hunlinked.keepsPeers (.of_sendsOnly (propagateWithdrawals_sendsOnly ..))
  | _ => simp [changesLinks] at hlinks

end MeshNode

namespace FloodRun

open MeshNode

variable {w w' : FloodRun} {nodeId : String} {event : NodeEvent} {n n' : MeshNode}

theorem peersKnown (h : system.Reachable w) : ∀ id n, w.node? id = some n → PeersKnown n := by
  refine h.invariant (I := fun w => ∀ id n, w.node? id = some n → PeersKnown n) ?_ ?_
  · rintro w ⟨hcreated, -⟩ id n hn
    obtain ⟨options, resources, uuid, rfl⟩ := hcreated id n hn
    intro v hv
    cases hv
  · rintro w e w' hI - hstep
    obtain ⟨nodeId, event, n, n', hn, hnode, rfl, -⟩ := step_cases hstep
    exact OrderedMap.forall_get?_set (P := fun _ m => PeersKnown m) hI ((hI nodeId n hn).step hnode)

/-- What has arrived was drawn before. -/
theorem arrivals_known (h : system.Reachable w) (hbudget : w.ids.length ≤ 4096) :
    ∀ a ∈ w.arrivals, a.packet.id ∈ w.ids := by
  refine h.invariant_of (I := fun w => w.ids.length ≤ 4096 → ∀ a ∈ w.arrivals, a.packet.id ∈ w.ids)
    (J := fun w => w.ids.length ≤ 4096 → ∀ id n, w.node? id = some n → w.Accounted id n)
    (fun w hw hbudget => accounted hw hbudget) ?_ ?_ hbudget
  · rintro w ⟨-, -, -, hnone, -⟩ - a ha
    rw [hnone] at ha
    cases ha
  · rintro w e w' hJ hI - hstep - hbudget a ha
    obtain ⟨nodeId, event, n, n', hn, hnode, rfl, hsent⟩ := step_cases hstep
    have hbefore := ids_le_of_record hbudget
    rcases List.mem_append.mp ha with hold | hnew
    · exact mem_ids_record (hI hbefore a hold)
    · cases event with
      | received packet fromPeerId now =>
        obtain rfl := List.mem_singleton.mp hnew
        obtain ⟨m, hm, s, hs, rfl, -⟩ := hsent packet fromPeerId now rfl
        exact mem_ids_record ((hJ hbefore fromPeerId m hm).held _ (.inl ⟨s, hs, rfl⟩))
      | _ => cases hnew

/-! ### A flood on links that stay -/

/-- `u` has a connection to `v` at present. -/
def linked (w : FloodRun) (u v : String) : Bool := (w.node? u).any fun n => n.peerTransport.has v

/-- The connections at present, as a graph on node ids. -/
def graph (w : FloodRun) : SimpleGraph String :=
  SimpleGraph.fromRel fun u v => w.linked u v = true

/-- Every connection is one at both of its ends. -/
def BothWays (w : FloodRun) : Prop :=
  ∀ e ∈ w.network.nodes.entries, ∀ v ∈ e.2.peerTransport.keys, w.linked v e.1 = true

instance (w : FloodRun) : Decidable w.BothWays := inferInstanceAs (Decidable (∀ _ ∈ _, _))

/-- Every copy of the packet that was handed over has arrived. -/
def AllArrived (w : FloodRun) (x : String) : Prop :=
  ∀ e ∈ w.network.nodes.entries, ∀ c ∈ e.2.sent, c.packet.id = x →
    ∃ a ∈ w.arrivals, a.nodeId = c.recipient ∧ a.packet.id = x ∧ a.fromPeerId = e.1

instance (w : FloodRun) (x : String) : Decidable (w.AllArrived x) :=
  inferInstanceAs (Decidable (∀ _ ∈ _, _))

/-- The event leaves all connections as they are. -/
def linksStay : NetworkEvent → Bool
  | .internal _ event => !changesLinks event
  | _ => true

/-- A copy of the packet `x` that arrives is admitted, and its recipient relays
for its sender. -/
def letsThrough (x : String) (w : FloodRun) : NetworkEvent → Bool
  | .arrived sender index now =>
    ((w.node? sender).bind fun m => m.sent[index]?).all fun c =>
      c.packet.id ≠ x || (w.node? c.recipient).all fun n =>
        n.admits c.packet sender now && n.relayGateFor sender = .ok
  | _ => true

/-- The runs that continue from `w`. -/
def continuing (w : FloodRun) : System FloodRun NetworkEvent where
  Init := (· = w)
  step := step

/-- `s` starts to flood a broadcast with id `x` and a budget of `T` hops. -/
structure FloodStarts (s : String) (x : String) (T : ℤ) (w₀ w₁ : FloodRun) : Prop where
  reachable : system.Reachable w₀
  starts : ∃ options now n, w₀.step (.internal s (.flooded options now)) = some w₁ ∧
    options.destination = none ∧ w₀.node? s = some n ∧ n.ttl = .finite T ∧ x = n.uuid n.drawn

/-- The arrivals at which the packet `x` was taken in, in order. -/
def takers (w : FloodRun) (x : String) : List Arrival := w.intakes.filter fun a => a.packet.id = x

/-! ### What holds while the packet spreads -/

/-- `u` is the source of the packet or has taken it in. -/
def Holder (w : FloodRun) (s x u : String) : Prop := u = s ∨ ∃ a ∈ w.takers x, a.nodeId = u

/-- `u` has handed a copy of the packet to the transport of `v`. -/
def HandedTo (w : FloodRun) (x u v : String) : Prop :=
  ∃ n, w.node? u = some n ∧ ∃ c ∈ n.sent, c.recipient = v ∧ c.packet.id = x

structure Spreading (s x : String) (T : ℤ) (w : FloodRun) : Prop where
  known : x ∈ w.ids
  held : ∀ u n, w.node? u = some n → ∀ p, n.Holds p → p.id = x →
    p.isBroadcast = true ∧ w.Holder s x u ∧
      ∃ j : ℕ, j ≤ (w.takers x).length ∧ p.ttl = .finite ((T - j : ℤ) : ℚ)
  seen : ∀ u n, w.node? u = some n → n.seenCache.hasSeen x = true → w.Holder s x u
  source_seen : ∃ n, w.node? s = some n ∧ n.seenCache.hasSeen x = true
  taken : ∀ i a, (w.takers x)[i]? = some a →
    a.packet.isBroadcast = true ∧ ∃ j : ℕ, j ≤ i ∧ a.packet.ttl = .finite ((T - j : ℤ) : ℚ)
  senders : ∀ a ∈ w.takers x, w.Holder s x a.fromPeerId
  others : ∀ a ∈ w.takers x, a.nodeId ≠ s
  source_sends : ∀ v, w.linked s v = true → w.HandedTo x s v
  relays : ∀ a ∈ w.takers x, a.packet.hasHopsLeft = true → ∀ v, w.linked a.nodeId v = true →
    v ≠ a.fromPeerId → w.HandedTo x a.nodeId v
  arrived : ∀ a ∈ w.arrivals, a.packet.id = x → w.Holder s x a.nodeId

section Growth

variable (s x : String)

theorem takers_record :
    (w.record nodeId event n n').takers x =
      w.takers x ++ (intakesOf nodeId n event).filter fun a => a.packet.id = x :=
  List.filter_append ..

variable {s x}

theorem Holder.record {u : String} (h : w.Holder s x u) :
    (w.record nodeId event n n').Holder s x u := by
  refine h.imp_right ?_
  rintro ⟨a, ha, hid⟩
  refine ⟨a, ?_, hid⟩
  rw [takers_record]
  exact List.mem_append_left _ ha

variable (hn : w.node? nodeId = some n) (hstep : n.step event = some n')
include hn hstep

theorem HandedTo.record {u v : String} (h : w.HandedTo x u v) :
    (w.record nodeId event n n').HandedTo x u v := by
  obtain ⟨m, hm, c, hc, hcopy⟩ := h
  rw [HandedTo]
  simp only [node?_record]
  split_ifs with hid
  · obtain rfl : n = m := Option.some_inj.mp (hn.symm.trans (hid ▸ hm))
    exact ⟨n', rfl, c, (step_effect hstep).kept hc, hcopy⟩
  · exact ⟨m, hm, c, hc, hcopy⟩

theorem linked_record (hlinks : changesLinks event = false) (u v : String) :
    (w.record nodeId event n n').linked u v = w.linked u v := by
  rw [linked, linked, node?_record]
  split_ifs with hid
  · rw [hid, hn, Option.any_some, Option.any_some, (step_effect hstep).links hlinks]
  · rfl

end Growth

/-- The step that starts the flood: the packet is new, and goes to every peer. -/
theorem FloodStarts.spreading {s x : String} {T : ℤ} {w₀ w₁ : FloodRun}
    (h : FloodStarts s x T w₀ w₁) (hbudget : w₁.ids.length ≤ 4096) (hfresh : w₁.ids.Nodup) :
    Spreading s x T w₁ := by
  obtain ⟨hreachable, options, now, n, hstart, hdestination, hn, hT, rfl⟩ := h
  simp only [step, NodeEvent.isArrival, Bool.false_eq_true, if_false] at hstart
  obtain ⟨m, hm, hmap⟩ := Option.bind_eq_some_iff.mp hstart
  obtain rfl : n = m := Option.some_inj.mp (hn.symm.trans hm)
  obtain ⟨n', hstep, rfl⟩ := Option.map_eq_some_iff.mp hmap
  have hbefore : w₀.ids.length ≤ 4096 := by
    rw [ids_record, List.length_append] at hbudget
    omega
  have haccounted := accounted hreachable hbefore
  have hsent : w₀.Sent s (.flooded options now) := by
    rintro packet fromPeerId time heq
    cases heq
  have hremembers := hasSeen_of_step haccounted hn hstep hsent hbudget
  have heffect := step_effect hstep
  have hstepped := hstep
  simp only [MeshNode.step] at hstepped
  split_ifs at hstepped with htype
  have hn' : n' = (n.afterOriginate now).floodExcept (n.originated options now) none now :=
    (Option.some_inj.mp hstepped).symm
  have hbroadcast : (n.originated options now).isBroadcast = true := by
    simp [Packet.isBroadcast, originated, createPacket, hdestination, JsValue.isUndefined]
  have hflood := floodExcept_emits (n.afterOriginate now) (n.originated options now) none now
  have hnew : n.uuid n.drawn ∈ n.newIds n' :=
    mem_newIds.mpr ⟨n.drawn, le_rfl, hn' ▸ hflood.drawn, rfl⟩
  have hunknown : n.uuid n.drawn ∉ w₀.ids := fun hx =>
    (List.nodup_append.mp hfresh).2.2 _ hx _ hnew rfl
  have hnone : w₀.takers (n.uuid n.drawn) = [] := by
    rw [takers, List.filter_eq_nil_iff]
    intro a ha hid
    obtain ⟨m, hm, hseen⟩ := (takenOnce hreachable hbefore).seen a ha
    exact hunknown ((of_decide_eq_true hid) ▸ (haccounted _ m hm).seen _ hseen)
  have hnoTakers : (w₀.record s (.flooded options now) n n').takers (n.uuid n.drawn) = [] := by
    rw [takers_record, hnone]
    rfl
  refine ⟨List.mem_append_right _ hnew, ?_, ?_, ?_, ?_, ?_, ?_, ?_, ?_, ?_⟩
  · intro u m hm p hp hid
    rw [node?_record] at hm
    split_ifs at hm with hu
    · obtain rfl := Option.some_inj.mp hm
      rw [hn'] at hp
      rcases hflood.holds p hp with hheld | hlater | rfl
      · have hknown := (haccounted s n hn).held p hheld
        exact absurd (hid ▸ hknown) hunknown
      · -- an id drawn later is another one
        have hsplit : n.newIds (n.afterOriginate now) ++ (n.afterOriginate now).newIds
            ((n.afterOriginate now).floodExcept (n.originated options now) none now) =
              n.newIds ((n.afterOriginate now).floodExcept (n.originated options now) none now) :=
          newIds_append rfl (Nat.le_succ _) hflood.drawn
        rw [ids_record, hn', ← hsplit] at hfresh
        have hdrawn : n.uuid n.drawn ∈ n.newIds (n.afterOriginate now) :=
          mem_newIds.mpr ⟨n.drawn, le_rfl, Nat.lt_succ_self _, rfl⟩
        have hdisjoint := (List.nodup_append.mp (List.nodup_append.mp hfresh).2.1).2.2
        exact absurd hid.symm (hdisjoint _ hdrawn _ hlater.id)
      · refine ⟨hbroadcast, .inl hu, 0, Nat.zero_le _, ?_⟩
        simp [originated, createPacket, hT]
    · exact absurd (hid ▸ (haccounted u m hm).held p hp) hunknown
  · intro u m hm hseen
    rw [node?_record] at hm
    split_ifs at hm with hu
    · exact .inl hu
    · exact absurd ((haccounted u m hm).seen _ hseen) hunknown
  · exact ⟨n', by simp [node?_record], (hremembers _).mpr (.inr (.inr hnew))⟩
  · intro i a ha
    rw [hnoTakers] at ha
    cases ha
  · intro a ha
    rw [hnoTakers] at ha
    cases ha
  · intro a ha
    rw [hnoTakers] at ha
    cases ha
  · intro v hv
    have hpeer : n.peerTransport.has v = true := by
      rw [linked_record hn hstep rfl, linked, hn] at hv
      exact hv
    refine ⟨n', by simp [node?_record], ⟨v, n.originated options now, now⟩, ?_, rfl, rfl⟩
    rw [hn', floodExcept_of_isBroadcast hbroadcast]
    exact mem_sent_flood (mem_floodTargets (peersKnown hreachable s n hn v hpeer) (by simp)) hpeer
  · intro a ha
    rw [hnoTakers] at ha
    cases ha
  · intro a ha hid
    have hold : a ∈ w₀.arrivals := by
      rcases List.mem_append.mp ha with hold | hnone
      · exact hold
      · cases hnone
    exact absurd (hid ▸ arrivals_known hreachable hbefore a hold) hunknown

/-- What the conditions say of the event at the node. -/
theorem step_cases_of_conditions {e : NetworkEvent} {x : String} (h : step w e = some w')
    (hlinks : linksStay e = true) (hlets : letsThrough x w e = true) :
    ∃ nodeId event n n', w.node? nodeId = some n ∧ n.step event = some n' ∧
      w' = w.record nodeId event n n' ∧ w.Sent nodeId event ∧ changesLinks event = false ∧
      ∀ packet fromPeerId now, event = .received packet fromPeerId now → packet.id = x →
        n.admits packet fromPeerId now = true ∧ n.relayGateFor fromPeerId = .ok := by
  obtain ⟨nodeId, event, n, n', hn, hnode, hw', hsent⟩ := step_cases h
  cases e with
  | internal id inner =>
    simp only [step] at h
    split_ifs at h with harrival
    obtain ⟨m, hm, hmap⟩ := Option.bind_eq_some_iff.mp h
    obtain ⟨m', hm', rfl⟩ := Option.map_eq_some_iff.mp hmap
    refine ⟨id, inner, m, m', hm, hm', rfl, ?_, by simpa [linksStay] using hlinks, ?_⟩
    · rintro packet fromPeerId now rfl
      simp [NodeEvent.isArrival] at harrival
    · rintro packet fromPeerId now rfl
      simp [NodeEvent.isArrival] at harrival
  | arrived sender index now =>
    obtain ⟨c, hc, hact⟩ := Option.bind_eq_some_iff.mp h
    obtain ⟨m, hm, hmap⟩ := Option.bind_eq_some_iff.mp hact
    obtain ⟨m', hm', rfl⟩ := Option.map_eq_some_iff.mp hmap
    obtain ⟨k, hk, hsentBy⟩ := Option.bind_eq_some_iff.mp hc
    refine ⟨c.recipient, .received c.packet sender now, m, m', hm, hm', rfl, ?_, rfl, ?_⟩
    · rintro packet fromPeerId time heq
      injection heq with hpacket hsender htime
      subst hpacket hsender
      exact ⟨k, hk, c, List.mem_of_getElem? hsentBy, rfl, rfl⟩
    · rintro packet fromPeerId time heq hid
      injection heq with hpacket hsender htime
      subst hpacket hsender htime
      simpa [letsThrough, hc, hid, hm] using hlets
  | injected recipient packet now => cases h

section Step

variable {s x : String} {T : ℤ}

theorem mem_takers_record {packet : Packet} {fromPeerId : String} {now : ℤ}
    (htaken : n.takesIn packet fromPeerId now = true) (hid : packet.id = x) :
    ⟨nodeId, packet, fromPeerId⟩ ∈
      (w.record nodeId (.received packet fromPeerId now) n n').takers x := by
  rw [takers_record]
  refine List.mem_append_right _ (List.mem_filter.mpr ⟨?_, decide_eq_true hid⟩)
  simp [intakesOf, htaken]

theorem length_takers_le : (w.takers x).length ≤ ((w.record nodeId event n n').takers x).length := by
  rw [takers_record, List.length_append]
  exact Nat.le_add_right _ _

variable (hs : Spreading s x T w) (haccounted : ∀ id n, w.node? id = some n → w.Accounted id n)
  (hn : w.node? nodeId = some n) (hstep : n.step event = some n') (hsent : w.Sent nodeId event)
  (hbudget : (w.record nodeId event n n').ids.length ≤ 4096)
  (hfresh : (w.record nodeId event n n').ids.Nodup)

include hs hsent in
/-- A copy that arrives is one that its sender holds. -/
theorem Spreading.copy {packet : Packet} {fromPeerId : String} {now : ℤ}
    (hevent : event = .received packet fromPeerId now) (hid : packet.id = x) :
    packet.isBroadcast = true ∧ w.Holder s x fromPeerId ∧
      ∃ j : ℕ, j ≤ (w.takers x).length ∧ packet.ttl = .finite ((T - j : ℤ) : ℚ) := by
  obtain ⟨m, hm, c, hc, rfl, -⟩ := hsent packet fromPeerId now hevent
  exact hs.held fromPeerId m hm c.packet (.inl ⟨c, hc, rfl⟩) hid

include hs hfresh in
theorem Spreading.not_new : x ∉ n.newIds n' := fun hnew =>
  (List.nodup_append.mp hfresh).2.2 _ hs.known _ hnew rfl

include hs hn hstep hsent hfresh in
theorem Spreading.held_record (hT : T ≤ 2 ^ 53) (u : String) (m : MeshNode)
    (hm : (w.record nodeId event n n').node? u = some m) (p : Packet) (hp : m.Holds p)
    (hid : p.id = x) :
    p.isBroadcast = true ∧ (w.record nodeId event n n').Holder s x u ∧
      ∃ j : ℕ, j ≤ ((w.record nodeId event n n').takers x).length ∧
        p.ttl = .finite ((T - j : ℤ) : ℚ) := by
  have hold : ∀ m, w.node? u = some m → m.Holds p →
      p.isBroadcast = true ∧ (w.record nodeId event n n').Holder s x u ∧
        ∃ j : ℕ, j ≤ ((w.record nodeId event n n').takers x).length ∧
          p.ttl = .finite ((T - j : ℤ) : ℚ) := by
    intro m hm hp
    obtain ⟨hbroadcast, hholder, j, hj, httl⟩ := hs.held u m hm p hp hid
    exact ⟨hbroadcast, hholder.record, j, hj.trans length_takers_le, httl⟩
  rw [node?_record] at hm
  split_ifs at hm with hu
  · obtain rfl := Option.some_inj.mp hm
    rcases (step_effect hstep).holds p hp with hheld | hown | hrelays
    · exact hold n (hu ▸ hn) hheld
    · exact absurd (hid ▸ hown.id) (hs.not_new hfresh)
    · obtain ⟨packet, fromPeerId, now, rfl, htaken, hrelay, rfl⟩ := hrelays
      obtain ⟨hbroadcast, -, j, hj, httl⟩ := hs.copy hsent rfl hid
      simp only [MeshNode.relays, Bool.and_eq_true] at hrelay
      refine ⟨hbroadcast, .inr ⟨_, mem_takers_record htaken hid, hu.symm⟩, j + 1, ?_,
        (ttl_relayed httl hT hrelay.2).2⟩
      have hlength : (w.takers x).length + 1 =
          ((w.record nodeId (.received packet fromPeerId now) n n').takers x).length := by
        have hpacket : packet.id = x := hid
        simp [takers_record, intakesOf, htaken, hpacket]
      omega
  · exact hold m hm hp

include hs haccounted hn hstep hsent hbudget hfresh in
theorem Spreading.seen_record (u : String) (m : MeshNode)
    (hm : (w.record nodeId event n n').node? u = some m)
    (hseen : m.seenCache.hasSeen x = true) : (w.record nodeId event n n').Holder s x u := by
  rw [node?_record] at hm
  split_ifs at hm with hu
  · obtain rfl := Option.some_inj.mp hm
    rcases (hasSeen_of_step haccounted hn hstep hsent hbudget x).mp hseen with
      hbefore | haccepted | hnew
    · exact (hs.seen u n (hu ▸ hn) hbefore).record
    · cases event with
      | received packet fromPeerId now =>
        simp only [acceptedIds] at haccepted
        split_ifs at haccepted with htaken
        · exact .inr ⟨_, mem_takers_record htaken (List.mem_singleton.mp haccepted).symm, hu.symm⟩
        · cases haccepted
      | _ => cases haccepted
    · exact absurd hnew (hs.not_new hfresh)
  · exact (hs.seen u m hm hseen).record

/-- The takers after an event: those before, and possibly the one of this event. -/
theorem mem_takers_cases {a : Arrival} (ha : a ∈ (w.record nodeId event n n').takers x) :
    a ∈ w.takers x ∨ a.nodeId = nodeId ∧ a.packet.id = x ∧
      ∃ now, event = .received a.packet a.fromPeerId now ∧
        n.takesIn a.packet a.fromPeerId now = true := by
  rw [takers_record] at ha
  rcases List.mem_append.mp ha with hold | hnew
  · exact .inl hold
  · obtain ⟨hintake, hid⟩ := List.mem_filter.mp hnew
    obtain ⟨now, hevent, hnode, htaken⟩ := mem_intakesOf hintake
    exact .inr ⟨hnode, of_decide_eq_true hid, now, hevent, htaken⟩

include hs hsent in
theorem Spreading.taken_record (i : ℕ) (a : Arrival)
    (ha : ((w.record nodeId event n n').takers x)[i]? = some a) :
    a.packet.isBroadcast = true ∧ ∃ j : ℕ, j ≤ i ∧ a.packet.ttl = .finite ((T - j : ℤ) : ℚ) := by
  rcases lt_or_ge i (w.takers x).length with hlt | hge
  · rw [takers_record, List.getElem?_append_left hlt] at ha
    exact hs.taken i a ha
  · have hnew : a ∈ (intakesOf nodeId n event).filter fun a => a.packet.id = x := by
      rw [takers_record, List.getElem?_append_right hge] at ha
      exact List.mem_of_getElem? ha
    obtain ⟨hintake, hid⟩ := List.mem_filter.mp hnew
    obtain ⟨now, hevent, -, -⟩ := mem_intakesOf hintake
    obtain ⟨hbroadcast, -, j, hj, httl⟩ := hs.copy hsent hevent (of_decide_eq_true hid)
    exact ⟨hbroadcast, j, hj.trans hge, httl⟩

include hs hn hstep hsent in
theorem Spreading.relays_record (hlinks : changesLinks event = false) (hpeers : PeersKnown n)
    (hlets : ∀ packet fromPeerId now, event = .received packet fromPeerId now → packet.id = x →
      n.admits packet fromPeerId now = true ∧ n.relayGateFor fromPeerId = .ok)
    (a : Arrival) (ha : a ∈ (w.record nodeId event n n').takers x)
    (hhops : a.packet.hasHopsLeft = true) (v : String)
    (hv : (w.record nodeId event n n').linked a.nodeId v = true) (hother : v ≠ a.fromPeerId) :
    (w.record nodeId event n n').HandedTo x a.nodeId v := by
  rw [linked_record hn hstep hlinks] at hv
  rcases mem_takers_cases ha with hold | ⟨hnode, hid, now, rfl, htaken⟩
  · exact (hs.relays a hold hhops v hv hother).record hn hstep
  · obtain ⟨hbroadcast, -⟩ := hs.copy hsent rfl hid
    have hnotFor : a.packet.isFor n.nodeId = false := by
      by_contra hfor
      rw [Packet.not_isBroadcast_of_isFor (by simpa using hfor)] at hbroadcast
      cases hbroadcast
    have hrelays : n.relays a.packet = true := by simp [MeshNode.relays, hnotFor, hhops]
    have hpeer : n.peerTransport.has v = true := by
      rw [hnode, linked, hn] at hv
      exact hv
    have hhanded := mem_sent_handlePacket htaken hrelays hbroadcast (hlets _ _ _ rfl hid).2
      (hpeers v hpeer) hpeer hother
    have hn' : n' = n.handlePacket a.packet a.fromPeerId now := by
      simp only [MeshNode.step] at hstep
      split_ifs at hstep
      exact (Option.some_inj.mp hstep).symm
    exact ⟨n', by rw [hnode, node?_record, if_pos rfl], _, hn' ▸ hhanded, rfl, hid⟩

include hs haccounted hn hstep hsent hbudget hfresh in
/-- One event, while the links stay and every copy is let through. -/
theorem Spreading.record (hT : T ≤ 2 ^ 53) (hlinks : changesLinks event = false)
    (hpeers : PeersKnown n)
    (hlets : ∀ packet fromPeerId now, event = .received packet fromPeerId now → packet.id = x →
      n.admits packet fromPeerId now = true ∧ n.relayGateFor fromPeerId = .ok) :
    Spreading s x T (w.record nodeId event n n') := by
  refine ⟨mem_ids_record hs.known, hs.held_record hn hstep hsent hfresh hT,
    hs.seen_record haccounted hn hstep hsent hbudget hfresh, ?_, hs.taken_record hsent, ?_, ?_, ?_,
    hs.relays_record hn hstep hsent hlinks hpeers hlets, ?_⟩
  · obtain ⟨m, hm, hseen⟩ := hs.source_seen
    rw [node?_record]
    split_ifs with hid
    · obtain rfl : n = m := Option.some_inj.mp (hn.symm.trans (hid ▸ hm))
      exact ⟨n', rfl, (hasSeen_of_step haccounted hn hstep hsent hbudget x).mpr (.inl hseen)⟩
    · exact ⟨m, hm, hseen⟩
  · intro a ha
    rcases mem_takers_cases ha with hold | ⟨-, hid, now, hevent, -⟩
    · exact (hs.senders a hold).record
    · exact (hs.copy hsent hevent hid).2.1.record
  · intro a ha hsource
    rcases mem_takers_cases ha with hold | ⟨hnode, hid, now, -, htaken⟩
    · exact hs.others a hold hsource
    · obtain ⟨m, hm, hseen⟩ := hs.source_seen
      obtain rfl : n = m := Option.some_inj.mp (hn.symm.trans ((hnode.symm.trans hsource) ▸ hm))
      simp [takesIn, hid, hseen] at htaken
  · intro v hv
    rw [linked_record hn hstep hlinks] at hv
    exact (hs.source_sends v hv).record hn hstep
  · intro a ha hid
    rcases List.mem_append.mp ha with hold | hnew
    · exact (hs.arrived a hold hid).record
    · cases event with
      | received packet fromPeerId now =>
        obtain rfl := List.mem_singleton.mp hnew
        by_cases hseen : n.seenCache.hasSeen packet.id = true
        · exact (hs.seen nodeId n hn (hid ▸ hseen)).record
        · have htaken : n.takesIn packet fromPeerId now = true := by
            simp [takesIn, (hlets packet fromPeerId now rfl hid).1, hseen]
          exact .inr ⟨_, mem_takers_record htaken hid, rfl⟩
      | _ => cases hnew

end Step

/-- Every state of the flood, up to its end. -/
theorem FloodStarts.spreading_run {s x : String} {T : ℤ} {w₀ w₁ : FloodRun}
    (h : FloodStarts s x T w₀ w₁) (hT : T ≤ 2 ^ 53)
    (hrun : (continuing w₁).ReachableUnder (fun w e => (linksStay e && letsThrough x w e) = true) w)
    (hbudget : w.ids.length ≤ 4096) (hfresh : w.ids.Nodup) :
    system.Reachable w ∧ Spreading s x T w := by
  have hstart : system.Reachable w₁ := by
    obtain ⟨options, now, n, hstep, -⟩ := h.starts
    have hflooded : system.step w₀ (.internal s (.flooded options now)) = some w₁ := hstep
    exact .step h.reachable trivial hflooded
  refine (fun hall => ⟨hall.1, hall.2 hbudget hfresh⟩) (hrun.invariant
    (I := fun w => system.Reachable w ∧
      (w.ids.length ≤ 4096 → w.ids.Nodup → Spreading s x T w)) ?_ ?_)
  · rintro w rfl
    exact ⟨hstart, fun hbudget hfresh => h.spreading hbudget hfresh⟩
  · rintro w e w' ⟨hreachable, hI⟩ hcond hstep
    refine ⟨.step hreachable trivial hstep, fun hbudget hfresh => ?_⟩
    obtain ⟨hlinks, hlets⟩ := Bool.and_eq_true_iff.mp hcond
    obtain ⟨nodeId, event, n, n', hn, hnode, rfl, hsent, hstay, hthrough⟩ :=
      step_cases_of_conditions hstep hlinks hlets
    have hbefore := ids_le_of_record hbudget
    have hs := hI hbefore (List.nodup_append.mp hfresh).1
    exact hs.record (accounted hreachable hbefore) hn hnode hsent hbudget hfresh hT hstay
      (peersKnown hreachable nodeId n hn) hthrough

/-! ### The end of the flood -/

/-- The first copy that a node takes in has come on a shortest way. -/
def ShortestFirst (w : FloodRun) (s x : String) (T : ℤ) : Prop :=
  ∀ a ∈ w.takers x, ∀ j : ℕ, a.packet.ttl = .finite ((T - j : ℤ) : ℚ) →
    ((j + 1 : ℕ) : ℕ∞) ≤ w.graph.edist s a.nodeId

theorem exists_of_linked {u v : String} (h : w.linked u v = true) :
    ∃ n, w.node? u = some n ∧ n.peerTransport.has v = true := by
  rw [linked, Option.any_eq_true] at h
  exact h

theorem linked_of_adj (hends : w.BothWays) {u v : String} (h : w.graph.Adj u v) :
    w.linked u v = true ∧ w.linked v u = true := by
  have hback : ∀ {u v}, w.linked u v = true → w.linked v u = true := by
    intro u v huv
    obtain ⟨n, hn, hpeer⟩ := exists_of_linked huv
    exact hends (u, n) (OrderedMap.get?_eq_some.mp hn) v (OrderedMap.has_iff.mp hpeer)
  rw [graph, SimpleGraph.fromRel_adj] at h
  rcases h.2 with huv | hvu
  · exact ⟨huv, hback huv⟩
  · exact ⟨hback hvu, hvu⟩

section End

variable {s x : String} {T : ℤ} (hs : Spreading s x T w) (hends : w.BothWays)
  (harrived : w.AllArrived x)

/-- `v` has taken in a copy that had made `j` hops before the last one. -/
def Took (w : FloodRun) (x : String) (T : ℤ) (v : String) (j : ℕ) : Prop :=
  ∃ a ∈ w.takers x, a.nodeId = v ∧ a.packet.ttl = .finite ((T - j : ℤ) : ℚ)

include hs in
theorem Spreading.took_of_holder {v : String} (h : w.Holder s x v) (hv : v ≠ s) :
    ∃ j, w.Took x T v j := by
  obtain ⟨a, ha, hid⟩ := h.resolve_left hv
  obtain ⟨i, hi⟩ := List.getElem?_of_mem ha
  obtain ⟨-, j, -, httl⟩ := hs.taken i a hi
  exact ⟨j, a, ha, hid, httl⟩

include hs harrived in
theorem Spreading.took_of_handedTo {u v : String} (h : w.HandedTo x u v) (hv : v ≠ s) :
    ∃ j, w.Took x T v j := by
  obtain ⟨n, hn, c, hc, rfl, hid⟩ := h
  obtain ⟨a, ha, hnode, hax, -⟩ := harrived (u, n) (OrderedMap.get?_eq_some.mp hn) c hc hid
  exact hs.took_of_holder (hnode ▸ hs.arrived a ha hax) hv

include hs hends harrived in
/-- The nodes flood as the abstract flood does. -/
theorem Spreading.finishedFlood : FinishedFlood w.graph s T.toNat (w.Took x T) where
  source := by
    intro v hadj
    exact hs.took_of_handedTo harrived (hs.source_sends v (linked_of_adj hends hadj).1)
      hadj.ne.symm
  spreads := by
    rintro u j v ⟨a, ha, rfl, httl⟩ hj hadj hv
    have hhops : a.packet.hasHopsLeft = true := by
      rw [Packet.hasHopsLeft, httl, JsNumber.lt_finite, decide_eq_true_eq]
      have hpos : 0 < T - j := by omega
      exact_mod_cast hpos
    by_cases hback : v = a.fromPeerId
    · exact hs.took_of_holder (hback ▸ hs.senders a ha) hv
    · exact hs.took_of_handedTo harrived
        (hs.relays a ha hhops v (linked_of_adj hends hadj).1 hback) hv

include hs in
theorem Spreading.delivered_of_took {v : String} {j : ℕ} (h : w.Took x T v j) :
    ∃ a ∈ w.delivered, a.nodeId = v ∧ a.packet.id = x := by
  obtain ⟨a, ha, hid, -⟩ := h
  obtain ⟨i, hi⟩ := List.getElem?_of_mem ha
  obtain ⟨hintake, hax⟩ := List.mem_filter.mp ha
  refine ⟨a, List.mem_filter.mpr ⟨hintake, ?_⟩, hid, of_decide_eq_true hax⟩
  simp [Arrival.delivered, (hs.taken i a hi).1]

end End

/-- Connect, flood from `source`, and go on while the test holds: the states
before the flood, after its first step and at the end. -/
def flooding (test : String → FloodRun → NetworkEvent → Bool) (options : MeshOptions)
    (names : List Char) (source x : String) (setup rest : List NetworkEvent) :
    Option (FloodRun × FloodRun × FloodRun) :=
  (system.run (sample options names) setup).bind fun w₀ =>
    (w₀.step (floodFrom source)).bind fun w₁ =>
      ((continuing w₁).runUnder (test x) w₁ rest).map fun w => (w₀, w₁, w)

/-- The packet of a flood from `source`, whether the flood meets the conditions on
ids, links and arrivals, and what was delivered. -/
def summary (source x : String) (w : FloodRun × FloodRun × FloodRun) :
    Option (JsNumber × String) × Bool × List (String × String) :=
  ((w.1.node? source).map fun n => (n.ttl, n.uuid n.drawn),
    decide (w.2.2.ids.length ≤ 4096 ∧ w.2.2.ids.Nodup ∧ w.2.2.BothWays ∧ w.2.2.AllArrived x),
    w.2.2.delivered.map Arrival.key)

/-- The conditions on a finished flood of `x` from `s`. -/
structure Finished (s x : String) (T : ℤ) (w₀ w₁ w : FloodRun) : Prop where
  starts : FloodStarts s x T w₀ w₁
  budget : w.ids.length ≤ 4096
  fresh : w.ids.Nodup
  ends : w.BothWays
  arrived : w.AllArrived x

theorem finished_of_summary {test : String → FloodRun → NetworkEvent → Bool}
    {options : MeshOptions} {names : List Char} {source x : String}
    {setup rest : List NetworkEvent} {T : ℤ} {delivered : List (String × String)}
    (h : (flooding test options names source x setup rest).map (summary source x) =
      some (some (.finite T, x), true, delivered)) :
    ∃ w₀ w₁ w, Finished source x T w₀ w₁ w ∧
      (continuing w₁).ReachableUnder (fun w e => test x w e = true) w ∧
      flooding test options names source x setup rest = some (w₀, w₁, w) ∧
      w.delivered.map Arrival.key = delivered := by
  obtain ⟨⟨w₀, w₁, w⟩, hflooding, heq⟩ := Option.map_eq_some_iff.mp h
  obtain ⟨v₀, h₀, hrest⟩ := Option.bind_eq_some_iff.mp hflooding
  obtain ⟨v₁, h₁, hmap⟩ := Option.bind_eq_some_iff.mp hrest
  obtain ⟨v, hv, hsame⟩ := Option.map_eq_some_iff.mp hmap
  obtain ⟨rfl, rfl, rfl⟩ : v₀ = w₀ ∧ v₁ = w₁ ∧ v = w := by simpa using hsame
  simp only [summary, Prod.mk.injEq, decide_eq_true_eq] at heq
  obtain ⟨hsource, ⟨hbudget, hfresh, hends, harrived⟩, hdelivered⟩ := heq
  obtain ⟨n, hn, hpair⟩ := Option.map_eq_some_iff.mp hsource
  obtain ⟨hT, hx⟩ := Prod.mk.inj hpair
  have hstart : system.Reachable v₀ := System.reachable_of_run (initial_sample _ _) h₀
  refine ⟨v₀, v₁, v, ⟨⟨hstart, _, 0, n, h₁, rfl, hn, hT, hx.symm⟩, hbudget, hfresh, hends, harrived⟩,
    System.reachableUnder_of_runUnder (S := continuing v₁) rfl hv, hflooding, hdelivered⟩

/-- All conditions of `flood_reaches` on one event. -/
def undisturbed (x : String) (w : FloodRun) (e : NetworkEvent) : Bool :=
  linksStay e && letsThrough x w e

/-- The flood has not reached `v`, although `v` is within its budget. -/
structure Missed (s v x : String) (T : ℤ) (w : FloodRun) : Prop where
  near : w.graph.edist s v ≤ ((T + 1).toNat : ℕ∞)
  missed : ¬∃ a ∈ w.delivered, a.nodeId = v ∧ a.packet.id = x

theorem edist_le_two {u v z : String} (huv : w.linked u v = true) (hvz : w.linked v z = true) :
    w.graph.edist u z ≤ 2 := by
  have hone : ∀ {a b}, w.linked a b = true → w.graph.edist a b ≤ 1 := by
    intro a b hab
    rw [SimpleGraph.edist_le_one_iff_adj_or_eq, graph, SimpleGraph.fromRel_adj]
    by_cases heq : a = b
    · exact .inr heq
    · exact .inl ⟨heq, .inl hab⟩
  exact SimpleGraph.edist_triangle.trans (add_le_add (hone huv) (hone hvz))

def line : List NetworkEvent := connect "a" "b" ++ connect "b" "c"

/-- A flood from `s` that ends without `z`, two links away by `v`. -/
theorem missed_of_flooding {test : String → FloodRun → NetworkEvent → Bool}
    {options : MeshOptions} {names : List Char} {s v z x : String} {setup rest : List NetworkEvent}
    {delivered : List (String × String)} {w₀ w₁ : FloodRun}
    (hflooding : flooding test options names s x setup rest = some (w₀, w₁, w))
    (hlinks : (flooding test options names s x setup rest).map
      (fun w => (w.2.2.linked s v, w.2.2.linked v z)) = some (true, true))
    (hdelivered : w.delivered.map Arrival.key = delivered) (hz : (z, x) ∉ delivered) :
    w.Missed s z x 1 := by
  rw [hflooding, Option.map_some, Option.some_inj, Prod.mk.injEq] at hlinks
  refine ⟨(edist_le_two hlinks.1 hlinks.2).trans (by norm_num), ?_⟩
  rintro ⟨a, ha, rfl, rfl⟩
  exact hz (hdelivered ▸ List.mem_map_of_mem (f := Arrival.key) ha)

/-- `s` is linked to `v` directly and by `u`, and `w` is behind `v`. -/
def detour : List NetworkEvent :=
  connect "s" "v" ++ connect "s" "u" ++ connect "u" "v" ++ connect "v" "w"

/-- The copy by `u` comes first at `v` and has no hops left. -/
def overtaking : List NetworkEvent := [.arrived "s" 8 1, .arrived "u" 7 2, .arrived "s" 7 3]

end FloodRun
end Arald
