import Arald.Mesh.Emissions

/-!
# How often a packet is still to be handed on

A node that relays a packet floods it, or keeps it until it can be flooded. A
flood that nobody took ends in the queue again, and a retry starts a new one, so
the same copy may be tried many times. It is nevertheless in the custody of the
node only once, until some send succeeds.
-/

namespace Arald
namespace MeshNode

open Foundations

/-- The floods of this id whose outcome is open, and the copy in the queue. -/
def custody (n : MeshNode) (x : String) : ℕ :=
  n.attempts.countP (fun a => a.packet.id = x) + if n.pendingDeliveries.has x then 1 else 0

theorem indicator_le {a b : Prop} [Decidable a] [Decidable b] {id x : String}
    (h : a → b ∨ id = x) :
    (if a then 1 else 0) ≤ (if b then 1 else 0) + [id].count x := by
  by_cases ha : a
  · rcases h ha with hb | rfl
    · simp [ha, hb]
    · simp [ha]
  · simp [ha]

variable {n n' : MeshNode} {x : String} {now : ℤ}

theorem SendsOnly.custody (h : SendsOnly n n') : n'.custody x = n.custody x := by
  unfold SendsOnly at h
  rw [h]
  rfl

section Flooding

variable (n : MeshNode) (packet : Packet) (exceptPeerId : Option String) (now : ℤ) (x : String)

theorem custody_enqueue_le :
    custody { n with pendingDeliveries := n.pendingDeliveries.enqueue packet exceptPeerId now } x ≤
      n.custody x + [packet.id].count x := by
  rw [custody, custody, add_assoc]
  refine Nat.add_le_add_left (indicator_le fun hhas => ?_) _
  obtain ⟨d, hd, hid⟩ := PendingDeliveryQueue.has_iff.mp hhas
  rcases PendingDeliveryQueue.mem_held_enqueue hd with rfl | hold
  · exact .inr hid
  · exact .inl (PendingDeliveryQueue.has_iff.mpr ⟨d, hold, hid⟩)

theorem custody_requeue_le (delivery : QueuedDelivery) :
    custody { n with pendingDeliveries := n.pendingDeliveries.requeue delivery now } x ≤
      n.custody x + [delivery.packet.id].count x := by
  rw [custody, custody, add_assoc]
  refine Nat.add_le_add_left (indicator_le fun hhas => ?_) _
  obtain ⟨d, hd, hid⟩ := PendingDeliveryQueue.has_iff.mp hhas
  rcases PendingDeliveryQueue.mem_held_requeue hd with rfl | hold
  · exact .inr hid
  · exact .inl (PendingDeliveryQueue.has_iff.mpr ⟨d, hold, hid⟩)

theorem custody_addAttempt (attempt : Attempt) :
    custody { n with attempts := n.attempts ++ [attempt] } x =
      n.custody x + [attempt.packet.id].count x := by
  simp only [custody, List.countP_append, List.countP_singleton, List.count_singleton, beq_iff_eq,
    decide_eq_true_eq]
  omega

theorem custody_settleFlood_le (delivered : Bool) :
    (n.settleFlood packet exceptPeerId delivered now).custody x ≤
      n.custody x + [packet.id].count x := by
  unfold settleFlood
  split_ifs
  · exact custody_enqueue_le ..
  · exact Nat.le_add_right _ _

theorem custody_flood_le :
    (n.flood packet exceptPeerId now).custody x ≤
      n.custody x + [packet.id].count x := by
  unfold flood
  dsimp only
  split_ifs
  · exact custody_settleFlood_le ..
  · have hsends := SendsOnly.foldl (fun m id => m.sendToPeer_sendsOnly id packet now)
      (n.floodTargets exceptPeerId) n
    rw [custody_addAttempt, hsends.custody]
    rfl

theorem custody_floodExcept_le :
    (n.floodExcept packet exceptPeerId now).custody x ≤
      n.custody x + [packet.id].count x := by
  unfold floodExcept
  split
  · rw [custody_addAttempt, (n.sendToPeer_sendsOnly _ packet now).custody]
    rfl
  · exact custody_flood_le ..

theorem custody_settle_le (attempt : Attempt) (delivered : Bool) :
    (n.settle attempt delivered now).custody x ≤ n.custody x + [attempt.packet.id].count x := by
  cases attempt with
  | routed packet exceptPeerId nextHop handed =>
    rw [settle]
    split_ifs
    · exact Nat.le_add_right _ _
    · exact custody_flood_le ..
  | flooding packet exceptPeerId handed => exact custody_settleFlood_le ..

/-- A flood that some peer took leaves nothing to be done. -/
theorem settle_of_delivered (attempt : Attempt) : n.settle attempt true now = n := by
  cases attempt <;> simp [settle, settleFlood]

theorem custody_retry_le (delivery : QueuedDelivery) :
    (n.retry delivery now).custody x ≤
      n.custody x + [delivery.packet.id].count x := by
  unfold retry
  split_ifs
  · exact custody_floodExcept_le ..
  · exact custody_requeue_le ..

theorem custody_forward_le (fromPeerId : String) :
    (n.forward packet fromPeerId now).custody x ≤
      n.custody x + [packet.id].count x := by
  unfold forward
  split_ifs
  · exact custody_floodExcept_le ..
  · exact custody_enqueue_le ..
  · exact Nat.le_add_right _ _

end Flooding

/-! ### Retrying the queue -/

theorem custody_foldl_retry_le (now : ℤ) (x : String) (l : List QueuedDelivery) (n : MeshNode) :
    (l.foldl (fun n delivery => n.retry delivery now) n).custody x ≤
      n.custody x + l.countP fun d => d.packet.id = x := by
  induction l generalizing n with
  | nil => exact le_rfl
  | cons d l ih =>
    have hhead := n.custody_retry_le now x d
    have hrest := ih (n.retry d now)
    simp only [List.foldl_cons, List.countP_cons, decide_eq_true_eq]
    rw [List.count_singleton] at hhead
    simp only [beq_iff_eq] at hhead
    omega

/-- The queue holds every id once. -/
theorem countP_held_le (q : PendingDeliveryQueue) (x : String) :
    q.held.countP (fun d => d.packet.id = x) ≤ if q.has x then 1 else 0 := by
  have hids : q.held.map (fun d => d.packet.id) = q.entries.keys := by
    rw [PendingDeliveryQueue.held, BoundedFifoMap.values, BoundedFifoMap.keys, OrderedMap.values,
      OrderedMap.keys, List.map_map]
    exact List.map_congr_left fun e he => q.keyed e he
  have hcount : q.held.countP (fun d => d.packet.id = x) = q.entries.keys.count x := by
    rw [← hids, List.count, List.countP_map]
    exact List.countP_congr fun d _ => by simp
  rw [hcount]
  by_cases hhas : q.has x = true
  · rw [if_pos hhas]
    exact (List.nodup_iff_count_le_one.mp q.entries.map.nodup_keys) x
  · have hnot : x ∉ q.entries.keys := fun hmem => hhas (BoundedFifoMap.has_iff.mpr hmem)
    simp [List.count_eq_zero.mpr hnot]

theorem custody_flushPendingDeliveries_le (n : MeshNode) (now : ℤ) (x : String) :
    (n.flushPendingDeliveries now).custody x ≤ n.custody x := by
  have hretries := custody_foldl_retry_le now x (n.pendingDeliveries.drain now).2
    { n with pendingDeliveries := (n.pendingDeliveries.drain now).1 }
  have hempty : custody { n with pendingDeliveries := (n.pendingDeliveries.drain now).1 } x =
      n.attempts.countP fun a => a.packet.id = x := by
    have hnone : (n.pendingDeliveries.drain now).1.has x = false := by
      rw [Bool.eq_false_iff, ne_eq, PendingDeliveryQueue.has_iff]
      simp
    simp [custody, hnone]
  have hdrained : (n.pendingDeliveries.drain now).2.countP (fun d => d.packet.id = x) ≤
      if n.pendingDeliveries.has x then 1 else 0 :=
    (List.Sublist.countP_le List.filter_sublist).trans (countP_held_le n.pendingDeliveries x)
  rw [hempty] at hretries
  exact hretries.trans (Nat.add_le_add_left hdrained _)

/-! ### One event -/

theorem custody_propagateChanges (n : MeshNode) (packet : Packet) (fromPeerId : String)
    (changed : List String) (now : ℤ) (x : String) :
    (n.propagateChanges packet fromPeerId changed now).custody x = n.custody x := by
  unfold propagateChanges
  split_ifs
  · rfl
  · exact (announceToOthers_sendsOnly ..).custody

theorem custody_deliver (n : MeshNode) (packet : Packet) (fromPeerId : String) (now : ℤ)
    (x : String) : (n.deliver packet fromPeerId now).custody x = n.custody x := by
  unfold deliver
  split
  · exact (sendOriginated_sendsOnly ..).custody
  · rfl
  · exact (sendOriginated_sendsOnly ..).custody
  · exact (propagateWithdrawals_sendsOnly ..).custody.trans (custody_propagateChanges ..)
  · rfl

theorem custody_handlePacket_le (n : MeshNode) (packet : Packet) (fromPeerId : String) (now : ℤ)
    (x : String) :
    (n.handlePacket packet fromPeerId now).custody x ≤
      n.custody x + (n.acceptedIds (.received packet fromPeerId now)).count x := by
  by_cases htaken : n.takesIn packet fromPeerId now = true
  · rw [handlePacket_of_takesIn htaken, acceptedIds_received htaken]
    have hlocal : (if n.deliversLocally packet then
          (n.intake packet fromPeerId now).deliver packet fromPeerId now
        else n.intake packet fromPeerId now).custody x = n.custody x := by
      split_ifs
      · exact custody_deliver ..
      · rfl
    by_cases hrelays : n.relays packet = true
    · simp only [hrelays, if_true]
      refine (custody_forward_le ..).trans ?_
      rw [hlocal, Packet.relayed_id]
    · simp only [hrelays, if_false, Bool.false_eq_true]
      exact hlocal.le.trans (Nat.le_add_right _ _)
  · have hnot : n.takesIn packet fromPeerId now = false := by simpa using htaken
    rw [handlePacket_of_not_takesIn hnot]
    exact Nat.le_add_right _ _

/-- The id of the flood that some peer is known to have taken. -/
def handedIds (n : MeshNode) : NodeEvent → List String
  | .settled index true _ => (n.attempts[index]?.map fun a => a.packet.id).toList
  | _ => []

theorem countP_eraseIdx {α : Type*} {p : α → Bool} {l : List α} {i : ℕ} {a : α}
    (h : l[i]? = some a) : l.countP p = (l.eraseIdx i).countP p + if p a then 1 else 0 := by
  obtain ⟨hi, rfl⟩ := List.getElem?_eq_some_iff.mp h
  have hsplit : l = l.take i ++ l[i] :: l.drop (i + 1) := by simp
  conv_lhs => rw [hsplit]
  rw [List.eraseIdx_eq_take_drop_succ, List.countP_append, List.countP_append, List.countP_cons]
  omega

/-- What an event adds to the custody of a node was accepted or drawn in it, and
what was handed on has left. -/
theorem custody_step_le {event : NodeEvent} (h : n.step event = some n') (x : String) :
    n'.custody x + (n.handedIds event).count x ≤
      n.custody x + (n.acceptedIds event ++ n.newIds n').count x := by
  cases event with
  | connected transport peerId address knownContentIds knownNodeIds now =>
    obtain rfl := Option.some_inj.mp h
    have hsync : (n.peerConnected transport peerId address knownContentIds knownNodeIds now).custody
        x = ((n.link transport peerId address now).flushPendingDeliveries now).custody x := by
      refine (openRoute_sendsOnly ..).custody.trans ?_
      exact (startSync_sendsOnly ..).custody
    have hflush := custody_flushPendingDeliveries_le (n.link transport peerId address now) now x
    have hlink : (n.link transport peerId address now).custody x = n.custody x := rfl
    simp only [handedIds, List.count_nil]
    omega
  | disconnected peerId now =>
    obtain rfl := Option.some_inj.mp h
    have hwithdrawn : (n.peerDisconnected peerId now).custody x = (n.unlink peerId).custody x :=
      (propagateWithdrawals_sendsOnly ..).custody
    have hunlink : (n.unlink peerId).custody x = n.custody x := rfl
    simp only [handedIds, List.count_nil]
    omega
  | received packet fromPeerId now =>
    simp only [step] at h
    split_ifs at h
    obtain rfl := Option.some_inj.mp h
    have hhandled := custody_handlePacket_le n packet fromPeerId now x
    simp only [handedIds, List.count_nil, List.count_append]
    omega
  | flooded options now =>
    simp only [step] at h
    split_ifs at h
    obtain rfl := Option.some_inj.mp h
    have hflood := custody_floodExcept_le (n.afterOriginate now) (n.originated options now) none now x
    have hemits := floodExcept_emits (n.afterOriginate now) (n.originated options now) none now
    have hids : n.newIds (n.afterOriginate now) ++ (n.afterOriginate now).newIds
        ((n.afterOriginate now).floodExcept (n.originated options now) none now) =
          n.newIds ((n.afterOriginate now).floodExcept (n.originated options now) none now) :=
      newIds_append rfl (Nat.le_succ _) hemits.drawn
    have hdrawn : n.newIds (n.afterOriginate now) = [(n.originated options now).id] := by
      simp [newIds, afterOriginate, originated, createPacket]
    have hafter : (n.afterOriginate now).custody x = n.custody x := rfl
    simp only [handedIds, acceptedIds, List.count_nil, List.nil_append, ← hids, hdrawn,
      List.count_append]
    omega
  | sentTo peerId options now =>
    simp only [step] at h
    split_ifs at h
    obtain rfl := Option.some_inj.mp h
    have hsent : (n.sendOriginated peerId options now).custody x = n.custody x :=
      (sendOriginated_sendsOnly ..).custody
    simp only [handedIds, List.count_nil]
    omega
  | settled index delivered now =>
    simp only [step] at h
    split at h
    next attempt hattempt =>
      split_ifs at h
      obtain rfl := Option.some_inj.mp h
      have herased : n.custody x = custody { n with attempts := n.attempts.eraseIdx index } x +
          [attempt.packet.id].count x := by
        rw [custody, custody, countP_eraseIdx hattempt, List.count_singleton]
        simp only [beq_iff_eq, decide_eq_true_eq]
        omega
      cases delivered with
      | true =>
        simp only [handedIds, hattempt, Option.map_some, Option.toList_some, settle_of_delivered]
        omega
      | false =>
        have hsettled := custody_settle_le { n with attempts := n.attempts.eraseIdx index } now x
          attempt false
        simp only [handedIds, List.count_nil]
        omega
    · cases h
  | trustChanged trust =>
    obtain rfl := Option.some_inj.mp h
    exact Nat.le_add_right _ _
  | resourcesChanged resources =>
    obtain rfl := Option.some_inj.mp h
    exact Nat.le_add_right _ _

end MeshNode
end Arald
