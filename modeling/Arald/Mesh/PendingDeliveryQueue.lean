import Arald.Store.BoundedFifoMap
import Arald.Mesh.Packet

/-!
# Store-and-forward queue

`store-and-forward.ts`: unicast packets waiting for connectivity, keyed by
packet id, with the least urgent one evicted first. A deadline is a time or
`Infinity`, the latter for emergencies.
-/

namespace Arald

open Foundations

structure QueuedDelivery where
  packet : Packet
  exceptPeerId : Option String
  expiresAt : WithTop ℤ

structure PendingDeliveryQueue where
  entries : BoundedFifoMap String QueuedDelivery
  ttlMs : ℤ
  keyed : ∀ e ∈ entries.entries, e.2.packet.id = e.1

namespace PendingDeliveryQueue

def empty (maxSize : WithTop ℤ) (ttlMs : ℤ) : PendingDeliveryQueue where
  entries := .empty maxSize
  ttlMs := ttlMs
  keyed := by simp [BoundedFifoMap.entries, BoundedFifoMap.empty]

def has (q : PendingDeliveryQueue) (packetId : String) : Bool := q.entries.has packetId

/-- The deliveries held, oldest first. -/
def held (q : PendingDeliveryQueue) : List QueuedDelivery := q.entries.values

def evictionScore : BoundedFifoMap.EvictionScore String QueuedDelivery :=
  fun _ entry => ((-((priorityRank entry.packet.priority).toNat : ℤ) : ℤ) : WithTop ℤ)

/-- The `entries.set(packet.id, …)` at the end of `enqueue` and `requeue`. -/
def insert (q : PendingDeliveryQueue) (delivery : QueuedDelivery) : PendingDeliveryQueue where
  entries := q.entries.set (some evictionScore) delivery.packet.id delivery
  ttlMs := q.ttlMs
  keyed := by
    intro e he
    rcases BoundedFifoMap.mem_entries_of_mem_set he with rfl | hold
    · rfl
    · exact q.keyed e hold

/-- The deadline of a packet queued for the first time at `now`. -/
def freshDeadline (q : PendingDeliveryQueue) (packet : Packet) (now : ℤ) : WithTop ℤ :=
  if packet.isEmergency then ⊤ else ((now + q.ttlMs : ℤ) : WithTop ℤ)

def enqueue (q : PendingDeliveryQueue) (packet : Packet) (exceptPeerId : Option String)
    (now : ℤ) : PendingDeliveryQueue :=
  if q.has packet.id then q
  else q.insert ⟨packet, exceptPeerId, q.freshDeadline packet now⟩

/-- Put a drained delivery back under its original deadline. -/
def requeue (q : PendingDeliveryQueue) (delivery : QueuedDelivery) (now : ℤ) :
    PendingDeliveryQueue :=
  if q.has delivery.packet.id then q
  else if delivery.expiresAt ≤ (now : WithTop ℤ) then q
  else q.insert delivery

/-- Take everything out; what has expired is dropped. -/
def drain (q : PendingDeliveryQueue) (now : ℤ) : PendingDeliveryQueue × List QueuedDelivery :=
  (⟨q.entries.filter fun _ _ => false, q.ttlMs, fun e he =>
      q.keyed e (BoundedFifoMap.mem_entries_filter.mp he).1⟩,
    q.held.filter fun entry => (now : WithTop ℤ) < entry.expiresAt)

@[simp] theorem ttlMs_insert (q : PendingDeliveryQueue) (delivery : QueuedDelivery) :
    (q.insert delivery).ttlMs = q.ttlMs := rfl

@[simp] theorem ttlMs_enqueue (q : PendingDeliveryQueue) (packet : Packet)
    (exceptPeerId : Option String) (now : ℤ) :
    (q.enqueue packet exceptPeerId now).ttlMs = q.ttlMs := by
  unfold enqueue
  split <;> rfl

@[simp] theorem ttlMs_requeue (q : PendingDeliveryQueue) (delivery : QueuedDelivery) (now : ℤ) :
    (q.requeue delivery now).ttlMs = q.ttlMs := by
  unfold requeue
  split_ifs <;> rfl

@[simp] theorem ttlMs_drain (q : PendingDeliveryQueue) (now : ℤ) :
    (q.drain now).1.ttlMs = q.ttlMs := rfl

theorem mem_held {q : PendingDeliveryQueue} {d : QueuedDelivery} :
    d ∈ q.held ↔ (d.packet.id, d) ∈ q.entries.entries := by
  rw [held, BoundedFifoMap.values, OrderedMap.mem_values]
  constructor
  · rintro ⟨id, h⟩
    have hid : d.packet.id = id := q.keyed (id, d) h
    exact hid ▸ h
  · exact fun h => ⟨d.packet.id, h⟩

theorem has_iff {q : PendingDeliveryQueue} {id : String} :
    q.has id = true ↔ ∃ d ∈ q.held, d.packet.id = id := by
  rw [has, BoundedFifoMap.has_iff, BoundedFifoMap.keys, OrderedMap.mem_keys]
  constructor
  · rintro ⟨d, h⟩
    have hid : d.packet.id = id := q.keyed (id, d) h
    exact ⟨d, mem_held.mpr (hid ▸ h), hid⟩
  · rintro ⟨d, h, rfl⟩
    exact ⟨d, mem_held.mp h⟩

theorem mem_held_insert {q : PendingDeliveryQueue} {delivery d : QueuedDelivery}
    (h : d ∈ (q.insert delivery).held) : d = delivery ∨ d ∈ q.held := by
  rw [mem_held] at h
  rcases BoundedFifoMap.mem_entries_of_mem_set h with heq | hold
  · exact .inl (congrArg Prod.snd heq)
  · exact .inr (mem_held.mpr hold)

/-- Everything held after `enqueue` was held before, or is the packet with a
fresh deadline. -/
theorem mem_held_enqueue {q : PendingDeliveryQueue} {packet : Packet}
    {exceptPeerId : Option String} {now : ℤ} {d : QueuedDelivery}
    (h : d ∈ (q.enqueue packet exceptPeerId now).held) :
    d = ⟨packet, exceptPeerId, q.freshDeadline packet now⟩ ∨ d ∈ q.held := by
  unfold enqueue at h
  split_ifs at h with hhas
  · exact .inr h
  · exact mem_held_insert h

theorem mem_held_requeue {q : PendingDeliveryQueue} {delivery : QueuedDelivery} {now : ℤ}
    {d : QueuedDelivery} (h : d ∈ (q.requeue delivery now).held) :
    d = delivery ∨ d ∈ q.held := by
  unfold requeue at h
  split_ifs at h with hhas hexpired
  · exact .inr h
  · exact .inr h
  · exact mem_held_insert h

@[simp] theorem held_drain (q : PendingDeliveryQueue) (now : ℤ) : (q.drain now).1.held = [] := by
  simp [held, drain, BoundedFifoMap.values, BoundedFifoMap.filter, OrderedMap.values,
    OrderedMap.filter]

theorem mem_drain {q : PendingDeliveryQueue} {now : ℤ} {d : QueuedDelivery} :
    d ∈ (q.drain now).2 ↔ d ∈ q.held ∧ (now : WithTop ℤ) < d.expiresAt := by
  simp [drain]

end PendingDeliveryQueue
end Arald
