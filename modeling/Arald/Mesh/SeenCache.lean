import Arald.Store.BoundedFifoMap
import Arald.Mesh.Packet

/-!
# Deduplication and the forwarding decision

`routing.ts`. The decision is the same for every packet type: it looks at the
destination and at the remaining hops only.
-/

namespace Arald

open Foundations

structure SeenCache where
  seen : BoundedFifoMap String ℤ

namespace SeenCache

def hasSeen (c : SeenCache) (id : String) : Bool := c.seen.has id

def markSeen (c : SeenCache) (id : String) (now : ℤ) : SeenCache :=
  if c.seen.has id then c else ⟨c.seen.set none id now⟩

/-- The cache after several ids have been marked, one after the other. -/
def markAll (c : SeenCache) (ids : List String) (now : ℤ) : SeenCache :=
  ids.foldl (fun c id => c.markSeen id now) c

theorem markAll_append (c : SeenCache) (ids ids' : List String) (now : ℤ) :
    c.markAll (ids ++ ids') now = (c.markAll ids now).markAll ids' now :=
  List.foldl_append ..

@[simp] theorem maxSize_markSeen (c : SeenCache) (id : String) (now : ℤ) :
    (c.markSeen id now).seen.maxSize = c.seen.maxSize := by
  unfold markSeen
  split_ifs
  · rfl
  · simp

@[simp] theorem maxSize_markAll (c : SeenCache) (ids : List String) (now : ℤ) :
    (c.markAll ids now).seen.maxSize = c.seen.maxSize := by
  induction ids generalizing c with
  | nil => rfl
  | cons id ids ih => exact (ih _).trans (c.maxSize_markSeen id now)

/-- Everything remembered is known, and there is room to remember all that is known. -/
structure RoomFor (c : SeenCache) (known : List String) : Prop where
  capacity : ((known.length : ℤ) : WithTop ℤ) ≤ c.seen.maxSize
  seen : ∀ id, c.hasSeen id = true → id ∈ known

section Room

variable {c : SeenCache} {known : List String} {id : String} {now : ℤ}

theorem RoomFor.not_full (h : c.RoomFor known) (hid : id ∈ known) (hnew : c.hasSeen id = false) :
    c.seen.full = false := by
  have hnotMem : id ∉ c.seen.keys := by simpa [hasSeen, Bool.eq_false_iff, BoundedFifoMap.has_iff]
    using hnew
  have hnodup : (id :: c.seen.keys).Nodup := List.nodup_cons.mpr ⟨hnotMem, c.seen.map.nodup_keys⟩
  have hsubset : id :: c.seen.keys ⊆ known := by
    intro x hx
    rcases List.mem_cons.mp hx with rfl | hold
    · exact hid
    · exact h.seen x (BoundedFifoMap.has_iff.mpr hold)
  have hlength := (hnodup.subperm hsubset).length_le
  have hkeys : c.seen.keys.length = c.seen.size := c.seen.map.length_keys
  have hlt : ((c.seen.size : ℤ) : WithTop ℤ) < (known.length : ℤ) :=
    WithTop.coe_lt_coe.mpr (by rw [List.length_cons, hkeys] at hlength; omega)
  simpa [BoundedFifoMap.full] using hlt.trans_le h.capacity

theorem RoomFor.hasSeen_markSeen (h : c.RoomFor known) (hid : id ∈ known) (x : String) :
    (c.markSeen id now).hasSeen x = true ↔ c.hasSeen x = true ∨ x = id := by
  unfold markSeen
  split_ifs with hseen
  · constructor
    · exact .inl
    · rintro (hx | rfl)
      · exact hx
      · exact hseen
  · have hnew : c.hasSeen id = false := by simpa [hasSeen] using hseen
    have hroom : id ∈ c.seen.keys ∨ c.seen.full = false := .inr (h.not_full hid hnew)
    have hpos : 0 < c.seen.maxSize := by
      refine lt_of_lt_of_le ?_ h.capacity
      exact WithTop.coe_lt_coe.mpr (by exact_mod_cast List.length_pos_of_mem hid)
    exact BoundedFifoMap.has_set_of_room hpos hroom x

theorem RoomFor.markSeen (h : c.RoomFor known) (hid : id ∈ known) :
    (c.markSeen id now).RoomFor known := by
  refine ⟨?_, fun x hx => ?_⟩
  · rw [maxSize_markSeen]
    exact h.capacity
  · rcases (h.hasSeen_markSeen hid x).mp hx with hold | rfl
    · exact h.seen x hold
    · exact hid

theorem RoomFor.markAll {ids : List String} (h : c.RoomFor known) (hids : ∀ id ∈ ids, id ∈ known) :
    (c.markAll ids now).RoomFor known :=
  List.foldlRecOn (motive := fun c : SeenCache => c.RoomFor known) ids _ h
    fun _ hc id hid => hc.markSeen (hids id hid)

theorem RoomFor.hasSeen_markAll {ids : List String} (h : c.RoomFor known)
    (hids : ∀ id ∈ ids, id ∈ known) (x : String) :
    (c.markAll ids now).hasSeen x = true ↔ c.hasSeen x = true ∨ x ∈ ids := by
  induction ids generalizing c with
  | nil => simp [SeenCache.markAll]
  | cons id ids ih =>
    have hid : id ∈ known := hids id (by simp)
    have hmarked : (c.markSeen id now).RoomFor known := h.markSeen hid
    have hrest := ih hmarked fun y hy => hids y (List.mem_cons_of_mem _ hy)
    rw [SeenCache.markAll, List.foldl_cons, ← SeenCache.markAll, hrest, h.hasSeen_markSeen hid,
      List.mem_cons]
    tauto

end Room

end SeenCache

structure ForwardDecision where
  duplicate : Bool
  deliverLocally : Bool
  /-- The packet to relay onward, one hop closer to its end. -/
  forwardPacket : Option Packet

namespace Packet

/-- `packet.ttl > 0`. -/
def hasHopsLeft (p : Packet) : Bool := JsNumber.lt (.finite 0) p.ttl

/-- The copy that is relayed: one hop has been used up. -/
def relayed (p : Packet) : Packet := { p with ttl := p.ttl.add (.finite (-1)) }

@[simp] theorem relayed_id (p : Packet) : p.relayed.id = p.id := rfl

@[simp] theorem relayed_type (p : Packet) : p.relayed.type = p.type := rfl

@[simp] theorem relayed_source (p : Packet) : p.relayed.source = p.source := rfl

@[simp] theorem relayed_destination (p : Packet) : p.relayed.destination = p.destination := rfl

@[simp] theorem relayed_priority (p : Packet) : p.relayed.priority = p.priority := rfl

@[simp] theorem relayed_isElsewhere (p : Packet) (nodeId : String) :
    p.relayed.isElsewhere nodeId = p.isElsewhere nodeId := rfl

@[simp] theorem relayed_isEmergency (p : Packet) : p.relayed.isEmergency = p.isEmergency := rfl

end Packet

/-- The decision of `decideForward`, with the cache it leaves behind. -/
def decideForward (packet : Packet) (localNodeId : String) (cache : SeenCache) (now : ℤ) :
    SeenCache × ForwardDecision :=
  if cache.hasSeen packet.id then
    (cache, { duplicate := true, deliverLocally := false, forwardPacket := none })
  else
    let isUnicastForMe := packet.isFor localNodeId
    let shouldForward := !isUnicastForMe && packet.hasHopsLeft
    (cache.markSeen packet.id now,
      { duplicate := false
        deliverLocally := isUnicastForMe || packet.isBroadcast
        forwardPacket := if shouldForward then some packet.relayed else none })

end Arald
