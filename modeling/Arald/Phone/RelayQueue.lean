import Arald.Foundations.Eviction
import Arald.Mesh.PendingDeliveryQueue

/-!
# Store-and-forward on the phone

`PendingRelayQueue` of `ble-relay.js`, the phone's own copy of the queue of
`store-and-forward.ts`. Both make room by evicting the oldest of the least urgent
packets that they hold; the packet that needs the room is not compared with them.
-/

namespace Arald

open Foundations

structure PendingRelayQueue where
  entries : OrderedMap String QueuedDelivery
  ttlMs : ℤ
  maxSize : WithTop ℤ
  keyed : ∀ e ∈ entries.entries, e.2.packet.id = e.1
  bounded : (((entries.size : ℕ) : ℤ) : WithTop ℤ) ≤ max 1 maxSize

/-- The lowest rank is the most urgent one. -/
def QueuedDelivery.rank (d : QueuedDelivery) : ℕ := (priorityRank d.packet.priority).toNat

namespace PendingRelayQueue

theorem size_empty_le (maxSize : WithTop ℤ) :
    ((((OrderedMap.empty : OrderedMap String QueuedDelivery).size : ℕ) : ℤ) : WithTop ℤ) ≤
      max 1 maxSize :=
  le_max_of_le_left (WithTop.coe_le_coe.mpr (by simp))

theorem keyed_empty (e : String × QueuedDelivery)
    (he : e ∈ (OrderedMap.empty : OrderedMap String QueuedDelivery).entries) :
    e.2.packet.id = e.1 := by
  simp at he

def empty (maxSize : WithTop ℤ) (ttlMs : ℤ) : PendingRelayQueue where
  entries := .empty
  ttlMs := ttlMs
  maxSize := maxSize
  keyed := keyed_empty
  bounded := size_empty_le maxSize

def has (q : PendingRelayQueue) (packetId : String) : Bool := q.entries.has packetId

/-- The deliveries held, oldest first. -/
def held (q : PendingRelayQueue) : List QueuedDelivery := q.entries.values

def full (q : PendingRelayQueue) : Bool := q.maxSize ≤ (((q.entries.size : ℕ) : ℤ) : WithTop ℤ)

def evictLowestPriority (entries : OrderedMap String QueuedDelivery) : OrderedMap String QueuedDelivery :=
  match worstRanked QueuedDelivery.rank none (-1) entries.entries with
  | some worstId => entries.delete worstId
  | none => entries

theorem evictLowestPriority_cases (entries : OrderedMap String QueuedDelivery) :
    (entries.entries = [] ∧ evictLowestPriority entries = entries) ∨
      ∃ before victim after, entries.entries = before ++ victim :: after ∧
        (evictLowestPriority entries).entries = before ++ after ∧
        IsOldestWorst (fun e : String × QueuedDelivery => e.2.rank) before victim after := by
  rcases eq_or_ne entries.entries [] with hnil | hne
  · refine .inl ⟨hnil, ?_⟩
    rw [evictLowestPriority, hnil]
    rfl
  · obtain ⟨before, victim, after, hsplit, hworst, hvictim⟩ := worstRanked_of_ne_nil hne
    refine .inr ⟨before, victim, after, hsplit, ?_, hvictim⟩
    rw [evictLowestPriority, hworst]
    exact OrderedMap.entries_delete_of_split hsplit

/-- The entries after the eviction that precedes an insertion. -/
def makeRoom (q : PendingRelayQueue) : OrderedMap String QueuedDelivery :=
  if q.full then evictLowestPriority q.entries else q.entries

theorem mem_makeRoom {q : PendingRelayQueue} {e : String × QueuedDelivery}
    (h : e ∈ q.makeRoom.entries) : e ∈ q.entries.entries := by
  unfold makeRoom at h
  split_ifs at h
  · rcases evictLowestPriority_cases q.entries with ⟨-, hsame⟩ | ⟨before, victim, after, hsplit, hleft, -⟩
    · rwa [hsame] at h
    · rw [hleft] at h
      rw [hsplit]
      exact List.mem_append.mpr ((List.mem_append.mp h).imp_right (List.mem_cons_of_mem victim))
  · exact h

theorem size_set_makeRoom_le (q : PendingRelayQueue) (delivery : QueuedDelivery) (id : String) :
    ((((q.makeRoom.set id delivery).size : ℕ) : ℤ) : WithTop ℤ) ≤ max 1 q.maxSize := by
  have hset : (q.makeRoom.set id delivery).size ≤ q.makeRoom.size + 1 := by
    by_cases hmem : id ∈ q.makeRoom.keys
    · exact (OrderedMap.size_set_of_mem delivery hmem).le.trans (Nat.le_succ _)
    · exact (OrderedMap.size_set_of_notMem delivery hmem).le
  have hset' : ((((q.makeRoom.set id delivery).size : ℕ) : ℤ) : WithTop ℤ) ≤
      (((q.makeRoom.size + 1 : ℕ) : ℤ) : WithTop ℤ) := by exact_mod_cast hset
  by_cases hfull : q.full = true
  · rw [makeRoom, if_pos hfull] at hset'
    rcases evictLowestPriority_cases q.entries with ⟨hnil, hsame⟩ | ⟨before, victim, after, hsplit, hleft, -⟩
    · have hzero : q.entries.size = 0 := by rw [OrderedMap.size, hnil, List.length_nil]
      rw [hsame, hzero] at hset'
      rw [makeRoom, if_pos hfull, hsame]
      exact hset'.trans (le_max_left ..)
    · have hsize : (evictLowestPriority q.entries).size + 1 = q.entries.size := by
        rw [OrderedMap.size, OrderedMap.size, hleft, hsplit]
        simp only [List.length_append, List.length_cons]
        omega
      rw [hsize] at hset'
      rw [makeRoom, if_pos hfull]
      exact hset'.trans q.bounded
  · have hroom : (((q.entries.size : ℕ) : ℤ) : WithTop ℤ) < q.maxSize := by
      simpa [full] using hfull
    rw [makeRoom, if_neg hfull] at hset' ⊢
    exact (hset'.trans (BoundedFifoMap.succ_cast_le_of_lt hroom)).trans (le_max_right ..)

/-- The end of `enqueue` and `requeue`. -/
def insert (q : PendingRelayQueue) (delivery : QueuedDelivery) : PendingRelayQueue where
  entries := q.makeRoom.set delivery.packet.id delivery
  ttlMs := q.ttlMs
  maxSize := q.maxSize
  keyed := by
    intro e he
    rcases OrderedMap.mem_set.mp he with ⟨hid, hdelivery⟩ | ⟨hold, -⟩
    · rw [hid, hdelivery]
    · exact q.keyed e (mem_makeRoom hold)
  bounded := q.size_set_makeRoom_le delivery delivery.packet.id

def freshDeadline (q : PendingRelayQueue) (packet : Packet) (now : ℤ) : WithTop ℤ :=
  if packet.isEmergency then ⊤ else ((now + q.ttlMs : ℤ) : WithTop ℤ)

def enqueue (q : PendingRelayQueue) (packet : Packet) (exceptPeerId : Option String) (now : ℤ) :
    PendingRelayQueue :=
  if q.has packet.id then q
  else q.insert ⟨packet, exceptPeerId, q.freshDeadline packet now⟩

def requeue (q : PendingRelayQueue) (delivery : QueuedDelivery) (now : ℤ) : PendingRelayQueue :=
  if q.has delivery.packet.id then q
  else if delivery.expiresAt ≤ (now : WithTop ℤ) then q
  else q.insert delivery

/-- Take out what is meant for a peer; what has expired is dropped on the way. -/
def drainFor (q : PendingRelayQueue) (peerNodeId : String) (now : ℤ) :
    PendingRelayQueue × List QueuedDelivery :=
  let live (d : QueuedDelivery) : Bool := (now : WithTop ℤ) < d.expiresAt
  ({ entries := q.entries.filter fun _ d => live d && !d.packet.isFor peerNodeId
     ttlMs := q.ttlMs
     maxSize := q.maxSize
     keyed := fun e he => q.keyed e (OrderedMap.mem_filter.mp he).1
     bounded := le_trans (by exact_mod_cast q.entries.size_filter_le _) q.bounded },
    q.held.filter fun d => live d && d.packet.isFor peerNodeId)

theorem mem_held {q : PendingRelayQueue} {d : QueuedDelivery} :
    d ∈ q.held ↔ (d.packet.id, d) ∈ q.entries.entries := by
  rw [held, OrderedMap.mem_values]
  constructor
  · rintro ⟨id, h⟩
    have hid : d.packet.id = id := q.keyed (id, d) h
    exact hid ▸ h
  · exact fun h => ⟨d.packet.id, h⟩

/-- A live delivery leaves the queue only for its destination. -/
theorem mem_drainFor {q : PendingRelayQueue} {d : QueuedDelivery} {peerNodeId : String} {now : ℤ}
    (hlive : (now : WithTop ℤ) < d.expiresAt) (h : d ∈ q.held) :
    if d.packet.isFor peerNodeId then d ∈ (q.drainFor peerNodeId now).2
    else d ∈ (q.drainFor peerNodeId now).1.held := by
  split_ifs with hfor
  · exact List.mem_filter.mpr ⟨h, by simp [hlive, hfor]⟩
  · refine mem_held.mpr (OrderedMap.mem_filter.mpr ⟨mem_held.mp h, ?_⟩)
    simp [hlive, hfor]

/-! ### Urgency -/

variable {q : PendingRelayQueue} {delivery : QueuedDelivery}

theorem insert_inserts (hcapacity : 1 ≤ q.maxSize) (hnew : q.has delivery.packet.id = false) :
    Inserts QueuedDelivery.rank (q.full = true) delivery q.held (q.insert delivery).held := by
  have hroom : delivery.packet.id ∉ q.makeRoom.keys := by
    intro hmem
    obtain ⟨d, hd⟩ := OrderedMap.mem_keys.mp hmem
    have hhas : q.has delivery.packet.id = true :=
      OrderedMap.has_iff.mpr (OrderedMap.mem_keys_of_mem (mem_makeRoom hd))
    rw [hhas] at hnew
    cases hnew
  have hheld : (q.insert delivery).held = q.makeRoom.values ++ [delivery] :=
    (congrArg (List.map Prod.snd) (OrderedMap.setEntries_of_notMem _ _ _ hroom)).trans List.map_append
  rw [hheld, makeRoom]
  by_cases hfull : q.full = true
  · rw [if_pos hfull]
    rcases evictLowestPriority_cases q.entries with ⟨hnil, -⟩ | ⟨before, victim, after, hsplit, hleft, hvictim⟩
    · -- a queue that holds nothing is not full
      have hle : q.maxSize ≤ 0 := by simpa [full, OrderedMap.size, hnil] using hfull
      exact absurd (hcapacity.trans hle) (by decide)
    · have hsplit' : q.held = before.map Prod.snd ++ victim.2 :: after.map Prod.snd := by
        rw [held, OrderedMap.values, hsplit]
        simp
      rw [OrderedMap.values, hleft, List.map_append]
      exact .displaced hfull hsplit' hvictim.map_snd
  · rw [if_neg hfull]
    exact .room hfull

end PendingRelayQueue

namespace PendingDeliveryQueue

variable {q : PendingDeliveryQueue} {delivery : QueuedDelivery}

theorem insert_inserts (hcapacity : 1 ≤ q.entries.maxSize) (hnew : q.has delivery.packet.id = false) :
    Inserts QueuedDelivery.rank (q.entries.full = true) delivery q.held (q.insert delivery).held := by
  have habsent : delivery.packet.id ∉ q.entries.keys := by
    intro hmem
    rw [has, BoundedFifoMap.has_iff.mpr hmem] at hnew
    cases hnew
  rcases q.entries.set_cases (some evictionScore) delivery.packet.id delivery with
    ⟨hmax, -⟩ | ⟨-, hroom, hmap⟩ | ⟨-, -, hfull, victim, hmem, hvictim, hmap⟩
  · exact absurd (hcapacity.trans hmax) (by decide)
  · have hheld : (q.insert delivery).held = q.held ++ [delivery] := by
      rw [held, insert, BoundedFifoMap.values, hmap]
      exact (congrArg (List.map Prod.snd) (OrderedMap.setEntries_of_notMem _ _ _ habsent)).trans
        List.map_append
    rw [hheld]
    refine .room ?_
    rw [hroom.resolve_left habsent]
    exact Bool.false_ne_true
  · have hpick : q.entries.pickEvictionCandidate (some evictionScore) = some victim := by
      unfold BoundedFifoMap.victim? at hvictim
      split_ifs at hvictim
      exact hvictim
    obtain ⟨before, gone, after, hsplit, hbefore, hafter⟩ :=
      BoundedFifoMap.pickEvictionCandidate_first (fun e _ => WithTop.coe_lt_top _) hpick
    have habsent' : delivery.packet.id ∉ (q.entries.map.delete victim).keys := fun hmem =>
      habsent (OrderedMap.mem_keys_delete.mp hmem).1
    have hheld : (q.insert delivery).held = before.map Prod.snd ++ after.map Prod.snd ++ [delivery] := by
      rw [held, insert, BoundedFifoMap.values, hmap, ← List.map_append,
        ← OrderedMap.entries_delete_of_split hsplit]
      exact (congrArg (List.map Prod.snd) (OrderedMap.setEntries_of_notMem _ _ _ habsent')).trans
        List.map_append
    have hsplit' : q.held = before.map Prod.snd ++ gone :: after.map Prod.snd :=
      (congrArg (List.map Prod.snd) hsplit).trans (by simp)
    have hworst : IsOldestWorst (fun e : String × QueuedDelivery => e.2.rank) before (victim, gone) after := by
      constructor
      · intro e he
        have hlt := WithTop.coe_lt_coe.mp (hbefore e he)
        simp only [QueuedDelivery.rank]
        omega
      · intro e he
        have hle := WithTop.coe_le_coe.mp (hafter e he)
        simp only [QueuedDelivery.rank]
        omega
    rw [hheld]
    exact .displaced hfull hsplit' hworst.map_snd

end PendingDeliveryQueue

/-! ### Main results -/

/-- Nothing more urgent than the newcomer is lost by the insertion. -/
abbrev SparesMoreUrgent (full : Bool) (newcomer : QueuedDelivery) (held held' : List QueuedDelivery) : Prop :=
  SparesLower QueuedDelivery.rank (full = true) newcomer held held'

/-- The queue is not full, or not full of strictly more urgent packets only. -/
def HasPlaceFor (full : Bool) (newcomer : QueuedDelivery) (held : List QueuedDelivery) : Prop :=
  full = false ∨ ∃ d ∈ held, newcomer.rank ≤ d.rank

section
variable {full : Bool} {newcomer : QueuedDelivery} {held held' : List QueuedDelivery} {skipped : Prop}

/-- An operation that is skipped spares everything, and one that inserts does where
there is a place. -/
theorem sparesMoreUrgent_iff (hskip : skipped → held' = held)
    (hinsert : ¬skipped → Inserts QueuedDelivery.rank (full = true) newcomer held held') :
    SparesMoreUrgent full newcomer held held' ↔ skipped ∨ HasPlaceFor full newcomer held := by
  by_cases hskipped : skipped
  · rw [hskip hskipped]
    exact iff_of_true (.refl ..) (.inl hskipped)
  · rw [SparesMoreUrgent, (hinsert hskipped).sparesLower_iff, HasPlaceFor, Bool.not_eq_true]
    exact (or_iff_right hskipped).symm

end

/-- In both queues an insertion spares all that is more urgent, unless the queue is
full of nothing else. -/
theorem insertions_spare_iff (q : PendingDeliveryQueue) (r : PendingRelayQueue)
    (hq : 1 ≤ q.entries.maxSize) (hr : 1 ≤ r.maxSize) (packet : Packet) (exceptPeerId : Option String)
    (delivery : QueuedDelivery) (now : ℤ) :
    let fresh : QueuedDelivery := ⟨packet, exceptPeerId, q.freshDeadline packet now⟩
    let fresh' : QueuedDelivery := ⟨packet, exceptPeerId, r.freshDeadline packet now⟩
    (SparesMoreUrgent q.entries.full fresh q.held (q.enqueue packet exceptPeerId now).held ↔
      q.has packet.id = true ∨ HasPlaceFor q.entries.full fresh q.held) ∧
    (SparesMoreUrgent q.entries.full delivery q.held (q.requeue delivery now).held ↔
      (q.has delivery.packet.id = true ∨ delivery.expiresAt ≤ (now : WithTop ℤ)) ∨
        HasPlaceFor q.entries.full delivery q.held) ∧
    (SparesMoreUrgent r.full fresh' r.held (r.enqueue packet exceptPeerId now).held ↔
      r.has packet.id = true ∨ HasPlaceFor r.full fresh' r.held) ∧
    (SparesMoreUrgent r.full delivery r.held (r.requeue delivery now).held ↔
      (r.has delivery.packet.id = true ∨ delivery.expiresAt ≤ (now : WithTop ℤ)) ∨
        HasPlaceFor r.full delivery r.held) := by
  dsimp only
  refine ⟨sparesMoreUrgent_iff ?_ ?_, sparesMoreUrgent_iff ?_ ?_, sparesMoreUrgent_iff ?_ ?_,
    sparesMoreUrgent_iff ?_ ?_⟩
  · intro hhas
    rw [PendingDeliveryQueue.enqueue, if_pos hhas]
  · intro hnew
    rw [PendingDeliveryQueue.enqueue, if_neg hnew]
    exact PendingDeliveryQueue.insert_inserts hq (Bool.eq_false_iff.mpr hnew)
  · rintro (hhas | hexpired) <;> unfold PendingDeliveryQueue.requeue
    · rw [if_pos hhas]
    · rw [if_pos hexpired, ite_self]
  · intro hlive
    obtain ⟨hnew, hlive⟩ := not_or.mp hlive
    rw [PendingDeliveryQueue.requeue, if_neg hnew, if_neg hlive]
    exact PendingDeliveryQueue.insert_inserts hq (Bool.eq_false_iff.mpr hnew)
  · intro hhas
    rw [PendingRelayQueue.enqueue, if_pos hhas]
  · intro hnew
    rw [PendingRelayQueue.enqueue, if_neg hnew]
    exact PendingRelayQueue.insert_inserts hr (Bool.eq_false_iff.mpr hnew)
  · rintro (hhas | hexpired) <;> unfold PendingRelayQueue.requeue
    · rw [if_pos hhas]
    · rw [if_pos hexpired, ite_self]
  · intro hlive
    obtain ⟨hnew, hlive⟩ := not_or.mp hlive
    rw [PendingRelayQueue.requeue, if_neg hnew, if_neg hlive]
    exact PendingRelayQueue.insert_inserts hr (Bool.eq_false_iff.mpr hnew)

/-! ### A queue of one SOS -/

def urgentPacket : Packet :=
  createPacket ⟨.privateMessage, "hut", .null, some "pass", defaultTtl, .emergency⟩ "sos" 0

def bulkPacket : Packet :=
  createPacket ⟨.privateMessage, "hut", .null, some "pass", defaultTtl, .bulk⟩ "photo" 0

def PendingDeliveryQueue.onlySos (maxSize : WithTop ℤ) : PendingDeliveryQueue :=
  (PendingDeliveryQueue.empty maxSize 300000).enqueue urgentPacket none 0

def PendingRelayQueue.onlySos (maxSize : WithTop ℤ) : PendingRelayQueue :=
  (PendingRelayQueue.empty maxSize 300000).enqueue urgentPacket none 0

/-- Where there is room for two, nothing is lost. -/
theorem insertions_spare_iff_room :
    SparesMoreUrgent (PendingDeliveryQueue.onlySos 2).entries.full ⟨bulkPacket, none, 300000⟩
        (PendingDeliveryQueue.onlySos 2).held ((PendingDeliveryQueue.onlySos 2).enqueue bulkPacket none 0).held ∧
      SparesMoreUrgent (PendingRelayQueue.onlySos 2).full ⟨bulkPacket, none, 300000⟩
        (PendingRelayQueue.onlySos 2).held ((PendingRelayQueue.onlySos 2).enqueue bulkPacket none 0).held := by
  have hiff := insertions_spare_iff (.onlySos 2) (.onlySos 2) (by decide) (by decide) bulkPacket none
    ⟨bulkPacket, none, 300000⟩ 0
  exact ⟨hiff.1.mpr (.inr (.inl (by decide))), hiff.2.2.1.mpr (.inr (.inl (by decide)))⟩

/-- A full queue gives up an SOS for a photo. -/
theorem sos_evicted_for_bulk :
    (∀ d ∈ (PendingDeliveryQueue.onlySos 1).held, d.rank < (priorityRank bulkPacket.priority).toNat) ∧
      (PendingDeliveryQueue.onlySos 1).has "sos" = true ∧
      ((PendingDeliveryQueue.onlySos 1).enqueue bulkPacket none 0).has "sos" = false ∧
      ((PendingDeliveryQueue.onlySos 1).requeue ⟨bulkPacket, none, 300000⟩ 0).has "sos" = false ∧
      (∀ d ∈ (PendingRelayQueue.onlySos 1).held, d.rank < (priorityRank bulkPacket.priority).toNat) ∧
      (PendingRelayQueue.onlySos 1).has "sos" = true ∧
      ((PendingRelayQueue.onlySos 1).enqueue bulkPacket none 0).has "sos" = false ∧
      ((PendingRelayQueue.onlySos 1).requeue ⟨bulkPacket, none, 300000⟩ 0).has "sos" = false := by
  decide

end Arald
