import Arald.Ingest.Registries

/-!
# What survives an eviction from the delivery queue

A delivery that is queued while a bound is exceeded competes with what is there
already: the least urgent entries go first, the oldest of them first of all.
The newcomer is the last of its urgency to go, so it stays exactly when the
strictly more urgent entries leave room for it.
-/

namespace Arald

open Foundations

namespace ExternalDeliveryQueue

variable {q : ExternalDeliveryQueue} {entry : QueuedExternalDelivery} {id : String}

/-- The bytes that some deliveries take. -/
def bytes (deliveries : List QueuedExternalDelivery) : ℕ :=
  (deliveries.map QueuedExternalDelivery.sizeBytes).sum

@[simp] theorem bytes_nil : bytes [] = 0 := rfl

@[simp] theorem bytes_cons (e : QueuedExternalDelivery) (l : List QueuedExternalDelivery) :
    bytes (e :: l) = e.sizeBytes + bytes l := rfl

@[simp] theorem bytes_append (l l' : List QueuedExternalDelivery) : bytes (l ++ l') = bytes l + bytes l' := by
  simp [bytes]

/-- The byte count is that of the entries, and each entry sits under its id. -/
structure WellFormed (q : ExternalDeliveryQueue) : Prop where
  accounted : q.totalBytes = bytes q.queued.values
  keyed : ∀ id entry, q.queued.get? id = some entry → entry.packetId = id

/-- The deliveries of strictly higher urgency. -/
def moreUrgent (priority : Priority) (deliveries : List QueuedExternalDelivery) :
    List QueuedExternalDelivery :=
  deliveries.filter fun e => e.priority.toNat < priority.toNat

/-- The more urgent entries and one of the given urgency and size keep both bounds. -/
def hasRoomFor (q : ExternalDeliveryQueue) (priority : Priority) (sizeBytes : ℕ) : Bool :=
  (moreUrgent priority q.queued.values).length < q.maxEntries &&
    bytes (moreUrgent priority q.queued.values) + sizeBytes ≤ q.maxTotalBytes

/-! ### The victim -/

/-- The scan is that of a bounded map whose score is the urgency. -/
theorem leastUrgent_eq_lowestScored (best : Option String) (worst : ℤ)
    (l : List (String × QueuedExternalDelivery)) :
    leastUrgent best worst l =
      BoundedFifoMap.lowestScored (fun _ e => ((-(e.priority.toNat : ℤ) : ℤ) : WithTop ℤ)) best
        ((-worst : ℤ) : WithTop ℤ) l := by
  induction l generalizing best worst with
  | nil => rfl
  | cons e rest ih =>
    obtain ⟨key, entry⟩ := e
    have hiff : (((-(entry.priority.toNat : ℤ) : ℤ) : WithTop ℤ) < ((-worst : ℤ) : WithTop ℤ)) ↔
        worst < (entry.priority.toNat : ℤ) := by
      rw [WithTop.coe_lt_coe]
      omega
    simp only [leastUrgent, BoundedFifoMap.lowestScored, hiff, ih]

/-- The victim is the oldest of the least urgent entries. -/
theorem pickLowestPriorityOldest_first (h : q.pickLowestPriorityOldest = some id) :
    ∃ before victim after, q.queued.entries = before ++ (id, victim) :: after ∧
      (∀ e ∈ before, e.2.priority.toNat < victim.priority.toNat) ∧
      ∀ e ∈ after, e.2.priority.toNat ≤ victim.priority.toNat := by
  rw [pickLowestPriorityOldest, leastUrgent_eq_lowestScored] at h
  rcases BoundedFifoMap.lowestScored_first h with ⟨hbest, -⟩ | ⟨before, victim, after, hl, -, hbefore, hafter⟩
  · cases hbest
  · refine ⟨before, victim, after, hl, ?_, ?_⟩
    · intro e he
      have hlt := WithTop.coe_lt_coe.mp (hbefore e he)
      omega
    · intro e he
      have hle := WithTop.coe_le_coe.mp (hafter e he)
      omega

/-- A queue that is not empty has a victim. -/
theorem pickLowestPriorityOldest_ne_none (h : q.queued.entries ≠ []) :
    q.pickLowestPriorityOldest ≠ none := by
  intro hnone
  rw [pickLowestPriorityOldest, leastUrgent_eq_lowestScored] at hnone
  obtain ⟨e, he⟩ := List.exists_mem_of_ne_nil _ h
  have hle := WithTop.coe_le_coe.mp ((BoundedFifoMap.lowestScored_eq_none hnone).2 e he)
  omega

/-! ### Taking entries out -/

theorem removeEntry_of_split {before after : List (String × QueuedExternalDelivery)}
    (h : q.queued.entries = before ++ (id, entry) :: after) :
    (q.removeEntry id).queued.entries = before ++ after ∧
      (q.removeEntry id).totalBytes = q.totalBytes - entry.sizeBytes := by
  have hget : q.queued.get? id = some entry := by
    rw [OrderedMap.get?_eq_some, h]
    simp
  rw [removeEntry, hget]
  exact ⟨OrderedMap.entries_delete_of_split h, rfl⟩

@[simp] theorem maxEntries_removeEntry : (q.removeEntry id).maxEntries = q.maxEntries := by
  unfold removeEntry
  split <;> rfl

@[simp] theorem maxTotalBytes_removeEntry : (q.removeEntry id).maxTotalBytes = q.maxTotalBytes := by
  unfold removeEntry
  split <;> rfl

@[simp] theorem ttlMs_removeEntry : (q.removeEntry id).ttlMs = q.ttlMs := by
  unfold removeEntry
  split <;> rfl

theorem queued_removeEntry (q : ExternalDeliveryQueue) (id : String) :
    (q.removeEntry id).queued = q.queued.delete id := by
  unfold removeEntry
  cases hget : q.queued.get? id with
  | some entry => rfl
  | none => exact (OrderedMap.delete_of_notMem (OrderedMap.get?_eq_none.mp hget)).symm

theorem WellFormed.removeEntry (h : q.WellFormed) (id : String) : (q.removeEntry id).WellFormed := by
  constructor
  · cases hget : q.queued.get? id with
    | none => simpa [ExternalDeliveryQueue.removeEntry, hget] using h.accounted
    | some entry =>
      obtain ⟨before, after, hsplit⟩ := List.append_of_mem (OrderedMap.get?_eq_some.mp hget)
      obtain ⟨hentries, htotal⟩ := removeEntry_of_split hsplit
      rw [htotal, h.accounted, OrderedMap.values, OrderedMap.values, hentries, hsplit]
      simp only [List.map_append, List.map_cons, bytes_append, bytes_cons]
      omega
  · intro id' e he
    rw [queued_removeEntry] at he
    exact OrderedMap.forall_get?_delete id h.keyed id' e he

/-- The queue with a new delivery at its end. -/
theorem entries_insert (hnew : q.queued.has entry.packetId = false) :
    (q.queued.set entry.packetId entry).entries = q.queued.entries ++ [(entry.packetId, entry)] := by
  refine BoundedFifoMap.entries_set_of_notMem fun hmem => ?_
  rw [OrderedMap.has_iff.mpr hmem] at hnew
  cases hnew

theorem WellFormed.insert (h : q.WellFormed) (hnew : q.queued.has entry.packetId = false) :
    ({ q with
      queued := q.queued.set entry.packetId entry
      totalBytes := q.totalBytes + entry.sizeBytes } : ExternalDeliveryQueue).WellFormed where
  accounted := by
    simp only [OrderedMap.values, entries_insert hnew, h.accounted, List.map_append, bytes_append]
    simp [bytes]
  keyed := OrderedMap.forall_get?_set h.keyed rfl

/-- Eviction takes entries out, and nothing else. -/
theorem evict_cases (P : ExternalDeliveryQueue → Prop) (hremove : ∀ q id, P q → P (q.removeEntry id))
    (fuel : ℕ) (h : P q) : P (evictWhileOverCapacity fuel q) := by
  induction fuel generalizing q with
  | zero => exact h
  | succ fuel ih =>
    rw [evictWhileOverCapacity]
    split_ifs
    · cases q.pickLowestPriorityOldest with
      | none => exact h
      | some victim => exact ih (hremove q victim h)
    · exact h

/-! ### The newcomer -/

/-- `entry` came last, and the more urgent entries before it are `urgent`. -/
structure Newest (q : ExternalDeliveryQueue) (entry : QueuedExternalDelivery)
    (urgent : List QueuedExternalDelivery) : Prop where
  last : ∃ before, q.queued.entries = before ++ [(entry.packetId, entry)] ∧
    moreUrgent entry.priority (before.map Prod.snd) = urgent
  accounted : q.totalBytes = bytes q.queued.values

theorem length_moreUrgent_le (priority : Priority) (l : List QueuedExternalDelivery) :
    (moreUrgent priority l).length ≤ l.length := List.length_filter_le ..

theorem bytes_moreUrgent_le (priority : Priority) (l : List QueuedExternalDelivery) :
    bytes (moreUrgent priority l) ≤ bytes l := by
  induction l with
  | nil => exact le_rfl
  | cons e rest ih =>
    simp only [moreUrgent, List.filter_cons] at ih ⊢
    split_ifs <;> simp only [bytes_cons] <;> omega

/-- Within the bounds there is room for the newcomer. -/
theorem Newest.fits {urgent : List QueuedExternalDelivery} (h : q.Newest entry urgent)
    (hwithin : ¬(q.maxEntries < q.queued.size ∨ q.maxTotalBytes < q.totalBytes)) :
    urgent.length < q.maxEntries ∧ bytes urgent + entry.sizeBytes ≤ q.maxTotalBytes := by
  obtain ⟨before, hentries, rfl⟩ := h.last
  have htotal := h.accounted
  have hlength := length_moreUrgent_le entry.priority (before.map Prod.snd)
  have hbytes := bytes_moreUrgent_le entry.priority (before.map Prod.snd)
  rw [not_or] at hwithin
  simp only [OrderedMap.size, OrderedMap.values, hentries, List.map_append, List.map_cons, List.map_nil,
    bytes_append, bytes_cons, bytes_nil, List.length_append, List.length_cons, List.length_nil,
    List.length_map] at hwithin htotal hlength
  omega

/-- One eviction: either the newcomer stays and so do the more urgent entries,
or it goes because nothing else is left. -/
theorem Newest.removeEntry {urgent : List QueuedExternalDelivery} {victim : String}
    (h : q.Newest entry urgent) (hpick : q.pickLowestPriorityOldest = some victim) :
    (q.removeEntry victim).Newest entry urgent ∨
      (victim = entry.packetId ∧ q.queued.values = urgent ++ [entry]) := by
  obtain ⟨before, hentries, rfl⟩ := h.last
  obtain ⟨first, gone, rest, hsplit, hfirst, hrest⟩ := pickLowestPriorityOldest_first hpick
  obtain ⟨hremoved, htotal⟩ := removeEntry_of_split hsplit
  rcases List.eq_nil_or_concat rest with rfl | ⟨rest', last, rfl⟩
  · right
    rw [hentries] at hsplit
    obtain ⟨rfl, hlast⟩ := List.append_inj' hsplit rfl
    obtain ⟨rfl, rfl⟩ : entry.packetId = victim ∧ entry = gone := by simpa using hlast
    refine ⟨rfl, ?_⟩
    have hall : moreUrgent entry.priority (before.map Prod.snd) = before.map Prod.snd := by
      apply List.filter_eq_self.mpr
      intro e he
      obtain ⟨e', he', rfl⟩ := List.mem_map.mp he
      simpa using hfirst e' he'
    rw [hall, OrderedMap.values, hentries]
    simp
  · left
    have hsame : before ++ [(entry.packetId, entry)] = (first ++ (victim, gone) :: rest') ++ [last] := by
      rw [← hentries, hsplit]
      simp
    obtain ⟨rfl, hlast⟩ := List.append_inj' hsame rfl
    obtain rfl : (entry.packetId, entry) = last := by simpa using hlast
    have hle : entry.priority.toNat ≤ gone.priority.toNat := hrest (entry.packetId, entry) (by simp)
    constructor
    · refine ⟨first ++ rest', by simp [hremoved], ?_⟩
      simp only [moreUrgent, List.map_append, List.map_cons, List.filter_append, List.filter_cons]
      rw [if_neg (by simpa using hle)]
    · have haccounted := h.accounted
      rw [htotal, haccounted, OrderedMap.values, OrderedMap.values, hremoved, hsplit]
      simp only [List.map_append, List.map_cons, bytes_append, bytes_cons]
      omega

/-- The newcomer survives the evictions exactly when it fits besides the more
urgent entries. -/
theorem Newest.survives_iff {urgent : List QueuedExternalDelivery} (fuel : ℕ)
    (h : q.Newest entry urgent) (hfuel : q.queued.size ≤ fuel) :
    (evictWhileOverCapacity fuel q).queued.get? entry.packetId = some entry ↔
      urgent.length < q.maxEntries ∧ bytes urgent + entry.sizeBytes ≤ q.maxTotalBytes := by
  have hpresent : ∀ {q : ExternalDeliveryQueue}, q.Newest entry urgent →
      q.queued.get? entry.packetId = some entry := by
    intro q hq
    obtain ⟨before, hentries, -⟩ := hq.last
    rw [OrderedMap.get?_eq_some, hentries]
    simp
  induction fuel generalizing q with
  | zero =>
    obtain ⟨before, hentries, -⟩ := h.last
    simp [OrderedMap.size, hentries] at hfuel
  | succ fuel ih =>
    rw [evictWhileOverCapacity]
    split_ifs with hover
    · cases hpick : q.pickLowestPriorityOldest with
      | none =>
        obtain ⟨before, hentries, -⟩ := h.last
        exact absurd hpick (pickLowestPriorityOldest_ne_none (by simp [hentries]))
      | some victim =>
        rcases h.removeEntry hpick with hstays | ⟨rfl, hleft⟩
        · obtain ⟨first, gone, rest, hsplit, -, -⟩ := pickLowestPriorityOldest_first hpick
          have hsize : (q.removeEntry victim).queued.size ≤ fuel := by
            simp only [OrderedMap.size, (removeEntry_of_split hsplit).1, hsplit,
              List.length_append, List.length_cons] at hfuel ⊢
            omega
          simpa using ih hstays hsize
        · have hgone : (evictWhileOverCapacity fuel (q.removeEntry entry.packetId)).queued.get?
              entry.packetId = none := by
            apply evict_cases (fun q => q.queued.get? entry.packetId = none)
            · intro q' id hnone
              rw [queued_removeEntry, OrderedMap.get?_delete, hnone, ite_self]
            · rw [queued_removeEntry, OrderedMap.get?_delete_self]
          have htotal := h.accounted
          have hsize : q.queued.size = q.queued.values.length := by simp [OrderedMap.size, OrderedMap.values]
          rw [hleft] at htotal hsize
          simp only [bytes_append, bytes_cons, bytes_nil, List.length_append, List.length_cons,
            List.length_nil] at htotal hsize
          simp only [hgone, reduceCtorEq, false_iff]
          omega
    · exact iff_of_true (hpresent h) (h.fits hover)

theorem get?_enqueue_of_queued (h : q.queued.has entry.packetId = true) : q.enqueue entry = q := by
  simp [enqueue, h]

/-- A delivery that was not queued yet is queued afterwards exactly when the
more urgent entries leave room for it. -/
theorem enqueue_keeps_iff (entry : QueuedExternalDelivery) (hwf : q.WellFormed) (hnew : q.queued.has entry.packetId = false) :
    (q.enqueue entry).queued.get? entry.packetId = some entry ↔
      q.hasRoomFor entry.priority entry.sizeBytes = true := by
  have hnewest : ({ q with
      queued := q.queued.set entry.packetId entry
      totalBytes := q.totalBytes + entry.sizeBytes } : ExternalDeliveryQueue).Newest entry
        (moreUrgent entry.priority q.queued.values) :=
    ⟨⟨q.queued.entries, entries_insert hnew, rfl⟩, (hwf.insert hnew).accounted⟩
  rw [enqueue, hnew]
  simp only [Bool.false_eq_true, if_false]
  rw [hnewest.survives_iff _ le_rfl, hasRoomFor, Bool.and_eq_true, decide_eq_true_eq, decide_eq_true_eq]

theorem WellFormed.enqueue (h : q.WellFormed) (entry : QueuedExternalDelivery) :
    (q.enqueue entry).WellFormed := by
  unfold ExternalDeliveryQueue.enqueue
  split_ifs with hqueued
  · exact h
  · apply evict_cases WellFormed fun q id hq => hq.removeEntry id
    exact h.insert (eq_false_of_ne_true hqueued)

/-- What is queued after `enqueue` was queued before, or is the new delivery. -/
theorem mem_enqueue {e : QueuedExternalDelivery} (h : (q.enqueue entry).queued.get? id = some e) :
    q.queued.get? id = some e ∨ (id = entry.packetId ∧ e = entry) := by
  unfold enqueue at h
  split_ifs at h with hqueued
  · exact .inl h
  · revert h
    apply evict_cases fun q' => q'.queued.get? id = some e →
      q.queued.get? id = some e ∨ (id = entry.packetId ∧ e = entry)
    · intro q' victim hq' hget
      rw [queued_removeEntry, OrderedMap.get?_delete] at hget
      split_ifs at hget
      exact hq' hget
    · intro hget
      rw [OrderedMap.get?_set] at hget
      split_ifs at hget with hid
      · exact .inr ⟨hid, (Option.some.inj hget).symm⟩
      · exact .inl hget

end ExternalDeliveryQueue
end Arald
