import Arald.Foundations.Eviction
import Arald.Foundations.Runs
import Arald.Ingest.ExternalDeliveries

/-!
# The bounds of the delivery queue

The running byte count and the two limits of `ExternalDeliveryQueue` over any
sequence of its operations, and which deliveries an insertion costs. The sizes and
limits are byte counts, so the count never falls below the bytes it is made of.
-/

namespace Arald

open Foundations

namespace ExternalDeliveryQueue

/-- The delivery as `enqueue` keeps it. -/
def stamp (q : ExternalDeliveryQueue) (entry : QueuedExternalDelivery) (priority : JsValue) (now : ℤ) :
    QueuedExternalDelivery :=
  { entry with priority := priorityRank priority, expiresAt := now + q.ttlMs }

/-- `enqueue` of a delivery whose priority has not been looked at yet. -/
def submit (q : ExternalDeliveryQueue) (entry : QueuedExternalDelivery) (priority : JsValue) (now : ℤ) :
    ExternalDeliveryQueue :=
  q.enqueue (q.stamp entry priority now)

def create (maxEntries maxTotalBytes : ℕ) (ttlMs : ℤ) : ExternalDeliveryQueue where
  queued := .empty
  maxEntries := maxEntries
  maxTotalBytes := maxTotalBytes
  ttlMs := ttlMs
  totalBytes := 0

inductive QueueOperation where
  | enqueue (entry : QueuedExternalDelivery) (priority : JsValue) (now : ℤ)
  | entriesDueForAttempt (now : ℤ)
  | remove (packetId : String)

def step (q : ExternalDeliveryQueue) : QueueOperation → Option ExternalDeliveryQueue
  | .enqueue entry priority now => some (q.submit entry priority now)
  | .entriesDueForAttempt now => some (q.entriesDueForAttempt now).1
  | .remove packetId => some (q.remove packetId)

/-- A queue with any limits, and any operations on it. -/
def system : System ExternalDeliveryQueue QueueOperation where
  Init q := ∃ maxEntries maxTotalBytes ttlMs, q = create maxEntries maxTotalBytes ttlMs
  step := step

/-- The urgency of a held delivery; the lowest number is the most urgent. -/
def rank (e : String × QueuedExternalDelivery) : ℕ := e.2.priority.toNat

/-- These deliveries are too many, or too large together. -/
def exceeds (q : ExternalDeliveryQueue) (held : List (String × QueuedExternalDelivery)) : Prop :=
  q.maxEntries < held.length ∨ q.maxTotalBytes < bytes (held.map Prod.snd)

variable {q q' : ExternalDeliveryQueue} {entry : QueuedExternalDelivery}

theorem exceeds_mono {l l' : List (String × QueuedExternalDelivery)} (hsub : l.Sublist l') (h : q.exceeds l) :
    q.exceeds l' := by
  have hbytes : bytes (l.map Prod.snd) ≤ bytes (l'.map Prod.snd) :=
    List.Sublist.sum_le_sum ((hsub.map Prod.snd).map _) (by simp)
  exact h.imp (lt_of_lt_of_le · hsub.length_le) (lt_of_lt_of_le · hbytes)

/-- The condition of the loop, read off the entries. -/
theorem exceeds_entries_iff (h : q.WellFormed) :
    q.exceeds q.queued.entries ↔ q.maxEntries < q.queued.size ∨ q.maxTotalBytes < q.totalBytes := by
  rw [h.accounted]
  rfl

theorem exceeds_congr (hentries : q'.maxEntries = q.maxEntries) (hbytes : q'.maxTotalBytes = q.maxTotalBytes) :
    q'.exceeds = q.exceeds := by
  funext held
  rw [exceeds, exceeds, hentries, hbytes]

theorem pickLowestPriorityOldest_victim {id : String} (h : q.pickLowestPriorityOldest = some id) :
    ∃ before victim after, q.queued.entries = before ++ (id, victim) :: after ∧
      IsOldestWorst rank before (id, victim) after := by
  obtain ⟨before, victim, after, hsplit, hbefore, hafter⟩ := pickLowestPriorityOldest_first h
  exact ⟨before, victim, after, hsplit, hbefore, hafter⟩

/-- As many rounds as there are entries are enough for the loop: it ends within the
bounds, and every victim is the oldest of the least urgent entries of its round. -/
theorem evictions_of_evict (fuel : ℕ) (h : q.WellFormed) (hfuel : q.queued.size ≤ fuel) :
    ∃ victims, Evictions rank q.exceeds q.queued.entries victims
      (evictWhileOverCapacity fuel q).queued.entries := by
  induction fuel generalizing q with
  | zero =>
    have hnil : q.queued.entries = [] := List.length_eq_zero_iff.mp (Nat.le_zero.mp hfuel)
    refine ⟨[], ?_⟩
    rw [evictWhileOverCapacity, hnil]
    exact .within (by simp [exceeds])
  | succ fuel ih =>
    rw [evictWhileOverCapacity]
    split_ifs with hover
    · have hexceeds := (exceeds_entries_iff h).mpr hover
      cases hpick : q.pickLowestPriorityOldest with
      | none =>
        have hnil : q.queued.entries = [] := by
          by_contra hne
          exact pickLowestPriorityOldest_ne_none hne hpick
        rw [hnil] at hexceeds
        simp [exceeds] at hexceeds
      | some id =>
        obtain ⟨before, victim, after, hsplit, hvictim⟩ := pickLowestPriorityOldest_victim hpick
        obtain ⟨hremoved, -⟩ := removeEntry_of_split hsplit
        have hsize : (q.removeEntry id).queued.size ≤ fuel := by
          simp only [OrderedMap.size, hremoved, hsplit, List.length_append, List.length_cons] at hfuel ⊢
          omega
        obtain ⟨victims, hrest⟩ := ih (h.removeEntry id) hsize
        rw [exceeds_congr maxEntries_removeEntry maxTotalBytes_removeEntry, hremoved] at hrest
        rw [hsplit] at hexceeds ⊢
        exact ⟨(id, victim) :: victims, .evict hexceeds hvictim hrest⟩
    · exact ⟨[], .within fun hexceeds => hover ((exceeds_entries_iff h).mp hexceeds)⟩

/-- The evictions after the insertion of a delivery that is not queued yet. -/
theorem evictions_of_enqueue (entry : QueuedExternalDelivery) (h : q.WellFormed)
    (hnew : q.queued.has entry.packetId = false) :
    ∃ victims, Evictions rank q.exceeds (q.queued.entries ++ [(entry.packetId, entry)]) victims
      (q.enqueue entry).queued.entries := by
  have hevictions := evictions_of_evict _ (h.insert hnew) le_rfl
  rw [enqueue, hnew]
  rwa [entries_insert hnew] at hevictions

/-! ### Runs -/

/-- The count is right, and both limits hold. -/
structure Bounded (q : ExternalDeliveryQueue) : Prop where
  wellFormed : q.WellFormed
  within : ¬q.exceeds q.queued.entries

@[simp] theorem maxEntries_enqueue : (q.enqueue entry).maxEntries = q.maxEntries := by
  unfold enqueue
  split_ifs
  · rfl
  · exact evict_cases (fun q' => q'.maxEntries = q.maxEntries)
      (fun _ _ h => maxEntries_removeEntry.trans h) _ rfl

@[simp] theorem maxTotalBytes_enqueue : (q.enqueue entry).maxTotalBytes = q.maxTotalBytes := by
  unfold enqueue
  split_ifs
  · rfl
  · exact evict_cases (fun q' => q'.maxTotalBytes = q.maxTotalBytes)
      (fun _ _ h => maxTotalBytes_removeEntry.trans h) _ rfl

theorem Bounded.enqueue (h : q.Bounded) (entry : QueuedExternalDelivery) : (q.enqueue entry).Bounded where
  wellFormed := h.wellFormed.enqueue entry
  within := by
    rw [exceeds_congr maxEntries_enqueue maxTotalBytes_enqueue]
    cases hqueued : q.queued.has entry.packetId with
    | true =>
      rw [get?_enqueue_of_queued hqueued]
      exact h.within
    | false =>
      obtain ⟨victims, hevictions⟩ := evictions_of_enqueue entry h.wellFormed hqueued
      exact hevictions.not_tooMuch

/-- Only the limits and the entries that are left count. -/
theorem Bounded.of_sublist (h : q.Bounded) (hwf : q'.WellFormed) (hentries : q'.maxEntries = q.maxEntries)
    (hbytes : q'.maxTotalBytes = q.maxTotalBytes) (hsub : q'.queued.entries.Sublist q.queued.entries) :
    q'.Bounded where
  wellFormed := hwf
  within := by
    rw [exceeds_congr hentries hbytes]
    exact fun hexceeds => h.within (exceeds_mono hsub hexceeds)

theorem Bounded.remove (h : q.Bounded) (packetId : String) : (q.remove packetId).Bounded := by
  have hsub : (q.removeEntry packetId).queued.entries.Sublist q.queued.entries := by
    rw [queued_removeEntry]
    exact List.filter_sublist
  exact h.of_sublist (h.wellFormed.removeEntry packetId) maxEntries_removeEntry maxTotalBytes_removeEntry hsub

theorem Bounded.entriesDueForAttempt (h : q.Bounded) (now : ℤ) : (q.entriesDueForAttempt now).1.Bounded :=
  h.of_sublist (h.wellFormed.entriesDueForAttempt now) rfl rfl List.filter_sublist

theorem bounded (h : system.Reachable q) : q.Bounded := by
  apply h.invariant (I := Bounded)
  · rintro q ⟨maxEntries, maxTotalBytes, ttlMs, rfl⟩
    exact ⟨⟨rfl, by simp [create]⟩, by simp [exceeds, create]⟩
  · intro q e q' hq _ hstep
    cases e with
    | enqueue entry priority now =>
      obtain rfl := Option.some.inj hstep
      exact hq.enqueue _
    | entriesDueForAttempt now =>
      obtain rfl := Option.some.inj hstep
      exact hq.entriesDueForAttempt now
    | remove packetId =>
      obtain rfl := Option.some.inj hstep
      exact hq.remove packetId

/-- In every state the count is right and both limits hold. A delivery that is queued
already changes nothing; for a new one the oldest of the least urgent go, until the
limits hold, and none of them is more urgent than it. -/
theorem keeps_limits (h : system.Reachable q) :
    q.totalBytes = bytes q.queued.values ∧ q.queued.size ≤ q.maxEntries ∧ q.totalBytes ≤ q.maxTotalBytes ∧
      ∀ entry priority now,
        (q.queued.has entry.packetId = true → q.submit entry priority now = q) ∧
        (q.queued.has entry.packetId = false → ∃ victims,
          Evictions rank q.exceeds (q.queued.entries ++ [(entry.packetId, q.stamp entry priority now)]) victims
            (q.submit entry priority now).queued.entries ∧
          ∀ victim ∈ victims, (priorityRank priority).toNat ≤ victim.2.priority.toNat) := by
  have hbounded := bounded h
  have hwithin := hbounded.within
  rw [exceeds_entries_iff hbounded.wellFormed, not_or, not_lt, not_lt] at hwithin
  refine ⟨hbounded.wellFormed.accounted, hwithin.1, hwithin.2, ?_⟩
  intro entry priority now
  have hqueued : q.queued.has (q.stamp entry priority now).packetId = true →
      q.enqueue (q.stamp entry priority now) = q := get?_enqueue_of_queued
  refine ⟨hqueued, ?_⟩
  intro hnew
  obtain ⟨victims, hevictions⟩ := evictions_of_enqueue (q.stamp entry priority now) hbounded.wellFormed hnew
  exact ⟨victims, hevictions, (hevictions.spares_lower hbounded.within exceeds_mono).1⟩

def sampleDelivery (packetId : String) (sizeBytes : ℕ) : QueuedExternalDelivery where
  packetId := packetId
  destinationId := "hq"
  url := "https://org.example/intake"
  senderEphemeralPublicKey := ""
  nonce := ""
  ciphertext := ""
  authTag := ""
  submittedAt := 0
  priority := .bulk
  sizeBytes := sizeBytes
  expiresAt := 0

/-- A queue of ten bytes, all of them taken: two by bulk, eight by an emergency. -/
def taken : List QueueOperation :=
  [.enqueue (sampleDelivery "report" 2) Priority.bulk.toJs 0, .enqueue (sampleDelivery "sos" 8) Priority.emergency.toJs 0]

/-- A second emergency, for which the bulk delivery goes. -/
theorem keeps_limits_taken :
    ∃ q, system.Reachable q ∧ q.queued.keys = ["report", "sos"] ∧ q.totalBytes = bytes q.queued.values ∧
      ∃ victims, Evictions rank q.exceeds (q.queued.entries ++
          [("second sos", q.stamp (sampleDelivery "second sos" 2) Priority.emergency.toJs 1)]) victims
        (q.submit (sampleDelivery "second sos" 2) Priority.emergency.toJs 1).queued.entries := by
  have hrun : (system.run (create 5 10 1000) taken).map
      (fun q => (q.queued.keys, q.queued.has "second sos")) = some (["report", "sos"], false) := by
    decide
  obtain ⟨q, hq, hsummary⟩ := Option.map_eq_some_iff.mp hrun
  obtain ⟨hkeys, hnew⟩ := Prod.mk.inj hsummary
  have hreach := System.reachable_of_run (S := system) ⟨_, _, _, rfl⟩ hq
  obtain ⟨haccounted, -, -, hinsert⟩ := keeps_limits hreach
  obtain ⟨victims, hevictions, -⟩ :=
    (hinsert (sampleDelivery "second sos" 2) Priority.emergency.toJs 1).2 hnew
  exact ⟨q, hreach, hkeys, haccounted, victims, hevictions⟩

/-! ### Evictions for nothing -/

theorem has_submit_iff (entry : QueuedExternalDelivery) (priority : JsValue) (now : ℤ)
    (hnew : q.queued.has entry.packetId = false) :
    (q.submit entry priority now).queued.has entry.packetId = true ↔
      (q.submit entry priority now).queued.get? entry.packetId = some (q.stamp entry priority now) := by
  constructor
  · intro hhas
    obtain ⟨e, he⟩ := Option.isSome_iff_exists.mp hhas
    rcases mem_enqueue he with hold | ⟨-, rfl⟩
    · rw [OrderedMap.has, hold] at hnew
      cases hnew
    · exact he
  · intro hget
    rw [OrderedMap.has, hget]
    rfl

/-- A new delivery that is not queued at the end has cost nothing exactly when all
others are more urgent; it is queued if there is room for it beside those. -/
theorem loses_nothing_iff (h : system.Reachable q) (entry : QueuedExternalDelivery) (priority : JsValue)
    (now : ℤ) (hnew : q.queued.has entry.packetId = false) :
    ((q.submit entry priority now).queued.has entry.packetId = false →
      ∀ id e, q.queued.get? id = some e → (q.submit entry priority now).queued.get? id = some e) ↔
    q.hasRoomFor (priorityRank priority) entry.sizeBytes = true ∨
      ∀ id e, q.queued.get? id = some e → e.priority.toNat < (priorityRank priority).toNat := by
  have hbounded := bounded h
  have hstays : (q.submit entry priority now).queued.has entry.packetId = true ↔
      q.hasRoomFor (priorityRank priority) entry.sizeBytes = true :=
    (has_submit_iff entry priority now hnew).trans
      (enqueue_keeps_iff (q.stamp entry priority now) hbounded.wellFormed hnew)
  cases hroom : q.hasRoomFor (priorityRank priority) entry.sizeBytes with
  | true =>
    rw [hroom] at hstays
    simp [hstays.mpr rfl]
  | false =>
    have hgone : (q.submit entry priority now).queued.has entry.packetId = false := by
      rw [Bool.eq_false_iff, ne_eq, hstays, hroom]
      exact Bool.false_ne_true
    obtain ⟨victims, hevictions⟩ := evictions_of_enqueue (q.stamp entry priority now) hbounded.wellFormed hnew
    have hnotMem : (entry.packetId, q.stamp entry priority now) ∉ (q.submit entry priority now).queued.entries := by
      intro hmem
      rw [OrderedMap.has_iff.mpr (OrderedMap.mem_keys_of_mem hmem)] at hgone
      cases hgone
    have hiff := hevictions.keeps_all_iff hbounded.within exceeds_mono hnotMem
    simp only [hgone, true_implies, Bool.false_eq_true, false_or, OrderedMap.get?_eq_some]
    constructor
    · intro hkept id e he
      exact hiff.mp (fun e he => hkept e.1 e.2 he) (id, e) he
    · intro hlower id e he
      exact hiff.mpr (fun e he => hlower e.1 e.2 he) (id, e) he

/-- An emergency that fits when the bulk delivery goes. -/
theorem loses_nothing_iff_room :
    ∃ q, system.Reachable q ∧ q.queued.keys = ["report", "sos"] ∧
      ((q.submit (sampleDelivery "second sos" 2) Priority.emergency.toJs 1).queued.has "second sos" = false →
        ∀ id e, q.queued.get? id = some e →
          (q.submit (sampleDelivery "second sos" 2) Priority.emergency.toJs 1).queued.get? id = some e) := by
  have hrun : (system.run (create 5 10 1000) taken).map
      (fun q => (q.queued.keys, q.queued.has "second sos",
        q.hasRoomFor (priorityRank Priority.emergency.toJs) 2)) = some (["report", "sos"], false, true) := by
    decide
  obtain ⟨q, hq, hsummary⟩ := Option.map_eq_some_iff.mp hrun
  obtain ⟨hkeys, hrest⟩ := Prod.mk.inj hsummary
  obtain ⟨hnew, hroom⟩ := Prod.mk.inj hrest
  have hreach := System.reachable_of_run (S := system) ⟨_, _, _, rfl⟩ hq
  exact ⟨q, hreach, hkeys,
    (loses_nothing_iff hreach (sampleDelivery "second sos" 2) Priority.emergency.toJs 1 hnew).mpr (.inl hroom)⟩

/-- A message that fits neither with the emergency alone: the bulk delivery goes
first, then the message. -/
theorem evicted_for_nothing :
    ∃ q, system.Reachable q ∧ ∃ entry priority now, q.queued.has entry.packetId = false ∧
      (q.submit entry priority now).queued.has entry.packetId = false ∧
      ∃ id e, q.queued.get? id = some e ∧ (q.submit entry priority now).queued.get? id = none := by
  have hrun : (system.run (create 5 10 1000) taken).map
      (fun q => (q.queued.has "message",
        (q.submit (sampleDelivery "message" 5) Priority.messaging.toJs 1).queued.has "message",
        q.queued.has "report",
        (q.submit (sampleDelivery "message" 5) Priority.messaging.toJs 1).queued.has "report")) =
      some (false, false, true, false) := by
    decide
  obtain ⟨q, hq, hsummary⟩ := Option.map_eq_some_iff.mp hrun
  obtain ⟨hnew, hrest⟩ := Prod.mk.inj hsummary
  obtain ⟨hgone, hrest⟩ := Prod.mk.inj hrest
  obtain ⟨hbefore, hafter⟩ := Prod.mk.inj hrest
  obtain ⟨e, he⟩ := Option.isSome_iff_exists.mp hbefore
  exact ⟨q, System.reachable_of_run ⟨_, _, _, rfl⟩ hq, sampleDelivery "message" 5, Priority.messaging.toJs, 1,
    hnew, hgone, "report", e, he, Option.isNone_iff_eq_none.mp (by rw [← Option.not_isSome]; simpa [OrderedMap.has] using hafter)⟩

end ExternalDeliveryQueue
end Arald
