import Arald.Ingest.Payloads
import Arald.Store.BoundedFifoMap

/-!
# The registries behind the ingest endpoints

Drops, node appends, the remote catalog, the queue of external deliveries and
the fixed-window budgets. Drops, appends and catalog entries are immutable once
recorded; all three evict by the live trust in their author.
-/

namespace Arald

open Foundations

/-! ### Budgets -/

/-- A fixed window, `{ windowStart, count }`. -/
structure BudgetWindow where
  windowStart : ℤ := 0
  count : ℕ := 0
  deriving DecidableEq

namespace BudgetWindow

/-- The window that `now` falls into, new when the last one is over. -/
def roll (w : BudgetWindow) (windowMs now : ℤ) : BudgetWindow :=
  if windowMs ≤ now - w.windowStart then { windowStart := now, count := 0 } else w

/-- A slot is left in the window that `now` falls into. -/
def admits (w : BudgetWindow) (limit : ℕ) (windowMs now : ℤ) : Bool :=
  (w.roll windowMs now).count < limit

/-- Take a slot, if one is left. -/
def tryConsume (w : BudgetWindow) (limit : ℕ) (windowMs now : ℤ) : BudgetWindow × Bool :=
  let current := w.roll windowMs now
  if w.admits limit windowMs now then ({ current with count := current.count + 1 }, true)
  else (current, false)

variable {w : BudgetWindow} {limit : ℕ} {windowMs now : ℤ}

theorem tryConsume_of_admits (h : w.admits limit windowMs now = true) :
    w.tryConsume limit windowMs now =
      ({ w.roll windowMs now with count := (w.roll windowMs now).count + 1 }, true) := by
  simp [tryConsume, h]

theorem tryConsume_of_not_admits (h : w.admits limit windowMs now = false) :
    w.tryConsume limit windowMs now = (w.roll windowMs now, false) := by
  simp [tryConsume, h]

@[simp] theorem tryConsume_snd : (w.tryConsume limit windowMs now).2 = w.admits limit windowMs now := by
  cases h : w.admits limit windowMs now
  · rw [tryConsume_of_not_admits h]
  · rw [tryConsume_of_admits h]

/-- A slot that was taken shows in the window. -/
theorem tryConsume_ne (hpos : 0 < windowMs) (h : w.admits limit windowMs now = true) :
    (w.tryConsume limit windowMs now).1 ≠ w := by
  rw [tryConsume_of_admits h]
  intro heq
  unfold roll at heq
  split_ifs at heq with hover
  · have hstart : now = w.windowStart := congrArg windowStart heq
    omega
  · have hcount : w.count + 1 = w.count := congrArg count heq
    omega

theorem roll_cases (w : BudgetWindow) (windowMs now : ℤ) :
    w.roll windowMs now = w ∨
      ((w.roll windowMs now).count = 0 ∧
        w.windowStart + windowMs ≤ (w.roll windowMs now).windowStart) := by
  unfold roll
  split_ifs with h
  · exact .inr ⟨rfl, by dsimp only; omega⟩
  · exact .inl rfl

end BudgetWindow

/-! ### Drops -/

structure Drop extends DropPayload where
  dropId : String
  author : String
  expiresAt : Option ℚ
  receivedFrom : Option String
  observedAt : ℤ

structure Drops where
  items : BoundedFifoMap String Drop

/-- Record a drop that is not known yet. -/
def Drops.record (d : Drops) (trustRank : String → ℤ) (drop : Drop) : Drops :=
  if d.items.has drop.dropId then d
  else
    let score : BoundedFifoMap.EvictionScore String Drop := fun _ e => (trustRank e.author : WithTop ℤ)
    { d with items := d.items.set (some score) drop.dropId drop }

/-! ### Node appends -/

structure NodeAppend where
  text : String
  label : Option String
  kind : DropKind
  timestamp : ℚ
  expiresAt : ℚ
  appendId : String
  author : String

structure NodeAppends where
  items : BoundedFifoMap String NodeAppend

/-- Record an append that is not known yet. -/
def NodeAppends.record (a : NodeAppends) (trustRank : String → ℤ) (append : NodeAppend) :
    NodeAppends :=
  if a.items.has append.appendId then a
  else
    let score : BoundedFifoMap.EvictionScore String NodeAppend := fun _ e =>
      (trustRank e.author : WithTop ℤ)
    { a with items := a.items.set (some score) append.appendId append }

/-! ### The remote catalog -/

structure RemoteCatalog where
  items : BoundedFifoMap String ContentMetadata

namespace RemoteCatalog

/-- An entry that has expired is dropped and counts as absent. -/
def get (c : RemoteCatalog) (contentId : String) (now : ℤ) : RemoteCatalog × Option ContentMetadata :=
  match c.items.get? contentId with
  | some metadata =>
    if metadata.expired now then ({ c with items := c.items.delete contentId }, none)
    else (c, some metadata)
  | none => (c, none)

def record (c : RemoteCatalog) (trustRank : String → ℤ) (metadata : ContentMetadata) (now : ℤ) :
    RemoteCatalog :=
  match c.get metadata.contentId now with
  | (c, some _) => c
  | (c, none) =>
    let score : BoundedFifoMap.EvictionScore String ContentMetadata := fun _ m =>
      (trustRank (m.publisherId.getD "") : WithTop ℤ)
    { c with items := c.items.set (some score) metadata.contentId metadata }

end RemoteCatalog

/-! ### The external delivery queue -/

structure QueuedExternalDelivery where
  packetId : String
  destinationId : String
  url : String
  senderEphemeralPublicKey : String
  nonce : String
  ciphertext : String
  authTag : String
  submittedAt : ℚ
  priority : Priority
  sizeBytes : ℕ
  expiresAt : ℤ

structure ExternalDeliveryQueue where
  queued : OrderedMap String QueuedExternalDelivery
  maxEntries : ℕ
  maxTotalBytes : ℕ
  ttlMs : ℤ
  totalBytes : ℕ

namespace ExternalDeliveryQueue

/-- The scan of `pickLowestPriorityOldest`: the first of the least urgent entries. -/
def leastUrgent : Option String → ℤ → List (String × QueuedExternalDelivery) → Option String
  | bestKey, _, [] => bestKey
  | bestKey, worstRank, (key, entry) :: rest =>
    if worstRank < (entry.priority.toNat : ℤ) then
      leastUrgent (some key) (entry.priority.toNat : ℤ) rest
    else leastUrgent bestKey worstRank rest

def pickLowestPriorityOldest (q : ExternalDeliveryQueue) : Option String :=
  leastUrgent none (-1) q.queued.entries

def removeEntry (q : ExternalDeliveryQueue) (packetId : String) : ExternalDeliveryQueue :=
  match q.queued.get? packetId with
  | some entry =>
    { q with queued := q.queued.delete packetId, totalBytes := q.totalBytes - entry.sizeBytes }
  | none => q

/-- Evict until both bounds hold or nothing is left; every round takes an entry
out, so the number of entries bounds the number of rounds. -/
def evictWhileOverCapacity : ℕ → ExternalDeliveryQueue → ExternalDeliveryQueue
  | 0, q => q
  | fuel + 1, q =>
    if q.maxEntries < q.queued.size ∨ q.maxTotalBytes < q.totalBytes then
      match q.pickLowestPriorityOldest with
      | some victim => evictWhileOverCapacity fuel (q.removeEntry victim)
      | none => q
    else q

/-- Queue a delivery that is not queued yet, whatever has to be evicted for it. -/
def enqueue (q : ExternalDeliveryQueue) (entry : QueuedExternalDelivery) : ExternalDeliveryQueue :=
  if q.queued.has entry.packetId then q
  else
    let q := { q with
      queued := q.queued.set entry.packetId entry
      totalBytes := q.totalBytes + entry.sizeBytes }
    evictWhileOverCapacity q.queued.size q

/-- After a successful delivery. -/
def remove (q : ExternalDeliveryQueue) (packetId : String) : ExternalDeliveryQueue :=
  q.removeEntry packetId

end ExternalDeliveryQueue

end Arald
