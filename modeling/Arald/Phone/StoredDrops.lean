import Arald.Foundations.JsObjects
import Arald.Phone.DropQueue

/-!
# The drop queue as it is stored

The operations of `drop-queue.js` on what `localStorage` really holds: no text at all, a
text that is not JSON, a value that is not an array, entries that are malformed. A read may
throw, and so may a write. What a write stores is kept as the value that it will be read as.
-/

namespace Arald

open Foundations DropQueue

/-- What is stored under `PENDING_DROPS_STORAGE_KEY`. -/
inductive StoredText where
  | missing
  | unparsable
  | json (v : JsValue)

structure DropStorage where
  text : StoredText
  /-- `getItem` does not throw. -/
  readable : Bool
  /-- `setItem` and `removeItem` do not throw. -/
  writable : Bool

namespace DropStorage

/-- `entry.queueId`, when it is a string. -/
def idOf (entry : JsValue) : Option String := (entry.prop "queueId").string?

/-- `entry.sendingSince`, when it is a finite number. -/
def markOf (entry : JsValue) : Option ℚ := (entry.prop "sendingSince").finite?

def isWellFormedEntry (entry : JsValue) : Bool :=
  entry.isObject &&
    (nonEmpty? (entry.prop "queueId")).isSome &&
    (nonEmpty? (entry.prop "gateway")).isSome &&
    (nonEmpty? (entry.prop "text")).isSome &&
    ((entry.prop "lat").finite?.any fun lat => |lat| ≤ 90) &&
    ((entry.prop "lon").finite?.any fun lon => |lon| ≤ 180) &&
    ((entry.prop "label").isUndefined ||
      (entry.prop "label").string?.any fun label => utf16Length label ≤ maxDropLabelLength) &&
    ((entry.prop "kind").string?.any fun kind => (DropKind.ofString? kind).isSome) &&
    (entry.prop "queuedAt").finite?.isSome &&
    ((entry.prop "sendingSince").isUndefined || (entry.prop "sendingSince").finite?.isSome)

def isPendingDropExpired (entry : JsValue) (now : ℤ) : Bool :=
  ((entry.prop "queuedAt").finite?.getD 0) + pendingDropMaxAgeMs ≤ now

/-- The entries that are stored, whether or not they can be read. -/
def stored (s : DropStorage) : List JsValue :=
  match s.text with
  | .json (.arr entries) => entries
  | _ => []

def readEntries (s : DropStorage) : List JsValue := if s.readable then s.stored else []

/-- The storage after the attempt to write, and whether it succeeded. -/
def writeEntries (s : DropStorage) (entries : List JsValue) : DropStorage × Bool :=
  if s.writable then
    ({ s with text := if entries.isEmpty then .missing else .json (.arr entries) }, true)
  else (s, false)

/-- Applies a change to the first element that satisfies a test. -/
def modifyFirst (test : JsValue → Bool) (change : JsValue → JsValue) : List JsValue → List JsValue
  | [] => []
  | e :: entries => if test e then change e :: entries else e :: modifyFirst test change entries

/-- The number `now` of a clock. -/
def time (now : ℤ) : JsValue := .num (.finite now)

/-- The new storage, and the entries that are pending and expired. -/
def loadPendingDrops (s : DropStorage) (now : ℤ) : DropStorage × List JsValue × List JsValue :=
  let all := s.readEntries
  let isFuture := fun entry : JsValue => (entry.prop "queuedAt").finite?.any fun queuedAt => (now : ℚ) < queuedAt
  let wellFormed := all.filter isWellFormedEntry
  let adjusted := wellFormed.map fun entry => if isFuture entry then entry.setProp "queuedAt" (time now) else entry
  let pending := adjusted.filter fun entry => !isPendingDropExpired entry now
  let expired := adjusted.filter fun entry => isPendingDropExpired entry now
  let changed := wellFormed.length < all.length || wellFormed.any isFuture || !expired.isEmpty
  (if changed then (s.writeEntries pending).1 else s, pending, expired)

/-- The entry for a submitted form; `newId` is what `newQueueId()` would return. -/
def newEntry (input : JsValue) (newId : String) (now : ℤ) : JsValue :=
  .record [
    ("queueId", DropQueue.orElse (input.prop "queueId") (.str newId)),
    ("gateway", input.prop "gateway"),
    ("text", input.prop "text"),
    ("lat", input.prop "lat"),
    ("lon", input.prop "lon"),
    ("label", DropQueue.orElse (input.prop "label") .undefined),
    ("kind", DropQueue.orElse (input.prop "kind") (.str "info")),
    ("queuedAt", time now)]

/-- The form is not a valid drop: `!isWellFormedEntry(entry) || text.length > MAX_DROP_TEXT_LENGTH`. -/
def isInvalid (entry : JsValue) : Bool :=
  !isWellFormedEntry entry || (entry.prop "text").string?.any fun text => maxDropTextLength < utf16Length text

def enqueuePendingDrop (s : DropStorage) (input : JsValue) (newId : String) (now : ℤ) :
    DropStorage × Option JsValue :=
  let entry := newEntry input newId now
  if isInvalid entry then (s, none)
  else
    let existing := s.readEntries.filter isWellFormedEntry
    if maxPendingDrops ≤ existing.length then (s, none)
    else
      match existing.find? fun e => idOf e = idOf entry with
      | some already => (s, some already)
      | none =>
        match s.writeEntries (existing ++ [entry]) with
        | (s, true) => (s, some entry)
        | (s, false) => (s, none)

def removePendingDrop (s : DropStorage) (queueId : String) : DropStorage :=
  (s.writeEntries (s.readEntries.filter fun entry => idOf entry ≠ some queueId)).1

/-- The entry that a claim of `queueId` is about. -/
def isClaimable (queueId : String) (entry : JsValue) : Bool := idOf entry = some queueId && isWellFormedEntry entry

def claimPendingDrop (s : DropStorage) (queueId : String) (now : ℤ) : DropStorage × Bool :=
  let all := s.readEntries
  match all.find? (isClaimable queueId) with
  | none => (s, false)
  | some entry =>
    if (markOf entry).any fun since => (now : ℚ) - since < claimTtlMs then (s, false)
    else
      s.writeEntries (modifyFirst (isClaimable queueId) (fun entry => entry.setProp "sendingSince" (time now)) all)

def releasePendingDrop (s : DropStorage) (queueId : String) : DropStorage :=
  let all := s.readEntries
  match all.find? fun entry => idOf entry = some queueId with
  | none => s
  | some entry =>
    if (entry.prop "sendingSince").isUndefined then s
    else
      (s.writeEntries (modifyFirst (fun entry => idOf entry = some queueId)
        (fun entry => entry.deleteProp "sendingSince") all)).1

end DropStorage
end Arald
