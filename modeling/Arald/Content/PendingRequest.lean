import Arald.Content.Metadata
import Arald.Foundations.OrderedMap

/-!
# The bookkeeping of one content request

`PendingContentEntry` of `node.ts` and the methods that work on one entry. The
indices of a content are handed out in ranges: a range is either being fetched
from a provider, or it waits in `unassignedRanges` for one. The first reply
decides the split, from the size it claims; what the first chunk reveals beyond
that is one more range.

The requests that a method sends are collected in `outbox`. Timers are not part
of an entry: that they go off is an event of the environment.
-/

namespace Arald

open Foundations

/-- Inclusive range of chunk indices. -/
structure ChunkRange where
  chunkStart : ℤ
  chunkEnd : ℤ
  deriving DecidableEq

instance : Membership ℤ ChunkRange := ⟨fun r i => r.chunkStart ≤ i ∧ i ≤ r.chunkEnd⟩

theorem ChunkRange.mem_iff {r : ChunkRange} {i : ℤ} : i ∈ r ↔ r.chunkStart ≤ i ∧ i ≤ r.chunkEnd :=
  Iff.rfl

/-- The range starts at an index, and is not empty. -/
def ChunkRange.Valid (r : ChunkRange) : Prop := 0 ≤ r.chunkStart ∧ r.chunkStart ≤ r.chunkEnd

instance (r : ChunkRange) (i : ℤ) : Decidable (i ∈ r) := decidable_of_iff _ ChunkRange.mem_iff.symm

structure PendingContentEntry where
  contentId : String
  /-- A query has been flooded for this content. -/
  queried : Bool := false
  /-- The first usable reply has been processed. -/
  sized : Bool := false
  /-- The real chunk count, learned from the first accepted chunk. -/
  totalChunks : Option ℤ := none
  /-- The metadata of the first usable reply. -/
  metadata : Option ContentMetadata := none
  /-- The indices that were accepted so far. -/
  receivedChunks : Finset ℤ := ∅
  /-- The range that each provider is fetching. -/
  activeFetches : OrderedMap String ChunkRange := .empty
  unassignedRanges : List ChunkRange := []
  /-- The highest index that any range decided so far has covered. -/
  rangeHighWaterMark : ℤ := -1
  /-- Providers that replied when there was no range for them. -/
  candidates : List String := []
  waiters : List ℕ := []
  /-- Requests that are about to be sent. -/
  outbox : List (String × ChunkRange) := []

namespace PendingContentEntry

def maxContentCandidates : ℕ := 16

def maxConcurrentContentFetches : ℕ := 2

/-! ### Handing out ranges -/

def requestRangeFromProvider (e : PendingContentEntry) (providerId : String) (range : ChunkRange) :
    PendingContentEntry :=
  { e with
    activeFetches := e.activeFetches.set providerId range
    outbox := e.outbox ++ [(providerId, range)] }

/-- The provider has no slot yet, and all slots are taken. -/
def atFetchLimit (e : PendingContentEntry) (providerId : String) : Bool :=
  !e.activeFetches.has providerId && maxConcurrentContentFetches ≤ e.activeFetches.size

/-- Put a provider to work on the first unassigned range, if there is one and a
slot for it; `none` when there is nothing to assign. -/
def tryAssignUnassignedRange (e : PendingContentEntry) (providerId : String) :
    Option PendingContentEntry :=
  if e.atFetchLimit providerId then none
  else
    match e.unassignedRanges with
    | [] => none
    | range :: rest => some ({ e with unassignedRanges := rest }.requestRangeFromProvider providerId range)

/-- Offer ranges to the candidates in turn, until one of them gets nothing. -/
def offerToCandidates (e : PendingContentEntry) : List String → PendingContentEntry
  | [] => { e with candidates := [] }
  | next :: rest =>
    match e.tryAssignUnassignedRange next with
    | some e => e.offerToCandidates rest
    | none => { e with candidates := next :: rest }

/-- Offer to the candidates first, then to the provider that just finished; an
empty id counts as no provider. -/
def tryKeepFetchesGoing (e : PendingContentEntry) (fallbackProviderId : Option String) :
    PendingContentEntry :=
  let e := e.offerToCandidates e.candidates
  match fallbackProviderId with
  | some providerId => if providerId = "" then e else (e.tryAssignUnassignedRange providerId).getD e
  | none => e

/-- Stop tracking the fetch of a provider. -/
def release (e : PendingContentEntry) (providerId : String) : PendingContentEntry :=
  { e with activeFetches := e.activeFetches.delete providerId }

/-- Put a range at the end of the unassigned ones. -/
def unassign (e : PendingContentEntry) (range : ChunkRange) : PendingContentEntry :=
  { e with unassignedRanges := e.unassignedRanges ++ [range] }

/-- A fetch has died: its range is unassigned again. -/
def abandonFetch (e : PendingContentEntry) (providerId : String) : PendingContentEntry :=
  match e.activeFetches.get? providerId with
  | some range => ((e.release providerId).unassign range).tryKeepFetchesGoing none
  | none => e

/-! ### Replies -/

/-- The first usable reply sizes the transfer. More than one chunk is split in
half: the front goes to the provider that replied, the back stays unassigned. -/
def sizeTransfer (e : PendingContentEntry) (source : String) (metadata : ContentMetadata) :
    PendingContentEntry :=
  let estimatedTotalChunks := chunkCountForSize metadata.size
  let e :=
    { e with
      sized := true
      metadata := some metadata
      rangeHighWaterMark := estimatedTotalChunks - 1 }
  if 1 < estimatedTotalChunks then
    let mid := (estimatedTotalChunks + 1) / 2
    (e.requestRangeFromProvider source ⟨0, mid - 1⟩).unassign ⟨mid, estimatedTotalChunks - 1⟩
  else e.requestRangeFromProvider source ⟨0, estimatedTotalChunks - 1⟩

/-- The provider is fetching for this request, or is remembered for it. -/
def knows (e : PendingContentEntry) (source : String) : Bool :=
  e.activeFetches.has source || e.candidates.contains source

/-- A provider found; `none` is metadata without a usable size. -/
def found (e : PendingContentEntry) (source : String) (metadata : Option ContentMetadata) :
    PendingContentEntry :=
  if e.knows source then e
  else if !e.sized then
    match metadata with
    | some metadata => e.sizeTransfer source metadata
    | none => e
  else
    match e.tryAssignUnassignedRange source with
    | some e => e
    | none =>
      if e.candidates.length < maxContentCandidates then
        { e with candidates := e.candidates ++ [source] }
      else e

/-- Record an accepted chunk. The first one fixes the total; whatever lies
beyond the ranges decided so far becomes an unassigned range. -/
def recordChunk (e : PendingContentEntry) (chunkIndex totalChunks : ℤ) : PendingContentEntry :=
  let total := e.totalChunks.getD totalChunks
  let e' :=
    { e with
      totalChunks := some total
      receivedChunks :=
        if chunkIndex < total then insert chunkIndex e.receivedChunks else e.receivedChunks }
  if e.totalChunks.isNone && e.rangeHighWaterMark < total - 1 then
    { e'.unassign ⟨e.rangeHighWaterMark + 1, total - 1⟩ with rangeHighWaterMark := total - 1 }
  else e'

/-- A provider says that it has sent its range. -/
def retire (e : PendingContentEntry) (source : String) : PendingContentEntry :=
  (e.release source).tryKeepFetchesGoing (some source)

/-- Every expected chunk was received. -/
def haveAll (e : PendingContentEntry) : Bool :=
  e.totalChunks.any fun total : ℤ => total ≤ e.receivedChunks.card

/-! ### Waiters -/

def join (e : PendingContentEntry) (waiter : ℕ) : PendingContentEntry :=
  { e with waiters := e.waiters ++ [waiter] }

def leave (e : PendingContentEntry) (waiter : ℕ) : PendingContentEntry :=
  { e with waiters := e.waiters.filter (· ≠ waiter) }

/-- The requests have been sent. -/
def flushed (e : PendingContentEntry) : PendingContentEntry := { e with outbox := [] }

section Lemmas
variable {e e' : PendingContentEntry} {providerId source : String} {range : ChunkRange}

/-! ### What handing out ranges leaves alone -/

/-- Only the assignment of ranges, and what is about to be sent, differ. -/
structure SameTransfer (e e' : PendingContentEntry) : Prop where
  contentId : e'.contentId = e.contentId
  queried : e'.queried = e.queried
  sized : e'.sized = e.sized
  totalChunks : e'.totalChunks = e.totalChunks
  metadata : e'.metadata = e.metadata
  receivedChunks : e'.receivedChunks = e.receivedChunks
  rangeHighWaterMark : e'.rangeHighWaterMark = e.rangeHighWaterMark
  waiters : e'.waiters = e.waiters

theorem SameTransfer.refl (e : PendingContentEntry) : SameTransfer e e :=
  ⟨rfl, rfl, rfl, rfl, rfl, rfl, rfl, rfl⟩

theorem SameTransfer.trans {e'' : PendingContentEntry} (h : SameTransfer e e')
    (h' : SameTransfer e' e'') : SameTransfer e e'' where
  contentId := h'.contentId.trans h.contentId
  queried := h'.queried.trans h.queried
  sized := h'.sized.trans h.sized
  totalChunks := h'.totalChunks.trans h.totalChunks
  metadata := h'.metadata.trans h.metadata
  receivedChunks := h'.receivedChunks.trans h.receivedChunks
  rangeHighWaterMark := h'.rangeHighWaterMark.trans h.rangeHighWaterMark
  waiters := h'.waiters.trans h.waiters

/-- An assignment takes the first unassigned range, within the limit. -/
theorem tryAssignUnassignedRange_eq_some :
    e.tryAssignUnassignedRange providerId = some e' ↔
      e.atFetchLimit providerId = false ∧ ∃ range rest, e.unassignedRanges = range :: rest ∧
        e' = { e with unassignedRanges := rest }.requestRangeFromProvider providerId range := by
  unfold tryAssignUnassignedRange
  cases e.atFetchLimit providerId with
  | true => simp
  | false =>
    cases e.unassignedRanges with
    | nil => simp
    | cons range rest => simp [eq_comm]

theorem tryAssignUnassignedRange_eq_none :
    e.tryAssignUnassignedRange providerId = none ↔
      e.atFetchLimit providerId = true ∨ e.unassignedRanges = [] := by
  unfold tryAssignUnassignedRange
  cases e.atFetchLimit providerId with
  | true => simp
  | false => cases e.unassignedRanges <;> simp

theorem tryAssignUnassignedRange_same (h : e.tryAssignUnassignedRange providerId = some e') :
    SameTransfer e e' := by
  obtain ⟨-, range, rest, -, rfl⟩ := tryAssignUnassignedRange_eq_some.mp h
  exact ⟨rfl, rfl, rfl, rfl, rfl, rfl, rfl, rfl⟩

theorem offerToCandidates_same (waiting : List String) :
    SameTransfer e (e.offerToCandidates waiting) := by
  induction waiting generalizing e with
  | nil => exact ⟨rfl, rfl, rfl, rfl, rfl, rfl, rfl, rfl⟩
  | cons next rest ih =>
    rw [offerToCandidates]
    cases hassign : e.tryAssignUnassignedRange next with
    | some e1 => exact (tryAssignUnassignedRange_same hassign).trans ih
    | none => exact ⟨rfl, rfl, rfl, rfl, rfl, rfl, rfl, rfl⟩

theorem tryAssignUnassignedRange_getD_same :
    SameTransfer e ((e.tryAssignUnassignedRange providerId).getD e) := by
  cases hassign : e.tryAssignUnassignedRange providerId with
  | some e1 => exact tryAssignUnassignedRange_same hassign
  | none => exact .refl e

theorem tryKeepFetchesGoing_same (fallbackProviderId : Option String) :
    SameTransfer e (e.tryKeepFetchesGoing fallbackProviderId) := by
  have hoffer : SameTransfer e (e.offerToCandidates e.candidates) := offerToCandidates_same _
  unfold tryKeepFetchesGoing
  dsimp only
  split
  · split
    · exact hoffer
    · exact hoffer.trans tryAssignUnassignedRange_getD_same
  · exact hoffer

theorem abandonFetch_same (e : PendingContentEntry) (providerId : String) :
    SameTransfer e (e.abandonFetch providerId) := by
  unfold abandonFetch
  split
  · next range _ =>
    have hunassign : SameTransfer e ((e.release providerId).unassign range) :=
      ⟨rfl, rfl, rfl, rfl, rfl, rfl, rfl, rfl⟩
    exact hunassign.trans (tryKeepFetchesGoing_same none)
  · exact .refl e

theorem retire_same (e : PendingContentEntry) (source : String) : SameTransfer e (e.retire source) := by
  have hrelease : SameTransfer e (e.release source) := ⟨rfl, rfl, rfl, rfl, rfl, rfl, rfl, rfl⟩
  exact hrelease.trans (tryKeepFetchesGoing_same (some source))

theorem flushed_same : SameTransfer e e.flushed := ⟨rfl, rfl, rfl, rfl, rfl, rfl, rfl, rfl⟩

end Lemmas

end PendingContentEntry
end Arald
