import Arald.Foundations.Runs
import Arald.Ingest.Payloads

/-!
# The drop queue of the phone

A drop that cannot be published is kept in the storage of the phone and sent
again later, for at most a day. Several flushes may be at work on the same
storage, from several tabs. Each works on a snapshot, and claims an entry before
it sends it. A claim lapses after a while, so that an entry whose page died can
be sent again.

Every operation on the storage is atomic, and every write succeeds. Sends are
asynchronous: between the claim of an entry and the end of its send, everything
else may happen. What was enqueued, sent, settled and handed back is logged.
-/

namespace Arald

open Foundations

namespace DropQueue

def maxPendingDrops : ℕ := 20

def pendingDropMaxAgeMs : ℤ := 24 * 60 * 60 * 1000

def claimTtlMs : ℤ := 30000

def maxDropLabelLength : ℕ := 100

def maxDropTextLength : ℕ := 4000

/-- `a || b`. -/
def orElse (a b : JsValue) : JsValue := if a.truthy then a else b

end DropQueue

open DropQueue

/-- A well-formed entry of the queue. -/
structure PendingDrop where
  queueId : String
  gateway : String
  text : String
  lat : ℚ
  lon : ℚ
  label : Option String
  kind : DropKind
  queuedAt : ℤ
  sendingSince : Option ℤ
  queueId_ne : queueId ≠ ""
  gateway_ne : gateway ≠ ""
  text_ne : text ≠ ""
  lat_le : |lat| ≤ 90
  lon_le : |lon| ≤ 180
  label_le : ∀ l ∈ label, utf16Length l ≤ maxDropLabelLength
  deriving DecidableEq

namespace PendingDrop

/-- The entry that a submitted form asks for; its id is `newId` unless the form has one. -/
def create (input : JsValue) (newId : String) (now : ℤ) : Option PendingDrop := do
  let queueId ← (DropQueue.orElse (input.prop "queueId") (.str newId)).string?
  let gateway ← (input.prop "gateway").string?
  let text ← (input.prop "text").string?
  let lat ← (input.prop "lat").finite?
  let lon ← (input.prop "lon").finite?
  let label ← optional? JsValue.string? (DropQueue.orElse (input.prop "label") .undefined)
  let kind ← (DropQueue.orElse (input.prop "kind") (.str "info")).string? >>= DropKind.ofString?
  if h : (queueId ≠ "" ∧ gateway ≠ "" ∧ text ≠ "" ∧ |lat| ≤ 90 ∧ |lon| ≤ 180 ∧
      ∀ l ∈ label, utf16Length l ≤ maxDropLabelLength) ∧ utf16Length text ≤ maxDropTextLength then
    return {
      queueId, gateway, text, lat, lon, label, kind
      queuedAt := now
      sendingSince := none
      queueId_ne := h.1.1
      gateway_ne := h.1.2.1
      text_ne := h.1.2.2.1
      lat_le := h.1.2.2.2.1
      lon_le := h.1.2.2.2.2.1
      label_le := h.1.2.2.2.2.2 }
  else none

def isPendingDropExpired (e : PendingDrop) (now : ℤ) : Bool := e.queuedAt + pendingDropMaxAgeMs ≤ now

def remainingLifetimeMs (e : PendingDrop) (now : ℤ) : ℤ :=
  min pendingDropMaxAgeMs (e.queuedAt + pendingDropMaxAgeMs - now)

/-- The entry apart from the mark of a claim. -/
def unmarked (e : PendingDrop) : PendingDrop := { e with sendingSince := none }

/-- A claim of the entry has not lapsed. -/
def isClaimed (e : PendingDrop) (now : ℤ) : Bool :=
  match e.sendingSince with
  | some since => now - since < claimTtlMs
  | none => false

@[simp] theorem unmarked_queueId (e : PendingDrop) : e.unmarked.queueId = e.queueId := rfl

@[simp] theorem unmarked_gateway (e : PendingDrop) : e.unmarked.gateway = e.gateway := rfl

@[simp] theorem unmarked_queuedAt (e : PendingDrop) : e.unmarked.queuedAt = e.queuedAt := rfl

@[simp] theorem unmarked_mark (e : PendingDrop) (since : Option ℤ) :
    unmarked { e with sendingSince := since } = e.unmarked := rfl

end PendingDrop

/-! ### The operations on the storage -/

namespace DropQueue

/-- The entries that live on, and those that have just been found expired. Only
the former stay in the storage. -/
def loadPendingDrops (storage : List PendingDrop) (now : ℤ) : List PendingDrop × List PendingDrop :=
  let all := storage.map fun e => if now < e.queuedAt then { e with queuedAt := now } else e
  (all.filter fun e => !e.isPendingDropExpired now, all.filter fun e => e.isPendingDropExpired now)

/-- The new storage, and whether `entry` was added to it; `none` when it is not saved. -/
def enqueuePendingDrop (storage : List PendingDrop) (entry : PendingDrop) :
    Option (List PendingDrop × Bool) :=
  if maxPendingDrops ≤ storage.length then none
  else if storage.any fun e => e.queueId = entry.queueId then some (storage, false)
  else some (storage ++ [entry], true)

def removePendingDrop (storage : List PendingDrop) (queueId : String) : List PendingDrop :=
  storage.filter fun e => e.queueId ≠ queueId

/-- Sets or clears the mark of the first entry with the id. -/
def mark (since : Option ℤ) (queueId : String) : List PendingDrop → List PendingDrop
  | [] => []
  | e :: storage =>
    if e.queueId = queueId then { e with sendingSince := since } :: storage
    else e :: mark since queueId storage

def claimPendingDrop (storage : List PendingDrop) (queueId : String) (now : ℤ) :
    Option (List PendingDrop) :=
  match storage.find? fun e => e.queueId = queueId with
  | none => none
  | some e => if e.isClaimed now then none else some (mark (some now) queueId storage)

def releasePendingDrop (storage : List PendingDrop) (queueId : String) : List PendingDrop :=
  mark none queueId storage

inductive SendFailure where
  | retry
  | throttled
  | reauth
  | discard
  | unsupported
  deriving DecidableEq

/-- The meaning of a failure by its status, which a transport failure does not have. -/
def classifyDropSendFailure : Option ℕ → SendFailure
  | none => .retry
  | some status =>
    if status = 401 then .reauth
    else if status = 429 then .throttled
    else if status = 400 ∨ status = 413 then .discard
    else if 400 ≤ status ∧ status < 500 ∧ status ≠ 408 then .unsupported
    else .retry

inductive SendOutcome where
  | succeeded
  | failed (status : Option ℕ)
  deriving DecidableEq

/-- The outcome ends the life of the entry. -/
def SendOutcome.closes : SendOutcome → Bool
  | .succeeded => true
  | .failed status => status = some 400 ∨ status = some 413

theorem classify_eq_discard_iff {status : Option ℕ} :
    classifyDropSendFailure status = .discard ↔ (SendOutcome.failed status).closes = true := by
  cases status with
  | none => simp [classifyDropSendFailure, SendOutcome.closes]
  | some status =>
    simp only [classifyDropSendFailure]
    split_ifs <;> simp [SendOutcome.closes] <;> omega

section
variable {storage storage' : List PendingDrop} {since : Option ℤ} {queueId : String} {now : ℤ}
  {e : PendingDrop}

@[simp] theorem unmarked_mark : (mark since queueId storage).map PendingDrop.unmarked =
    storage.map PendingDrop.unmarked := by
  induction storage with
  | nil => rfl
  | cons e storage ih =>
    simp only [mark]
    split_ifs
    · rfl
    · rw [List.map_cons, List.map_cons, ih]

/-- Marking leaves the entries with other ids as they are. -/
theorem mem_of_mem_mark (he : e ∈ mark since queueId storage) (hid : e.queueId ≠ queueId) :
    e ∈ storage := by
  induction storage with
  | nil => exact he
  | cons e' storage ih =>
    rw [mark] at he
    split_ifs at he with hid'
    · rcases List.mem_cons.mp he with rfl | he
      · exact absurd hid' hid
      · exact List.mem_cons_of_mem _ he
    · rcases List.mem_cons.mp he with rfl | he
      · exact List.mem_cons_self ..
      · exact List.mem_cons_of_mem _ (ih he)

/-- Where the ids are distinct, marking sets the mark of the only entry with the id. -/
theorem mark_of_mem (hids : (storage.map PendingDrop.queueId).Nodup)
    (he : e ∈ mark since queueId storage) (hid : e.queueId = queueId) : e.sendingSince = since := by
  induction storage with
  | nil => cases he
  | cons e' storage ih =>
    rw [List.map_cons, List.nodup_cons] at hids
    rw [mark] at he
    split_ifs at he with hid'
    · rcases List.mem_cons.mp he with rfl | he
      · rfl
      · exact absurd (hid'.trans hid.symm ▸ List.mem_map_of_mem he) hids.1
    · rcases List.mem_cons.mp he with rfl | he
      · exact absurd hid hid'
      · exact ih hids.2 he

/-- A claim succeeds on a stored entry whose claim, if any, has lapsed. -/
theorem claimPendingDrop_eq_some (h : claimPendingDrop storage queueId now = some storage') :
    storage' = mark (some now) queueId storage ∧
      ∃ e ∈ storage, e.queueId = queueId ∧ e.isClaimed now = false := by
  unfold claimPendingDrop at h
  split at h
  · cases h
  · next e hfind =>
    split_ifs at h with hclaimed
    cases h
    exact ⟨rfl, e, List.mem_of_find?_eq_some hfind, by simpa using List.find?_some hfind,
      Bool.eq_false_iff.mpr hclaimed⟩

/-- Nothing has been queued in the future, and loading only sorts the entries. -/
theorem loadPendingDrops_eq (h : ∀ e ∈ storage, e.queuedAt ≤ now) : loadPendingDrops storage now =
    (storage.filter fun e => !e.isPendingDropExpired now,
      storage.filter fun e => e.isPendingDropExpired now) := by
  have hsame : (storage.map fun e => if now < e.queuedAt then { e with queuedAt := now } else e) =
      storage := by
    rw [List.map_congr_left fun e he => if_neg (not_lt.mpr (h e he)), List.map_id']
  unfold loadPendingDrops
  dsimp only
  rw [hsame]

end

end DropQueue

/-! ### Flushes -/

inductive StoppedBy where
  | reauth
  | retry
  deriving DecidableEq

structure FlushResult where
  published : ℕ := 0
  discarded : ℕ := 0
  expired : ℕ := 0
  stoppedBy : Option StoppedBy := none
  deriving DecidableEq

/-- A run of `flushPendingDrops`. -/
structure Flush where
  gateway : String
  /-- What is left of the snapshot; its head is next, or being sent. -/
  pending : List PendingDrop
  /-- When the head was claimed, while it is being sent. -/
  sendingSince : Option ℤ
  result : FlushResult

namespace Flush

/-- The entry that is being sent, and the time of its claim. -/
def sending (f : Flush) : Option (PendingDrop × ℤ) :=
  match f.pending, f.sendingSince with
  | e :: _, some since => some (e, since)
  | _, _ => none

/-- On to the next entry. -/
def next (f : Flush) (rest : List PendingDrop) (result : FlushResult) : Flush :=
  { f with pending := rest, sendingSince := none, result }

@[simp] theorem sending_next (f : Flush) (rest : List PendingDrop) (result : FlushResult) :
    (f.next rest result).sending = none := by
  cases rest <;> rfl

end Flush

/-- The storage, the flushes at work on it, and the logs. -/
structure DropQueue where
  storage : List PendingDrop
  clock : ℤ
  flushes : List Flush
  enqueued : List PendingDrop
  /-- Every send, with the gateway of its flush. -/
  sends : List (PendingDrop × String)
  settled : List (PendingDrop × SendOutcome)
  /-- The entries handed to `onExpired`. -/
  handed : List PendingDrop

inductive DropQueueEvent where
  /-- The form was submitted at `now`, and its first send failed. -/
  | enqueue (input : JsValue) (newId : String) (now : ℤ)
  | flushStarted (gateway : String)
  /-- The flush turns to the next entry; its lifetime was read at `checked`. -/
  | attempt (i : ℕ) (checked : ℤ)
  | settled (i : ℕ) (outcome : SendOutcome)
  /-- The page of the flush goes away. -/
  | closed (i : ℕ)

namespace DropQueue

/-- The entry that the flush `i` is sending, and the time of its claim. -/
def sendingAt (s : DropQueue) (i : ℕ) : Option (PendingDrop × ℤ) := s.flushes[i]?.bind Flush.sending

def setFlush (s : DropQueue) (i : ℕ) (f : Flush) : DropQueue :=
  { s with flushes := s.flushes.set i f }

def startFlush (s : DropQueue) (gateway : String) : DropQueue :=
  let (pending, expired) := loadPendingDrops s.storage s.clock
  { s with
    storage := pending
    flushes := s.flushes ++ [⟨gateway, pending, none, { expired := expired.length }⟩]
    handed := s.handed ++ expired.map PendingDrop.unmarked }

def attempt (s : DropQueue) (i : ℕ) (f : Flush) (e : PendingDrop) (rest : List PendingDrop)
    (checked : ℤ) : DropQueue :=
  if e.gateway ≠ f.gateway then s.setFlush i (f.next rest f.result)
  else if e.remainingLifetimeMs checked ≤ 0 then
    { s.setFlush i (f.next rest { f.result with expired := f.result.expired + 1 }) with
      storage := removePendingDrop s.storage e.queueId
      handed := s.handed ++ [e.unmarked] }
  else
    match claimPendingDrop s.storage e.queueId s.clock with
    | none => s.setFlush i (f.next rest f.result)
    | some storage =>
      { s.setFlush i { f with sendingSince := some s.clock } with
        storage := storage
        sends := s.sends ++ [(e.unmarked, f.gateway)] }

/-- The end of the send of `e`. -/
def settle (s : DropQueue) (i : ℕ) (f : Flush) (e : PendingDrop) (rest : List PendingDrop)
    (outcome : SendOutcome) : DropQueue :=
  let s := { s with settled := s.settled ++ [(e.unmarked, outcome)] }
  match outcome with
  | .succeeded =>
    { s.setFlush i (f.next rest { f.result with published := f.result.published + 1 }) with
      storage := removePendingDrop s.storage e.queueId }
  | .failed status =>
    match classifyDropSendFailure status with
    | .discard =>
      { s.setFlush i (f.next rest { f.result with discarded := f.result.discarded + 1 }) with
        storage := removePendingDrop s.storage e.queueId }
    | .reauth =>
      { s.setFlush i (f.next [] { f.result with stoppedBy := some .reauth }) with
        storage := releasePendingDrop s.storage e.queueId }
    | .retry =>
      { s.setFlush i (f.next [] { f.result with stoppedBy := some .retry }) with
        storage := releasePendingDrop s.storage e.queueId }
    | .throttled | .unsupported =>
      { s.setFlush i (f.next rest f.result) with
        storage := releasePendingDrop s.storage e.queueId }

/-- An event at the present time. Every form gets an id of its own, which may come
back as long as its entry is stored. -/
def react (s : DropQueue) : DropQueueEvent → Option DropQueue
  | .enqueue input newId now =>
    if s.clock < now then none
    else
      match PendingDrop.create input newId now with
      | none => some s
      | some entry =>
        if (s.enqueued.any fun e => e.queueId = entry.queueId) ∧
            ¬s.storage.any fun e => e.queueId = entry.queueId then none
        else
          match enqueuePendingDrop s.storage entry with
          | none => some s
          | some (storage, added) =>
            some { s with storage, enqueued := if added then s.enqueued ++ [entry] else s.enqueued }
  | .flushStarted gateway => some (s.startFlush gateway)
  | .attempt i checked =>
    match s.flushes[i]? with
    | none => none
    | some f =>
      match f.pending, f.sendingSince with
      | e :: rest, none => if s.clock < checked then none else some (s.attempt i f e rest checked)
      | _, _ => none
  | .settled i outcome =>
    match s.flushes[i]? with
    | none => none
    | some f =>
      match f.pending, f.sendingSince with
      | e :: rest, some _ => some (s.settle i f e rest outcome)
      | _, _ => none
  | .closed i =>
    match s.flushes[i]? with
    | none => none
    | some f => some (s.setFlush i (f.next [] f.result))

/-- An event and its time; the clock does not step backwards. -/
def step (s : DropQueue) (e : DropQueueEvent × ℤ) : Option DropQueue :=
  if e.2 < s.clock then none else react { s with clock := e.2 } e.1

def system : System DropQueue (DropQueueEvent × ℤ) where
  Init s := ∃ clock, s = ⟨[], clock, [], [], [], [], []⟩
  step := step

/-- Every send in progress was claimed less than `claimTtlMs` ago. -/
def prompt (s : DropQueue) (e : DropQueueEvent × ℤ) : Bool :=
  s.flushes.all fun f =>
    match f.sending with
    | some (_, since) => e.2 < since + claimTtlMs
    | none => true

variable {s s' : DropQueue} {i j : ℕ} {f : Flush} {e e' : PendingDrop} {rest : List PendingDrop}
  {result : FlushResult} {since : ℤ}

/-! ### No entry is lost -/

/-- The life of the entry has ended: a send closed it, or its lifetime is over and
it was handed back. -/
def Closed (s : DropQueue) (e : PendingDrop) : Prop :=
  (∃ outcome, (e, outcome) ∈ s.settled ∧ outcome.closes = true) ∨
    (e ∈ s.handed ∧ e.isPendingDropExpired s.clock = true)

structure Conserved (s : DropQueue) : Prop where
  ids : (s.enqueued.map PendingDrop.queueId).Nodup
  queuedAt : ∀ e ∈ s.enqueued, e.queuedAt ≤ s.clock
  stored : ∀ e ∈ s.storage, e.unmarked ∈ s.enqueued
  storedIds : (s.storage.map PendingDrop.queueId).Nodup
  snapshots : ∀ f ∈ s.flushes, ∀ e ∈ f.pending, e.unmarked ∈ s.enqueued
  kept : ∀ e ∈ s.enqueued, e ∈ s.storage.map PendingDrop.unmarked ∨ s.Closed e
  sends : ∀ send ∈ s.sends, send.1 ∈ s.enqueued ∧ send.1.gateway = send.2

namespace Conserved

theorem tick (h : Conserved s) {now : ℤ} (hclock : s.clock ≤ now) : Conserved { s with clock := now } where
  ids := h.ids
  queuedAt e he := (h.queuedAt e he).trans hclock
  stored := h.stored
  storedIds := h.storedIds
  snapshots := h.snapshots
  sends := h.sends
  kept e he := by
    refine (h.kept e he).imp_right (Or.imp_right fun hhanded => ⟨hhanded.1, ?_⟩)
    have hexpired : e.queuedAt + pendingDropMaxAgeMs ≤ s.clock := of_decide_eq_true hhanded.2
    exact decide_eq_true (hexpired.trans hclock)

/-- A step that enqueues nothing keeps the entries that it does not close. -/
theorem change (h : Conserved s) (henqueued : s'.enqueued = s.enqueued) (hclock : s'.clock = s.clock)
    (hstorage : (s'.storage.map PendingDrop.unmarked).Sublist (s.storage.map PendingDrop.unmarked))
    (hkept : ∀ e ∈ s.storage, e.unmarked ∈ s'.storage.map PendingDrop.unmarked ∨ s'.Closed e.unmarked)
    (hsettled : s.settled ⊆ s'.settled) (hhanded : s.handed ⊆ s'.handed)
    (hflushes : ∀ f ∈ s'.flushes, ∀ e ∈ f.pending, e.unmarked ∈ s.enqueued)
    (hsends : ∀ send ∈ s'.sends, send.1 ∈ s.enqueued ∧ send.1.gateway = send.2) : Conserved s' where
  ids := henqueued ▸ h.ids
  queuedAt := by rw [henqueued, hclock]; exact h.queuedAt
  stored e he := by
    obtain ⟨e', he', hsame⟩ := List.mem_map.mp (hstorage.subset (List.mem_map_of_mem he))
    rw [henqueued, ← hsame]
    exact h.stored e' he'
  storedIds := by
    have hids := hstorage.map PendingDrop.queueId
    simp only [List.map_map, Function.comp_def, PendingDrop.unmarked_queueId] at hids
    exact h.storedIds.sublist hids
  snapshots := by rw [henqueued]; exact hflushes
  sends := by rw [henqueued]; exact hsends
  kept e he := by
    rw [henqueued] at he
    rcases h.kept e he with hmem | ⟨outcome, hmem, hcloses⟩ | ⟨hmem, hexpired⟩
    · obtain ⟨e', he', rfl⟩ := List.mem_map.mp hmem
      exact hkept e' he'
    · exact .inr (.inl ⟨outcome, hsettled hmem, hcloses⟩)
    · exact .inr (.inr ⟨hhanded hmem, hclock ▸ hexpired⟩)

/-- Removing an entry loses no other one. -/
theorem removed (h : Conserved s) (he : e.unmarked ∈ s.enqueued) (hclosed : s'.Closed e.unmarked) :
    ∀ e' ∈ s.storage, e'.unmarked ∈ (removePendingDrop s.storage e.queueId).map PendingDrop.unmarked ∨
      s'.Closed e'.unmarked := by
  intro e' he'
  rcases eq_or_ne e'.queueId e.queueId with hid | hid
  · have hsame : e'.unmarked = e.unmarked := List.inj_on_of_nodup_map h.ids (h.stored e' he') he hid
    exact .inr (hsame ▸ hclosed)
  · exact .inl (List.mem_map_of_mem (List.mem_filter.mpr ⟨he', decide_eq_true hid⟩))

theorem removed_sublist (storage : List PendingDrop) (queueId : String) :
    ((removePendingDrop storage queueId).map PendingDrop.unmarked).Sublist
      (storage.map PendingDrop.unmarked) :=
  List.filter_sublist.map _

/-- Replacing a snapshot by a part of one. -/
theorem snapshots_set (h : Conserved s) (hf : s.flushes[i]? = some f) {g : Flush}
    (hg : g.pending ⊆ f.pending) : ∀ f ∈ s.flushes.set i g, ∀ e ∈ f.pending, e.unmarked ∈ s.enqueued := by
  intro f' hf' e he
  rcases List.mem_or_eq_of_mem_set hf' with hf' | rfl
  · exact h.snapshots f' hf' e he
  · exact h.snapshots f (List.mem_of_getElem? hf) e (hg he)

theorem setFlush (h : Conserved s) (hf : s.flushes[i]? = some f) {g : Flush}
    (hg : g.pending ⊆ f.pending) : Conserved (s.setFlush i g) :=
  h.change rfl rfl (List.Sublist.refl _) (fun _ he => .inl (List.mem_map_of_mem he))
    (List.Subset.refl _) (List.Subset.refl _) (h.snapshots_set hf hg) h.sends

theorem startFlush (h : Conserved s) (gateway : String) : Conserved (s.startFlush gateway) := by
  have hqueuedAt : ∀ e ∈ s.storage, e.queuedAt ≤ s.clock :=
    fun e he => h.queuedAt e.unmarked (h.stored e he)
  unfold DropQueue.startFlush
  rw [loadPendingDrops_eq hqueuedAt]
  dsimp only
  refine h.change rfl rfl (List.filter_sublist.map _) (fun e he => ?_) (List.Subset.refl _)
    (List.subset_append_left _ _) (fun f hf e he => ?_) h.sends
  · cases hexpired : e.isPendingDropExpired s.clock
    · exact .inl (List.mem_map_of_mem (List.mem_filter.mpr ⟨he, by rw [hexpired]; rfl⟩))
    · refine .inr (.inr ⟨List.mem_append_right _ ?_, hexpired⟩)
      exact List.mem_map_of_mem (List.mem_filter.mpr ⟨he, hexpired⟩)
  · rcases List.mem_append.mp hf with hf | hf
    · exact h.snapshots f hf e he
    · obtain rfl := List.mem_singleton.mp hf
      exact h.stored e (List.mem_of_mem_filter he)

theorem attempt (h : Conserved s) (hf : s.flushes[i]? = some f) (hpending : f.pending = e :: rest)
    {checked : ℤ} (hchecked : checked ≤ s.clock) : Conserved (s.attempt i f e rest checked) := by
  have hrest : rest ⊆ f.pending := hpending ▸ List.subset_cons_self e rest
  have he : e.unmarked ∈ s.enqueued :=
    h.snapshots f (List.mem_of_getElem? hf) e (by rw [hpending]; exact List.mem_cons_self ..)
  unfold DropQueue.attempt
  split_ifs with hgateway hlifetime
  · exact h.setFlush hf hrest
  · have hexpired : e.queuedAt + pendingDropMaxAgeMs ≤ s.clock := by
      unfold PendingDrop.remainingLifetimeMs pendingDropMaxAgeMs at hlifetime
      unfold pendingDropMaxAgeMs
      omega
    refine h.change rfl rfl (removed_sublist _ _) (h.removed he (.inr ⟨?_, decide_eq_true hexpired⟩))
      (List.Subset.refl _) (List.subset_append_left _ _) (h.snapshots_set hf hrest) h.sends
    exact List.mem_append_right _ (List.mem_singleton_self _)
  · split
    · exact h.setFlush hf hrest
    · next storage hclaim =>
      obtain ⟨rfl, -⟩ := claimPendingDrop_eq_some hclaim
      refine h.change rfl rfl ?_ (fun e' he' => .inl ?_) (List.Subset.refl _) (List.Subset.refl _)
        (h.snapshots_set hf (List.Subset.refl _)) (fun send hsend => ?_)
      · rw [unmarked_mark]
      · rw [unmarked_mark]
        exact List.mem_map_of_mem he'
      · rcases List.mem_append.mp hsend with hsend | hsend
        · exact h.sends send hsend
        · obtain rfl := List.mem_singleton.mp hsend
          exact ⟨he, not_not.mp hgateway⟩

/-- A send that closes its entry removes it; any other leaves it in the storage. -/
theorem settle (h : Conserved s) (hf : s.flushes[i]? = some f) (hpending : f.pending = e :: rest)
    (outcome : SendOutcome) : Conserved (s.settle i f e rest outcome) := by
  have hrest : rest ⊆ f.pending := hpending ▸ List.subset_cons_self e rest
  have he : e.unmarked ∈ s.enqueued :=
    h.snapshots f (List.mem_of_getElem? hf) e (by rw [hpending]; exact List.mem_cons_self ..)
  have hlog : (e.unmarked, outcome) ∈ s.settled ++ [(e.unmarked, outcome)] :=
    List.mem_append_right _ (List.mem_singleton_self _)
  have hremoved : ∀ result, outcome.closes = true → Conserved
      { s with
        settled := s.settled ++ [(e.unmarked, outcome)]
        flushes := s.flushes.set i (f.next rest result)
        storage := removePendingDrop s.storage e.queueId } := fun result hcloses =>
    h.change rfl rfl (removed_sublist _ _) (h.removed he (.inl ⟨outcome, hlog, hcloses⟩))
      (List.subset_append_left _ _) (List.Subset.refl _) (h.snapshots_set hf hrest) h.sends
  have hreleased : ∀ (rest' : List PendingDrop) result, rest' ⊆ f.pending → Conserved
      { s with
        settled := s.settled ++ [(e.unmarked, outcome)]
        flushes := s.flushes.set i (f.next rest' result)
        storage := releasePendingDrop s.storage e.queueId } := by
    intro rest' result hrest'
    refine h.change rfl rfl ?_ (fun e' he' => .inl ?_) (List.subset_append_left _ _)
      (List.Subset.refl _) (h.snapshots_set hf hrest') h.sends
    · rw [releasePendingDrop, unmarked_mark]
    · rw [releasePendingDrop, unmarked_mark]
      exact List.mem_map_of_mem he'
  unfold DropQueue.settle
  cases outcome with
  | succeeded => exact hremoved _ rfl
  | failed status =>
    dsimp only
    cases hclass : classifyDropSendFailure status with
    | discard => exact hremoved _ (classify_eq_discard_iff.mp hclass)
    | reauth => exact hreleased [] _ (List.nil_subset _)
    | retry => exact hreleased [] _ (List.nil_subset _)
    | throttled => exact hreleased rest _ hrest
    | unsupported => exact hreleased rest _ hrest

theorem enqueue (h : Conserved s) (hnew : e.sendingSince = none) (hnow : e.queuedAt ≤ s.clock)
    (hfresh : ∀ e' ∈ s.enqueued, e'.queueId ≠ e.queueId) :
    Conserved { s with storage := s.storage ++ [e], enqueued := s.enqueued ++ [e] } := by
  have hunmarked : e.unmarked = e := by rw [PendingDrop.unmarked, ← hnew]
  have hold : ∀ e' ∈ s.enqueued, e' ∈ s.enqueued ++ [e] := fun e' => List.mem_append_left _
  refine ⟨?_, ?_, ?_, ?_, fun f hf e' he' => hold _ (h.snapshots f hf e' he'), ?_,
    fun send hsend => (h.sends send hsend).imp_left (hold _)⟩
  · rw [List.map_append]
    refine h.ids.append (List.nodup_singleton _) (List.disjoint_singleton.mpr fun hmem => ?_)
    obtain ⟨e', he', hid⟩ := List.mem_map.mp hmem
    exact hfresh e' he' hid
  · intro e' he'
    rcases List.mem_append.mp he' with he' | he'
    · exact h.queuedAt e' he'
    · obtain rfl := List.mem_singleton.mp he'
      exact hnow
  · intro e' he'
    rcases List.mem_append.mp he' with he' | he'
    · exact hold _ (h.stored e' he')
    · obtain rfl := List.mem_singleton.mp he'
      exact List.mem_append_right _ (List.mem_singleton.mpr hunmarked)
  · rw [List.map_append]
    refine h.storedIds.append (List.nodup_singleton _) (List.disjoint_singleton.mpr fun hmem => ?_)
    obtain ⟨e', he', hid⟩ := List.mem_map.mp hmem
    exact hfresh _ (h.stored e' he') hid
  · intro e' he'
    rw [List.map_append]
    rcases List.mem_append.mp he' with he' | he'
    · exact (h.kept e' he').imp_left (List.mem_append_left _)
    · obtain rfl := List.mem_singleton.mp he'
      exact .inl (List.mem_append_right _ (List.mem_singleton.mpr hunmarked.symm))

end Conserved

/-- A new entry is unmarked, and dates from the submission of the form. -/
theorem create_eq_some {input : JsValue} {newId : String} {now : ℤ}
    (h : PendingDrop.create input newId now = some e) : e.sendingSince = none ∧ e.queuedAt = now := by
  simp only [PendingDrop.create, Option.bind_eq_bind, Option.bind_eq_some_iff] at h
  obtain ⟨queueId, -, gateway, -, text, -, lat, -, lon, -, label, -, kind, -, hentry⟩ := h
  split_ifs at hentry
  cases hentry
  exact ⟨rfl, rfl⟩

/-- What enqueuing does: nothing, or a new entry with a fresh id. -/
theorem react_enqueue {input : JsValue} {newId : String} {now : ℤ}
    (h : s.react (.enqueue input newId now) = some s') :
    s' = s ∨ ∃ e : PendingDrop, e.sendingSince = none ∧ e.queuedAt ≤ s.clock ∧
      (∀ e' ∈ s.enqueued, e'.queueId ≠ e.queueId) ∧
      s' = { s with storage := s.storage ++ [e], enqueued := s.enqueued ++ [e] } := by
  simp only [react] at h
  split_ifs at h with hnow
  split at h
  · cases h
    exact .inl rfl
  · next entry hcreate =>
    obtain ⟨hmark, rfl⟩ := create_eq_some hcreate
    split_ifs at h with hid
    unfold enqueuePendingDrop at h
    split_ifs at h with hfull hstored
    · cases h
      exact .inl rfl
    · cases h
      exact .inl rfl
    · cases h
      refine .inr ⟨entry, hmark, not_lt.mp hnow, fun e' he' hsame => hid ⟨?_, hstored⟩, rfl⟩
      exact List.any_eq_true.mpr ⟨e', he', decide_eq_true hsame⟩

theorem Conserved.react {event : DropQueueEvent} (h : Conserved s) (hstep : s.react event = some s') :
    Conserved s' := by
  cases event with
  | enqueue input newId now =>
    obtain rfl | ⟨e, hnew, hnow, hfresh, rfl⟩ := react_enqueue hstep
    · exact h
    · exact h.enqueue hnew hnow hfresh
  | flushStarted gateway =>
    cases hstep
    exact h.startFlush gateway
  | attempt i checked =>
    simp only [DropQueue.react] at hstep
    split at hstep
    · cases hstep
    · next f hf =>
      split at hstep
      · next e rest hpending _ =>
        split_ifs at hstep with hchecked
        cases hstep
        exact h.attempt hf hpending (not_lt.mp hchecked)
      · cases hstep
  | settled i outcome =>
    simp only [DropQueue.react] at hstep
    split at hstep
    · cases hstep
    · next f hf =>
      split at hstep
      · next e rest since hpending _ =>
        cases hstep
        exact h.settle hf hpending outcome
      · cases hstep
  | closed i =>
    simp only [DropQueue.react] at hstep
    split at hstep
    · cases hstep
    · next f hf =>
      cases hstep
      exact h.setFlush hf (List.nil_subset _)

/-! ### No entry is sent twice at once -/

/-- A send in progress keeps its claim. -/
structure Exclusive (s : DropQueue) : Prop where
  marked : ∀ i e since, s.sendingAt i = some (e, since) →
    ∀ e' ∈ s.storage, e'.queueId = e.queueId → e'.sendingSince = some since
  apart : ∀ i j e e' since since', s.sendingAt i = some (e, since) → s.sendingAt j = some (e', since') →
    e.queueId = e'.queueId → i = j

/-- The sends in progress are of entries that were enqueued. -/
theorem Conserved.sendingAt (h : Conserved s) (hsending : s.sendingAt i = some (e, since)) :
    e.unmarked ∈ s.enqueued := by
  obtain ⟨f, hf, hsending⟩ := Option.bind_eq_some_iff.mp hsending
  refine h.snapshots f (List.mem_of_getElem? hf) e ?_
  unfold Flush.sending at hsending
  split at hsending
  · next hpending _ =>
    cases hsending
    rw [hpending]
    exact List.mem_cons_self ..
  · cases hsending

theorem sendingAt_setFlush (hf : s.flushes[i]? = some f) (g : Flush) (j : ℕ) :
    (s.setFlush i g).sendingAt j = if i = j then g.sending else s.sendingAt j := by
  obtain ⟨hi, -⟩ := List.getElem?_eq_some_iff.mp hf
  unfold sendingAt setFlush
  dsimp only
  rw [List.getElem?_set]
  split_ifs with hij
  · rfl
  · rfl

/-- A flush that goes on to its next entry sends nothing any more. -/
theorem sendingAt_next (hf : s.flushes[i]? = some f) {p : PendingDrop × ℤ}
    (h : (s.setFlush i (f.next rest result)).sendingAt j = some p) : i ≠ j ∧ s.sendingAt j = some p := by
  rw [sendingAt_setFlush hf] at h
  split_ifs at h with hij
  · rw [Flush.sending_next] at h
    cases h
  · exact ⟨hij, h⟩

namespace Exclusive

/-- A step that starts no send, and changes no entry that is being sent. -/
theorem change (h : Exclusive s) (hsending : ∀ i p, s'.sendingAt i = some p → s.sendingAt i = some p)
    (hstorage : ∀ i e since, s'.sendingAt i = some (e, since) →
      ∀ e' ∈ s'.storage, e'.queueId = e.queueId → e' ∈ s.storage) : Exclusive s' where
  marked i e since hi e' he' hid := h.marked i e since (hsending i _ hi) e' (hstorage i e since hi e' he' hid) hid
  apart i j e e' since since' hi hj := h.apart i j e e' since since' (hsending i _ hi) (hsending j _ hj)

theorem next (h : Exclusive s) (hf : s.flushes[i]? = some f) (rest : List PendingDrop)
    (result : FlushResult) : Exclusive (s.setFlush i (f.next rest result)) :=
  h.change (fun _ _ hj => (sendingAt_next hf hj).2) fun _ _ _ _ _ he' _ => he'

theorem startFlush (h : Exclusive s) (hs : Conserved s) (gateway : String) :
    Exclusive (s.startFlush gateway) := by
  have hqueuedAt : ∀ e ∈ s.storage, e.queuedAt ≤ s.clock :=
    fun e he => hs.queuedAt e.unmarked (hs.stored e he)
  unfold DropQueue.startFlush
  rw [loadPendingDrops_eq hqueuedAt]
  refine h.change (fun i p hi => ?_) fun i e since hi e' he' _ => List.mem_of_mem_filter he'
  obtain ⟨f, hf, hsending⟩ := Option.bind_eq_some_iff.mp hi
  dsimp only at hf
  rw [List.getElem?_append] at hf
  split_ifs at hf
  · exact Option.bind_eq_some_iff.mpr ⟨f, hf, hsending⟩
  · -- the new flush has not sent anything yet
    obtain rfl := List.mem_singleton.mp (List.mem_of_getElem? hf)
    unfold Flush.sending at hsending
    split at hsending
    · next hnone => cases hnone
    · cases hsending

/-- The claim of an entry, at a time when every older send is prompt. -/
theorem claim (h : Exclusive s) (hs : Conserved s) (hf : s.flushes[i]? = some f)
    (hpending : f.pending = e :: rest) {storage : List PendingDrop}
    (hclaim : claimPendingDrop s.storage e.queueId s.clock = some storage)
    (hprompt : ∀ j e since, s.sendingAt j = some (e, since) → s.clock < since + claimTtlMs)
    (sends : List (PendingDrop × String)) :
    Exclusive { s.setFlush i { f with sendingSince := some s.clock } with storage, sends } := by
  obtain ⟨rfl, e₀, he₀, hid₀, hlapsed⟩ := claimPendingDrop_eq_some hclaim
  have hsending : ∀ j, (s.setFlush i { f with sendingSince := some s.clock }).sendingAt j =
      if i = j then some (e, s.clock) else s.sendingAt j := by
    intro j
    rw [sendingAt_setFlush hf, Flush.sending, hpending]
  -- the entry would still be claimed if it were being sent
  have hidle : ∀ j e' since, s.sendingAt j = some (e', since) → e'.queueId ≠ e.queueId := by
    intro j e' since hj hid
    have hmark := h.marked j e' since hj e₀ he₀ (hid₀.trans hid.symm)
    have hrecent := hprompt j e' since hj
    rw [PendingDrop.isClaimed, hmark] at hlapsed
    have hold : ¬s.clock - since < claimTtlMs := of_decide_eq_false hlapsed
    omega
  constructor
  · intro j e' since hj e'' he'' hid
    have hj' := (hsending j).symm.trans hj
    split_ifs at hj' with hij
    · cases hj'
      exact mark_of_mem hs.storedIds he'' hid
    · refine h.marked j e' since hj' e'' (mem_of_mem_mark he'' ?_) hid
      exact hid.trans_ne (hidle j e' since hj')
  · intro j k e₁ e₂ since₁ since₂ hj hk hid
    have hj' := (hsending j).symm.trans hj
    have hk' := (hsending k).symm.trans hk
    split_ifs at hj' hk' with hij hik
    · exact hij.symm.trans hik
    · cases hj'
      exact absurd hid.symm (hidle k e₂ since₂ hk')
    · cases hk'
      exact absurd hid (hidle j e₁ since₁ hj')
    · exact h.apart j k e₁ e₂ since₁ since₂ hj' hk' hid

theorem attempt (h : Exclusive s) (hs : Conserved s) (hf : s.flushes[i]? = some f)
    (hpending : f.pending = e :: rest)
    (hprompt : ∀ j e since, s.sendingAt j = some (e, since) → s.clock < since + claimTtlMs)
    (checked : ℤ) : Exclusive (s.attempt i f e rest checked) := by
  unfold DropQueue.attempt
  split_ifs with hgateway hlifetime
  · exact h.next hf rest _
  · exact h.change (fun _ _ hj => (sendingAt_next hf hj).2) fun _ _ _ _ _ he' _ => List.mem_of_mem_filter he'
  · split
    · exact h.next hf rest _
    · next storage hclaim => exact h.claim hs hf hpending hclaim hprompt _

/-- The entry of a send that ends is marked for that send alone. -/
theorem settle (h : Exclusive s) (hf : s.flushes[i]? = some f) (hsending : s.sendingAt i = some (e, since))
    (outcome : SendOutcome) : Exclusive (s.settle i f e rest outcome) := by
  have hremoved : ∀ result, Exclusive
      { s with
        settled := s.settled ++ [(e.unmarked, outcome)]
        flushes := s.flushes.set i (f.next rest result)
        storage := removePendingDrop s.storage e.queueId } := fun result =>
    h.change (fun _ _ hj => (sendingAt_next hf hj).2) fun _ _ _ _ _ he' _ => List.mem_of_mem_filter he'
  have hreleased : ∀ (rest' : List PendingDrop) result, Exclusive
      { s with
        settled := s.settled ++ [(e.unmarked, outcome)]
        flushes := s.flushes.set i (f.next rest' result)
        storage := releasePendingDrop s.storage e.queueId } := by
    intro rest' result
    refine h.change (fun _ _ hj => (sendingAt_next hf hj).2) fun j e' since' hj e'' he'' hid => ?_
    obtain ⟨hij, hj'⟩ := sendingAt_next hf hj
    refine mem_of_mem_mark he'' fun hsame => hij ?_
    exact h.apart i j e e' since since' hsending hj' (hsame.symm.trans hid)
  unfold DropQueue.settle
  cases outcome with
  | succeeded => exact hremoved _
  | failed status =>
    dsimp only
    cases classifyDropSendFailure status with
    | discard => exact hremoved _
    | reauth => exact hreleased [] _
    | retry => exact hreleased [] _
    | throttled => exact hreleased rest _
    | unsupported => exact hreleased rest _

theorem react {event : DropQueueEvent} (h : Exclusive s) (hs : Conserved s)
    (hprompt : ∀ j e since, s.sendingAt j = some (e, since) → s.clock < since + claimTtlMs)
    (hstep : s.react event = some s') : Exclusive s' := by
  cases event with
  | enqueue input newId now =>
    obtain rfl | ⟨e, -, -, hfresh, rfl⟩ := react_enqueue hstep
    · exact h
    · refine h.change (fun _ _ hi => hi) fun i e' since hi e'' he'' hid => ?_
      rcases List.mem_append.mp he'' with he'' | he''
      · exact he''
      · -- an entry that is being sent has an id of its own
        obtain rfl := List.mem_singleton.mp he''
        exact absurd hid.symm (hfresh e'.unmarked (hs.sendingAt hi))
  | flushStarted gateway =>
    cases hstep
    exact h.startFlush hs gateway
  | attempt i checked =>
    simp only [DropQueue.react] at hstep
    split at hstep
    · cases hstep
    · next f hf =>
      split at hstep
      · next e rest hpending _ =>
        split_ifs at hstep
        cases hstep
        exact h.attempt hs hf hpending hprompt checked
      · cases hstep
  | settled i outcome =>
    simp only [DropQueue.react] at hstep
    split at hstep
    · cases hstep
    · next f hf =>
      split at hstep
      · next e rest since hpending hsince =>
        cases hstep
        have hsending : s.sendingAt i = some (e, since) := by
          rw [sendingAt, hf, Option.bind_some, Flush.sending, hpending, hsince]
        exact h.settle hf hsending outcome
      · cases hstep
  | closed i =>
    simp only [DropQueue.react] at hstep
    split at hstep
    · cases hstep
    · next f hf =>
      cases hstep
      exact h.next hf [] _

end Exclusive

theorem init_conserved (h : system.Init s) : Conserved s := by
  obtain ⟨clock, rfl⟩ := h
  exact ⟨List.nodup_nil, by simp, by simp, List.nodup_nil, by simp, by simp, by simp⟩

theorem step_eq_some {event : DropQueueEvent × ℤ} (h : step s event = some s') :
    s.clock ≤ event.2 ∧ react { s with clock := event.2 } event.1 = some s' := by
  unfold step at h
  split_ifs at h with hclock
  exact ⟨not_lt.mp hclock, h⟩

theorem conserved {C : DropQueue → DropQueueEvent × ℤ → Prop} (h : system.ReachableUnder C s) :
    Conserved s := by
  apply h.invariant (I := Conserved)
  · exact fun s => init_conserved
  · intro s event s' hs _ hstep
    obtain ⟨hclock, hreact⟩ := step_eq_some hstep
    exact (hs.tick hclock).react hreact

theorem exclusive (h : system.ReachableUnder (fun s e => s.prompt e = true) s) : Exclusive s := by
  apply h.invariant_of (I := Exclusive) (J := Conserved)
  · exact fun s => conserved
  · rintro _ ⟨clock, rfl⟩
    exact ⟨fun i e since hi => by simp [sendingAt] at hi, fun i j e e' since since' hi => by
      simp [sendingAt] at hi⟩
  · intro s event s' hs hexclusive hprompt hstep _
    obtain ⟨hclock, hreact⟩ := step_eq_some hstep
    have htick : Exclusive { s with clock := event.2 } :=
      hexclusive.change (fun _ _ hi => hi) fun _ _ _ _ _ he' _ => he'
    refine htick.react (hs.tick hclock) (fun j e since hj => ?_) hreact
    obtain ⟨f, hf, hsending⟩ := Option.bind_eq_some_iff.mp hj
    have hrecent := List.all_eq_true.mp hprompt f (List.mem_of_getElem? hf)
    rw [hsending] at hrecent
    exact of_decide_eq_true hrecent

/-- An enqueued entry is stored until a send of it succeeds or is refused for good,
or its lifetime ends and it is handed back; it is sent for its own gateway only,
and never twice at once. -/
theorem drops_conserved (h : system.ReachableUnder (fun s e => s.prompt e = true) s) :
    (∀ e ∈ s.enqueued, (∃ e' ∈ s.storage, e'.unmarked = e) ∨
      (∃ outcome, (e, outcome) ∈ s.settled ∧
        (outcome = .succeeded ∨ outcome = .failed (some 400) ∨ outcome = .failed (some 413))) ∨
      (e ∈ s.handed ∧ e.queuedAt + pendingDropMaxAgeMs ≤ s.clock)) ∧
    (∀ send ∈ s.sends, send.1 ∈ s.enqueued ∧ send.1.gateway = send.2) ∧
    ∀ i j e e' since since', s.sendingAt i = some (e, since) → s.sendingAt j = some (e', since') →
      e.queueId = e'.queueId → i = j := by
  have hconserved := conserved h
  refine ⟨fun e he => ?_, hconserved.sends, (exclusive h).apart⟩
  rcases hconserved.kept e he with hmem | ⟨outcome, hmem, hcloses⟩ | ⟨hmem, hexpired⟩
  · exact .inl (List.mem_map.mp hmem)
  · refine .inr (.inl ⟨outcome, hmem, ?_⟩)
    cases outcome with
    | succeeded => exact .inl rfl
    | failed status => simpa [SendOutcome.closes] using hcloses
  · exact .inr (.inr ⟨hmem, of_decide_eq_true hexpired⟩)

/-! ### Two tabs -/

def notice (text : String) : JsValue :=
  .obj [("text", .str text), ("lat", .num (.finite 45)), ("lon", .num (.finite 9)), ("label", .str ""),
    ("kind", .str "hazard"), ("gateway", .str "box")]

/-- Two tabs flush the same two entries: each is sent by one of them, the first is
published, and the second stays when the gateway throttles it. -/
theorem drops_conserved_tabs :
    ∃ s, system.ReachableUnder (fun s e => s.prompt e = true) s ∧
      s.enqueued.map PendingDrop.queueId = ["q1", "q2"] ∧ s.storage.map PendingDrop.queueId = ["q2"] ∧
      s.settled.map Prod.snd = [.succeeded, .failed (some 429)] ∧
      ∀ e ∈ s.enqueued, (∃ e' ∈ s.storage, e'.unmarked = e) ∨
        (∃ outcome, (e, outcome) ∈ s.settled ∧
          (outcome = .succeeded ∨ outcome = .failed (some 400) ∨ outcome = .failed (some 413))) ∨
        (e ∈ s.handed ∧ e.queuedAt + pendingDropMaxAgeMs ≤ s.clock) := by
  have hrun : (((system.runUnder (fun s e => s.prompt e) ⟨[], 0, [], [], [], [], []⟩
      [(.enqueue (notice "ice") "q1" 0, 1), (.enqueue (notice "rocks") "q2" 1, 2), (.flushStarted "box", 3),
        (.flushStarted "box", 3), (.attempt 0 4, 4), (.attempt 1 4, 5), (.attempt 1 6, 6),
        (.settled 0 .succeeded, 7), (.attempt 0 7, 8), (.settled 1 (.failed (some 429)), 9)]).map
      fun s => (s.enqueued.map PendingDrop.queueId, s.storage.map PendingDrop.queueId,
        s.settled.map Prod.snd))) = some (["q1", "q2"], ["q2"], [.succeeded, .failed (some 429)]) := by
    decide
  obtain ⟨s, hs, hlog⟩ := Option.map_eq_some_iff.mp hrun
  simp only [Prod.mk.injEq] at hlog
  obtain ⟨henqueued, hstorage, hsettled⟩ := hlog
  have hreach : system.ReachableUnder (fun s e => s.prompt e = true) s :=
    System.reachableUnder_of_runUnder ⟨_, rfl⟩ hs
  exact ⟨s, hreach, henqueued, hstorage, hsettled, (drops_conserved hreach).1⟩

end DropQueue
end Arald
