import Arald.Ingest.DeliveryQueue
import Arald.Ingest.Frames

/-!
# External deliveries, from submission to delivery

A sealed submission reaches the node over HTTP or in a mesh packet and waits in
the queue. The delivery loop takes a snapshot of the queue and posts its entries
one after the other; while it waits for an answer, submissions keep arriving.
-/

namespace Arald

open Foundations

/-- What the sender sealed, and for whom. -/
structure SealedSubmission where
  destinationId : String
  senderEphemeralPublicKey : String
  nonce : String
  ciphertext : String
  authTag : String
  deriving DecidableEq

def ExternalDeliveryPayload.sealedSubmission (d : ExternalDeliveryPayload) : SealedSubmission :=
  ⟨d.destinationId, d.senderEphemeralPublicKey, d.nonce, d.ciphertext, d.authTag⟩

def QueuedExternalDelivery.sealedSubmission (e : QueuedExternalDelivery) : SealedSubmission :=
  ⟨e.destinationId, e.senderEphemeralPublicKey, e.nonce, e.ciphertext, e.authTag⟩

namespace ExternalDeliveryQueue

/-- The queue has the submission under this id. -/
def Holds (q : ExternalDeliveryQueue) (packetId : String) (x : SealedSubmission) : Prop :=
  ∃ e, q.queued.get? packetId = some e ∧ e.sealedSubmission = x

/-- The entries that have not expired; the others leave the queue. -/
def entriesDueForAttempt (q : ExternalDeliveryQueue) (now : ℤ) :
    ExternalDeliveryQueue × List QueuedExternalDelivery :=
  ({ q with
      queued := q.queued.filter fun _ e => now < e.expiresAt
      totalBytes := q.totalBytes - bytes (q.queued.values.filter fun e => !(now < e.expiresAt)) },
    q.queued.values.filter fun e => now < e.expiresAt)

/-- What has expired takes its bytes along. -/
theorem WellFormed.entriesDueForAttempt {q : ExternalDeliveryQueue} (h : q.WellFormed) (now : ℤ) :
    (q.entriesDueForAttempt now).1.WellFormed := by
  constructor
  · have hsplit : ∀ l : List QueuedExternalDelivery, bytes l =
        bytes (l.filter fun e => now < e.expiresAt) + bytes (l.filter fun e => !(now < e.expiresAt)) := by
      intro l
      induction l with
      | nil => rfl
      | cons e rest ih =>
        by_cases he : now < e.expiresAt
        · simp only [List.filter_cons, he, decide_true, if_true, Bool.not_true, Bool.false_eq_true, if_false,
            bytes_cons]
          omega
        · simp only [List.filter_cons, he, decide_false, if_true, Bool.not_false, Bool.false_eq_true, if_false,
            bytes_cons]
          omega
    have hvalues : (q.queued.filter fun _ e => now < e.expiresAt).values =
        q.queued.values.filter fun e => now < e.expiresAt := by
      simp only [OrderedMap.values, OrderedMap.filter, List.filter_map, Function.comp_def]
    have htotal := h.accounted
    rw [hsplit] at htotal
    simp only [ExternalDeliveryQueue.entriesDueForAttempt, hvalues]
    omega
  · intro id entry hget
    rw [ExternalDeliveryQueue.entriesDueForAttempt] at hget
    dsimp only at hget
    rw [OrderedMap.get?_filter] at hget
    exact h.keyed id entry (Option.filter_eq_some_iff.mp hget).1

end ExternalDeliveryQueue

namespace Box

variable {p : Platform} {b : Box} {t : Readings}

/-- The mesh path: an EXTERNAL_DELIVERY packet addressed to this node. -/
def handleExternalDelivery (p : Platform) (b : Box) (packetId : String) (priority payload : JsValue)
    (now : ℤ) : Box :=
  if b.externalDeliveryAllowlist.isNone then b
  else
    match extractExternalDeliveryPayload payload (b.maxExternalDeliveryPayloadBytes * 2) with
    | none => b
    | some parsed =>
      match b.authorizedDestination? p parsed with
      | none => b
      | some destination =>
        let entry := { queuedDelivery p b.externalDeliveryQueue parsed destination.url now with
          packetId := packetId
          priority := priorityRank priority }
        { b with externalDeliveryQueue := b.externalDeliveryQueue.enqueue entry }

/-- A submission that is accepted is handed to the queue; no other one is. -/
theorem ingestExternalDelivery_cases (payload : JsValue) :
    ((b.ingestExternalDelivery p payload t).2 ≠ .accepted ∧
      (b.ingestExternalDelivery p payload t).1.externalDeliveryQueue = b.externalDeliveryQueue) ∨
    ∃ parsed url,
      extractExternalDeliveryPayload payload (b.maxExternalDeliveryPayloadBytes * 2) = some parsed ∧
      (b.ingestExternalDelivery p payload t).1.externalDeliveryQueue =
        b.externalDeliveryQueue.enqueue (queuedDelivery p b.externalDeliveryQueue parsed url t.observed) := by
  unfold ingestExternalDelivery
  split
  · exact .inl ⟨by simp, rfl⟩
  · split
    · exact .inl ⟨by simp, rfl⟩
    · rename_i parsed hparsed
      split
      · exact .inl ⟨by simp, rfl⟩
      · rename_i destination hdestination
        split
        · rename_i hallow
          obtain ⟨limiter, rfl⟩ := allowCaller_frame hallow
          exact .inl ⟨by simp, rfl⟩
        · rename_i hallow
          obtain ⟨limiter, rfl⟩ := allowCaller_frame hallow
          split
          · rename_i hcharge
            obtain ⟨window, rfl⟩ := tryConsumeHttpIngestedExternalDeliveryBudget_frame hcharge
            exact .inl ⟨by simp, rfl⟩
          · rename_i hcharge
            obtain ⟨window, rfl⟩ := tryConsumeHttpIngestedExternalDeliveryBudget_frame hcharge
            exact .inr ⟨parsed, destination.url, hparsed, rfl⟩

theorem handleExternalDelivery_cases (packetId : String) (priority payload : JsValue) (now : ℤ) :
    b.handleExternalDelivery p packetId priority payload now = b ∨
    ∃ parsed entry,
      extractExternalDeliveryPayload payload (b.maxExternalDeliveryPayloadBytes * 2) = some parsed ∧
      entry.packetId = packetId ∧ entry.sealedSubmission = parsed.sealedSubmission ∧
      b.handleExternalDelivery p packetId priority payload now =
        { b with externalDeliveryQueue := b.externalDeliveryQueue.enqueue entry } := by
  unfold handleExternalDelivery
  split
  · exact .inl rfl
  · split
    · exact .inl rfl
    · rename_i parsed hparsed
      split
      · exact .inl rfl
      · exact .inr ⟨parsed, _, hparsed, rfl, rfl, rfl⟩

/-! ### Accepted and queued -/

/-- An accepted submission is queued when the call returns exactly if it was
queued before, or the more urgent entries leave room for it. -/
theorem accepted_queued_iff (payload : JsValue) (parsed : ExternalDeliveryPayload)
    (hwf : b.externalDeliveryQueue.WellFormed)
    (hparsed : extractExternalDeliveryPayload payload (b.maxExternalDeliveryPayloadBytes * 2) = some parsed)
    (haccepted : (b.ingestExternalDelivery p payload t).2 = .accepted) :
    (b.ingestExternalDelivery p payload t).1.externalDeliveryQueue.Holds (httpIngestPacketId p parsed)
        parsed.sealedSubmission ↔
      b.externalDeliveryQueue.Holds (httpIngestPacketId p parsed) parsed.sealedSubmission ∨
        (b.externalDeliveryQueue.queued.has (httpIngestPacketId p parsed) = false ∧
          b.externalDeliveryQueue.hasRoomFor .content (utf16Length parsed.ciphertext / 2) = true) := by
  rcases ingestExternalDelivery_cases (p := p) (b := b) (t := t) payload with
    ⟨hrefused, -⟩ | ⟨parsed', url, hparsed', hqueue⟩
  · exact absurd haccepted hrefused
  obtain rfl : parsed = parsed' := Option.some.inj (hparsed.symm.trans hparsed')
  rw [hqueue]
  cases hqueued : b.externalDeliveryQueue.queued.has (httpIngestPacketId p parsed) with
  | true =>
    rw [ExternalDeliveryQueue.get?_enqueue_of_queued hqueued]
    simp
  | false =>
    have habsent : b.externalDeliveryQueue.queued.get? (httpIngestPacketId p parsed) = none := by
      simpa [OrderedMap.has] using hqueued
    have hkeeps := ExternalDeliveryQueue.enqueue_keeps_iff
      (queuedDelivery p b.externalDeliveryQueue parsed url t.observed) hwf hqueued
    constructor
    · rintro ⟨e, he, -⟩
      rcases ExternalDeliveryQueue.mem_enqueue he with hold | ⟨-, rfl⟩
      · simp [habsent] at hold
      · exact .inr ⟨rfl, hkeeps.mp he⟩
    · rintro (⟨e, he, -⟩ | ⟨-, hroom⟩)
      · simp [habsent] at he
      · exact ⟨_, hkeeps.mpr hroom, rfl⟩

theorem wellFormed_create (nodeId : String) (o : BoxOptions) :
    (create nodeId o).externalDeliveryQueue.WellFormed :=
  ⟨rfl, fun _ _ hget => by simp [create] at hget⟩

theorem wellFormed_handleExternalDelivery (h : b.externalDeliveryQueue.WellFormed) (packetId : String)
    (priority payload : JsValue) (now : ℤ) :
    (b.handleExternalDelivery p packetId priority payload now).externalDeliveryQueue.WellFormed := by
  rcases handleExternalDelivery_cases (p := p) (b := b) packetId priority payload now with
    hsame | ⟨parsed, entry, -, -, -, hqueued⟩
  · rwa [hsame]
  · rw [hqueued]
    exact h.enqueue entry

/-- A node that delivers to one organisation. -/
def headquarterBox (maxEntries : ℕ) : Box :=
  create "box"
    { externalDeliveryAllowlist := some (OrderedMap.empty.set "hq"
        { destinationId := "hq"
          label := "Headquarter"
          publicKeyHex := ""
          url := "https://hq.example/upload"
          password := none })
      maxExternalDeliveryEntries := maxEntries }

/-- A submission for it whose sealed bytes are `ciphertext`. -/
def headquarterPayload (ciphertext : String) : JsValue :=
  .obj [
    ("destinationId", .str "hq"),
    ("senderEphemeralPublicKey", .str "0000000000000000000000000000000000000000000000000000000000000000"),
    ("nonce", .str "000000000000000000000000"),
    ("ciphertext", .str ciphertext),
    ("authTag", .str "00000000000000000000000000000000"),
    ("submittedAt", .num (.finite 1))]

def headquarterSubmission (ciphertext : String) : ExternalDeliveryPayload where
  destinationId := "hq"
  senderEphemeralPublicKey := "0000000000000000000000000000000000000000000000000000000000000000"
  nonce := "000000000000000000000000"
  ciphertext := ciphertext
  authTag := "00000000000000000000000000000000"
  authProof := none
  submittedAt := 1

theorem accepted_queued_iff_empty :
    ((headquarterBox 1).ingestExternalDelivery (samplePlatform []) (headquarterPayload "00")
      (.const 0)).1.externalDeliveryQueue.Holds
        (httpIngestPacketId (samplePlatform []) (headquarterSubmission "00"))
        (headquarterSubmission "00").sealedSubmission :=
  (accepted_queued_iff (p := samplePlatform []) (b := headquarterBox 1) (t := .const 0)
    (headquarterPayload "00") (headquarterSubmission "00") (wellFormed_create _ _) (by rfl)
    (by decide)).mpr (.inr ⟨by decide, by decide⟩)

/-- The one place is taken by an emergency that came over the mesh: the
submission is accepted, and evicted before the call returns. -/
theorem accepted_evicted_on_entry :
    ¬∀ (p : Platform) (b : Box) (t : Readings) (payload : JsValue) (parsed : ExternalDeliveryPayload),
      b.externalDeliveryQueue.WellFormed →
      extractExternalDeliveryPayload payload (b.maxExternalDeliveryPayloadBytes * 2) = some parsed →
      utf16Length parsed.ciphertext / 2 ≤ b.externalDeliveryQueue.maxTotalBytes →
      (b.ingestExternalDelivery p payload t).2 = .accepted →
      (b.ingestExternalDelivery p payload t).1.externalDeliveryQueue.Holds (httpIngestPacketId p parsed)
        parsed.sealedSubmission := by
  intro hclaim
  obtain ⟨e, he, -⟩ := hclaim (samplePlatform [])
    ((headquarterBox 1).handleExternalDelivery (samplePlatform []) "u1" Priority.emergency.toJs
      (headquarterPayload "ff") 0)
    (.const 0) (headquarterPayload "00") (headquarterSubmission "00")
    (wellFormed_handleExternalDelivery (wellFormed_create _ _) ..) (by rfl) (by decide)
    (by decide)
  have habsent : (((headquarterBox 1).handleExternalDelivery (samplePlatform []) "u1"
      Priority.emergency.toJs (headquarterPayload "ff") 0).ingestExternalDelivery (samplePlatform [])
        (headquarterPayload "00") (.const 0)).1.externalDeliveryQueue.queued.has
          (httpIngestPacketId (samplePlatform []) (headquarterSubmission "00")) = false := by
    decide +kernel
  simp [OrderedMap.has, he] at habsent

end Box
end Arald
