import Arald.Ingest.Frames

/-!
# Rejected submissions

A submission that is refused should leave no trace but in the rate limiter of
its caller. Three of the four entry points keep to that. `ingestSignedContent`
takes a slot of the elevated-drop budget before `putVerified` has had its say:
a drop whose claimed encoding cannot be undone, or that expires between the two
checks, is refused after it has taken one.
-/

namespace Arald

open Foundations

/-- A submission to one of the four entry points. -/
inductive Submission where
  | signedContent (metadata : ContentMetadata) (data : Buffer) (options : Box.IngestOptions)
  | signedNodeAppend (submission : JsValue)
  | signedRelayCommand (submission : JsValue)
  | externalDelivery (payload : JsValue)

namespace Box

variable {p : Platform} {b : Box} {t : Readings}

def ingest (p : Platform) (b : Box) (t : Readings) : Submission → Box × IngestSignedContentResult
  | .signedContent metadata data options => b.ingestSignedContent p metadata data options t
  | .signedNodeAppend submission => b.ingestSignedNodeAppend p submission t
  | .signedRelayCommand submission => b.ingestSignedRelayCommand p submission t
  | .externalDelivery payload => b.ingestExternalDelivery p payload t

/-- Nothing but the rate limiter of the ingest callers differs. -/
def SharesUntouched (b b' : Box) : Prop := ∃ limiter, b' = { b with ingestRateLimiter := limiter }

/-! ### Node appends, relay commands and external deliveries -/

theorem ingestSignedNodeAppend_rejected {submission : JsValue}
    (h : (b.ingestSignedNodeAppend p submission t).2 = .rejected) :
    SharesUntouched b (b.ingestSignedNodeAppend p submission t).1 := by
  unfold ingestSignedNodeAppend at h ⊢
  split at h
  · cases h
  next hallow =>
    obtain ⟨limiter, rfl⟩ := allowCaller_frame hallow
    split at h
    · exact ⟨limiter, rfl⟩
    · split at h
      · next htarget =>
        rw [if_pos htarget]
        exact ⟨limiter, rfl⟩
      next htarget =>
        rw [if_neg htarget]
        split at h
        · next hexpired =>
          rw [if_pos hexpired]
          exact ⟨limiter, rfl⟩
        · split at h
          · cases h
          · dsimp only at h
            split at h <;> cases h

theorem ingestSignedRelayCommand_rejected {submission : JsValue}
    (h : (b.ingestSignedRelayCommand p submission t).2 = .rejected) :
    SharesUntouched b (b.ingestSignedRelayCommand p submission t).1 := by
  unfold ingestSignedRelayCommand at h ⊢
  split at h
  · cases h
  next hallow =>
    obtain ⟨limiter, rfl⟩ := allowCaller_frame hallow
    split at h
    · exact ⟨limiter, rfl⟩
    · split at h
      · next htarget =>
        rw [if_pos htarget]
        exact ⟨limiter, rfl⟩
      next htarget =>
        rw [if_neg htarget]
        split at h
        · next hreplay =>
          rw [if_pos hreplay]
          exact ⟨limiter, rfl⟩
        · split at h <;> cases h

theorem ingestExternalDelivery_rejected {payload : JsValue}
    (h : (b.ingestExternalDelivery p payload t).2 = .rejected) :
    SharesUntouched b (b.ingestExternalDelivery p payload t).1 := by
  unfold ingestExternalDelivery at h ⊢
  split at h
  · next hclosed =>
    rw [if_pos hclosed]
    exact ⟨b.ingestRateLimiter, rfl⟩
  next hclosed =>
    rw [if_neg hclosed]
    split at h
    · exact ⟨b.ingestRateLimiter, rfl⟩
    · split at h
      · exact ⟨b.ingestRateLimiter, rfl⟩
      · split at h
        · cases h
        · split at h <;> cases h

/-! ### Signed contents -/

/-- The submission takes a slot of the elevated-drop budget and then fails
`putVerified`: it is a drop of an elevated kind on the wire, passes the checks
made first, finds a slot, and does not verify when it is stored. -/
def wastesSlot (p : Platform) (b : Box) (t : Readings) : Submission → Bool
  | .signedContent metadata data _ =>
    (b.allowCaller metadata.publisher? t.limiter).2 && preVerified p metadata data t.check &&
      isElevated (wireDrop p metadata data) && b.hasElevatedDropSlot t.budget &&
      !ContentStore.verifies p metadata data t.store
  | _ => false

theorem SharesUntouched.elevatedDropWindow {b b' : Box} (h : SharesUntouched b b') :
    b'.elevatedDropWindow = b.elevatedDropWindow := by
  obtain ⟨limiter, rfl⟩ := h
  rfl

/-- A slot that was taken is a difference. -/
theorem not_sharesUntouched_of_slot {b₁ : Box} {now : ℤ}
    (hsame : b₁.elevatedDropWindow = b.elevatedDropWindow)
    (hslot : b.hasElevatedDropSlot now = true) :
    ¬SharesUntouched b (b₁.tryConsumeElevatedDropBudget now).1 := by
  intro h
  have hwindow := h.elevatedDropWindow
  simp only [tryConsumeElevatedDropBudget, hsame] at hwindow
  exact BudgetWindow.tryConsume_ne (by decide) hslot hwindow

theorem ingestSignedContent_rejected_iff {metadata : ContentMetadata} {data : Buffer}
    {options : IngestOptions} :
    ((b.ingestSignedContent p metadata data options t).2 = .rejected →
        SharesUntouched b (b.ingestSignedContent p metadata data options t).1) ↔
      b.wastesSlot p t (.signedContent metadata data options) = false := by
  rw [wastesSlot, ingestSignedContent]
  cases hallow : b.allowCaller metadata.publisher? t.limiter with
  | mk b₁ ok =>
    have huntouched : SharesUntouched b b₁ := allowCaller_frame hallow
    have hwindow := huntouched.elevatedDropWindow
    have hslot : b₁.hasElevatedDropSlot t.budget = b.hasElevatedDropSlot t.budget := by
      rw [hasElevatedDropSlot, hwindow, hasElevatedDropSlot]
    cases ok with
    | false => simp
    | true =>
      cases hpre : preVerified p metadata data t.check with
      | false => simp [huntouched]
      | true =>
        cases hverifies : ContentStore.verifies p metadata data t.store with
        | true =>
          -- Whatever the budget says, nothing is rejected after it.
          cases hclass : b₁.classify (wireDrop p metadata data) options.priority t.budget with
          | mk b₂ announced =>
            cases announced <;> simp [hclass, (storeAndAnnounce_of_verifies _ hverifies).1]
        | false =>
          cases helevated : isElevated (wireDrop p metadata data) with
          | false =>
            have hclass := b₁.classify_of_not_elevated options.priority t.budget helevated
            simp [hclass, storeAndAnnounce_of_not_verifies _ hverifies, huntouched]
          | true =>
            have hclass := b₁.classify_of_elevated options.priority t.budget helevated
            cases hleft : b.hasElevatedDropSlot t.budget with
            | false => simp [hclass, hslot, hleft]
            | true =>
              have hdiffers := not_sharesUntouched_of_slot hwindow hleft
              simp [hclass, hslot, hleft, storeAndAnnounce_of_not_verifies _ hverifies, hdiffers]

/-- A rejected submission changes nothing that others share, exactly when it is
not one that takes a slot of the elevated-drop budget before it fails to verify
in the store. -/
theorem rejected_shares_untouched_iff (p : Platform) (b : Box) (t : Readings) (s : Submission) :
    ((b.ingest p t s).2 = .rejected → SharesUntouched b (b.ingest p t s).1) ↔
      b.wastesSlot p t s = false := by
  cases s with
  | signedContent metadata data options => exact ingestSignedContent_rejected_iff
  | signedNodeAppend submission => exact iff_of_true ingestSignedNodeAppend_rejected rfl
  | signedRelayCommand submission => exact iff_of_true ingestSignedRelayCommand_rejected rfl
  | externalDelivery payload => exact iff_of_true ingestExternalDelivery_rejected rfl

/-! ### A rejected drop that takes a slot -/

def sampleRuntime : Platform := samplePlatform [(sampleDrop "valanga").toJs]

/-- A drop sent as plain JSON whose signed metadata calls it compressed. -/
def mislabelledDrop : Submission :=
  let data := sampleRuntime.stringify (sampleDrop "valanga").toJs
  .signedContent (signedMetadata sampleRuntime "operator" data (some "zstd")) data {}

/-- The mislabelled drop is rejected, and one slot of the budget is gone. -/
theorem rejected_drop_takes_slot :
    ¬∀ (p : Platform) (b : Box), (system p).Reachable b → ∀ t s,
      (b.ingest p t s).2 = .rejected → SharesUntouched b (b.ingest p t s).1 := by
  intro hclaim
  have hrun : let r := (create "box" {}).ingest sampleRuntime (.const 1000000) mislabelledDrop
      r.2 = .rejected ∧ r.1.elevatedDropWindow ≠ (create "box" {}).elevatedDropWindow := by
    decide +kernel
  have hreach : (system sampleRuntime).Reachable (create "box" {}) := .init ⟨"box", {}, rfl⟩
  exact hrun.2 (hclaim sampleRuntime _ hreach _ mislabelledDrop hrun.1).elevatedDropWindow

end Box
end Arald
