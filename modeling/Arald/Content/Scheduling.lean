import Arald.Content.PendingRequest

/-!
# What the range scheduler keeps

A waiting provider is idle and waits once, so that a range is never handed to a
provider that still has one. From this follows a rule of induction for a round
of assignments, and with it what a round does to the coverage of an index and
to the requests that are sent.
-/

namespace Arald

open Foundations

namespace PendingContentEntry

/-- The waiting providers are distinct and idle; the slots are within the limit. -/
structure Slots (e : PendingContentEntry) (waiting : List String) : Prop where
  nodup : waiting.Nodup
  idle : ∀ s ∈ waiting, e.activeFetches.has s = false
  limit : e.activeFetches.size ≤ maxConcurrentContentFetches

/-- Hand the first unassigned range to a provider. -/
def assign (e : PendingContentEntry) (providerId : String) (range : ChunkRange)
    (rest : List ChunkRange) : PendingContentEntry :=
  { e with unassignedRanges := rest }.requestRangeFromProvider providerId range

section
variable {e e' : PendingContentEntry} {providerId source : String} {range : ChunkRange}
  {rest : List ChunkRange} {waiting : List String} {i : ℤ}

/-! ### Slots -/

theorem has_assign : (e.assign providerId range rest).activeFetches.has source = true ↔
    source = providerId ∨ e.activeFetches.has source = true := by
  rw [OrderedMap.has_iff, OrderedMap.has_iff]
  exact OrderedMap.mem_keys_set

theorem tryAssign_eq_some : e.tryAssignUnassignedRange providerId = some e' ↔
    e.atFetchLimit providerId = false ∧
      ∃ range rest, e.unassignedRanges = range :: rest ∧ e' = e.assign providerId range rest :=
  tryAssignUnassignedRange_eq_some

theorem size_lt_of_idle (hidle : e.activeFetches.has providerId = false)
    (hlimit : e.atFetchLimit providerId = false) :
    e.activeFetches.size < maxConcurrentContentFetches := by
  simpa [atFetchLimit, hidle] using hlimit

theorem size_request (range : ChunkRange) (hidle : e.activeFetches.has providerId = false) :
    (e.requestRangeFromProvider providerId range).activeFetches.size = e.activeFetches.size + 1 := by
  apply OrderedMap.size_set_of_notMem
  intro hmem
  simp [OrderedMap.has_iff.mpr hmem] at hidle

theorem Slots.of_active (h : e.Slots waiting) (hsame : e'.activeFetches = e.activeFetches) :
    e'.Slots waiting :=
  ⟨h.nodup, hsame ▸ h.idle, hsame ▸ h.limit⟩

/-- Giving an idle provider that does not wait a range respects the slots. -/
theorem Slots.assign (range : ChunkRange) (rest : List ChunkRange) (h : e.Slots waiting) (hidle : e.activeFetches.has providerId = false)
    (hnot : providerId ∉ waiting) (hroom : e.activeFetches.size < maxConcurrentContentFetches) :
    (e.assign providerId range rest).Slots waiting where
  nodup := h.nodup
  idle := by
    intro s hs
    apply eq_false_of_ne_true
    intro hhas
    rcases has_assign.mp hhas with rfl | hbusy
    · exact hnot hs
    · simp [h.idle s hs] at hbusy
  limit := by
    have hsize := size_request (e := { e with unassignedRanges := rest }) range hidle
    simp only [PendingContentEntry.assign, hsize]
    exact hroom

theorem Slots.tail (h : e.Slots (source :: waiting)) : e.Slots waiting :=
  ⟨(List.nodup_cons.mp h.nodup).2, fun s hs => h.idle s (List.mem_cons_of_mem _ hs), h.limit⟩

theorem Slots.release (h : e.Slots waiting) : (e.release source).Slots waiting where
  nodup := h.nodup
  idle := by
    intro s hs
    have hs' := h.idle s hs
    simp only [OrderedMap.has, PendingContentEntry.release, OrderedMap.get?_delete] at hs' ⊢
    split
    · rfl
    · exact hs'
  limit := (e.activeFetches.size_delete_le source).trans h.limit

theorem has_release_self : (e.release source).activeFetches.has source = false := by
  simp [release, OrderedMap.has]

/-- An active provider does not wait. -/
theorem Slots.notMem_of_active (h : e.Slots waiting) (hactive : e.activeFetches.has source = true) :
    source ∉ waiting := by
  intro hmem
  simp [h.idle source hmem] at hactive

/-! ### A round of assignments -/

/-- A property survives a round of offers if it survives that an idle provider
gets the first unassigned range, and that the list of candidates changes. -/
theorem offerToCandidates_induction {P : PendingContentEntry → Prop}
    (hassign : ∀ e providerId range rest, P e → e.activeFetches.has providerId = false →
      e.activeFetches.size < maxConcurrentContentFetches → e.unassignedRanges = range :: rest →
      P (e.assign providerId range rest))
    (hcandidates : ∀ e candidates, P e → P { e with candidates })
    (hslots : e.Slots waiting) (h : P e) : P (e.offerToCandidates waiting) := by
  induction waiting generalizing e with
  | nil => exact hcandidates e [] h
  | cons next rest ih =>
    rw [offerToCandidates]
    cases hnext : e.tryAssignUnassignedRange next with
    | none => exact hcandidates e (next :: rest) h
    | some e1 =>
      obtain ⟨hlimit, range, ranges, hranges, rfl⟩ := tryAssign_eq_some.mp hnext
      have hidle := hslots.idle next List.mem_cons_self
      have hroom := size_lt_of_idle hidle hlimit
      have hnot := (List.nodup_cons.mp hslots.nodup).1
      exact ih (hslots.tail.assign range ranges hidle hnot hroom) (hassign e next range ranges h hidle hroom hranges)

/-- Offers respect the slots; who is busy afterwards was busy or waited, and who
still waits did so before. -/
theorem offerToCandidates_slots (hslots : e.Slots waiting) :
    (e.offerToCandidates waiting).Slots (e.offerToCandidates waiting).candidates ∧
      (∀ s, (e.offerToCandidates waiting).activeFetches.has s = true →
        e.activeFetches.has s = true ∨ s ∈ waiting) ∧
      ∀ s ∈ (e.offerToCandidates waiting).candidates, s ∈ waiting := by
  induction waiting generalizing e with
  | nil => exact ⟨⟨List.nodup_nil, by simp [offerToCandidates], hslots.limit⟩, by simp [offerToCandidates],
      by simp [offerToCandidates]⟩
  | cons next rest ih =>
    rw [offerToCandidates]
    cases hnext : e.tryAssignUnassignedRange next with
    | none => exact ⟨hslots.of_active rfl, fun s hs => .inl hs, fun s hs => hs⟩
    | some e1 =>
      obtain ⟨hlimit, range, ranges, hranges, rfl⟩ := tryAssign_eq_some.mp hnext
      have hidle := hslots.idle next List.mem_cons_self
      have hroom := size_lt_of_idle hidle hlimit
      have hnot := (List.nodup_cons.mp hslots.nodup).1
      obtain ⟨hslots', hbusy, hwait⟩ := ih (hslots.tail.assign range ranges hidle hnot hroom)
      refine ⟨hslots', ?_, fun s hs => List.mem_cons_of_mem _ (hwait s hs)⟩
      intro s hs
      rcases hbusy s hs with hbefore | hmem
      · rcases has_assign.mp hbefore with rfl | hold
        · exact .inr List.mem_cons_self
        · exact .inl hold
      · exact .inr (List.mem_cons_of_mem _ hmem)

/-- The provider to fall back on, if any, is idle and does not wait. -/
def FallbackIdle (e : PendingContentEntry) (fallbackProviderId : Option String) : Prop :=
  ∀ s, fallbackProviderId = some s → e.activeFetches.has s = false ∧ s ∉ e.candidates

theorem fallback_after_offer {fallbackProviderId : Option String} (hslots : e.Slots e.candidates)
    (hfallback : e.FallbackIdle fallbackProviderId) :
    (e.offerToCandidates e.candidates).FallbackIdle fallbackProviderId := by
  obtain ⟨-, hbusy, hwait⟩ := offerToCandidates_slots hslots
  intro s hs
  obtain ⟨hidle, hnot⟩ := hfallback s hs
  constructor
  · apply eq_false_of_ne_true
    intro hhas
    rcases hbusy s hhas with hbefore | hmem
    · simp [hidle] at hbefore
    · exact hnot hmem
  · exact fun hmem => hnot (hwait s hmem)

/-- The rule of induction for `tryKeepFetchesGoing`. -/
theorem tryKeepFetchesGoing_induction {P : PendingContentEntry → Prop}
    {fallbackProviderId : Option String}
    (hassign : ∀ e providerId range rest, P e → e.activeFetches.has providerId = false →
      e.activeFetches.size < maxConcurrentContentFetches → e.unassignedRanges = range :: rest →
      P (e.assign providerId range rest))
    (hcandidates : ∀ e candidates, P e → P { e with candidates })
    (hslots : e.Slots e.candidates) (hfallback : e.FallbackIdle fallbackProviderId) (h : P e) :
    P (e.tryKeepFetchesGoing fallbackProviderId) := by
  have hoffer : P (e.offerToCandidates e.candidates) :=
    offerToCandidates_induction hassign hcandidates hslots h
  have hidle := fallback_after_offer hslots hfallback
  unfold tryKeepFetchesGoing
  dsimp only
  split
  · next s =>
    split
    · exact hoffer
    · cases hnext : (e.offerToCandidates e.candidates).tryAssignUnassignedRange s with
      | none => exact hoffer
      | some e1 =>
        obtain ⟨hlimit, range, ranges, hranges, rfl⟩ := tryAssign_eq_some.mp hnext
        have hs := (hidle s rfl).1
        exact hassign _ s range ranges hoffer hs (size_lt_of_idle hs hlimit) hranges
  · exact hoffer

theorem tryKeepFetchesGoing_slots {fallbackProviderId : Option String} (hslots : e.Slots e.candidates)
    (hfallback : e.FallbackIdle fallbackProviderId) :
    (e.tryKeepFetchesGoing fallbackProviderId).Slots
      (e.tryKeepFetchesGoing fallbackProviderId).candidates := by
  have hoffer := (offerToCandidates_slots hslots).1
  have hidle := fallback_after_offer hslots hfallback
  unfold tryKeepFetchesGoing
  dsimp only
  split
  · next s =>
    split
    · exact hoffer
    · cases hnext : (e.offerToCandidates e.candidates).tryAssignUnassignedRange s with
      | none => exact hoffer
      | some e1 =>
        obtain ⟨hlimit, range, ranges, hranges, rfl⟩ := tryAssign_eq_some.mp hnext
        obtain ⟨hs, hnot⟩ := hidle s rfl
        exact hoffer.assign range ranges hs hnot (size_lt_of_idle hs hlimit)
  · exact hoffer

/-- With a provider to fall back on, a round leaves no range unassigned while
nobody is fetching. -/
theorem unassigned_of_no_fetch (hsource : source ≠ "")
    (hnone : (e.tryKeepFetchesGoing (some source)).activeFetches.size = 0) :
    (e.tryKeepFetchesGoing (some source)).unassignedRanges = [] := by
  simp only [tryKeepFetchesGoing, if_neg hsource] at hnone ⊢
  cases hnext : (e.offerToCandidates e.candidates).tryAssignUnassignedRange source with
  | none =>
    rw [hnext, Option.getD_none] at hnone
    rcases tryAssignUnassignedRange_eq_none.mp hnext with hlimit | hempty
    · simp [atFetchLimit, hnone, maxConcurrentContentFetches] at hlimit
    · exact hempty
  | some e1 =>
    obtain ⟨-, range, ranges, -, rfl⟩ := tryAssign_eq_some.mp hnext
    rw [hnext, Option.getD_some, ← OrderedMap.oldest?_eq_none] at hnone
    have hmem : source ∈ (e.offerToCandidates e.candidates |>.assign source range ranges).activeFetches.keys :=
      OrderedMap.mem_keys_set.mpr (.inl rfl)
    simp only [OrderedMap.oldest?, List.head?_eq_none_iff] at hnone
    simp [hnone] at hmem

/-- Who is busy after a round was busy, waited, or is the fallback. -/
theorem tryKeepFetchesGoing_busy {fallbackProviderId : Option String} (hslots : e.Slots e.candidates)
    (hbusy : (e.tryKeepFetchesGoing fallbackProviderId).activeFetches.has source = true) :
    e.activeFetches.has source = true ∨ source ∈ e.candidates ∨ fallbackProviderId = some source := by
  have hoffer : ∀ s, (e.offerToCandidates e.candidates).activeFetches.has s = true →
      e.activeFetches.has s = true ∨ s ∈ e.candidates := (offerToCandidates_slots hslots).2.1
  have hround : (e.offerToCandidates e.candidates).activeFetches.has source = true ∨
      fallbackProviderId = some source := by
    unfold tryKeepFetchesGoing at hbusy
    dsimp only at hbusy
    split at hbusy
    · next s =>
      split at hbusy
      · exact .inl hbusy
      · cases hnext : (e.offerToCandidates e.candidates).tryAssignUnassignedRange s with
        | none =>
          rw [hnext, Option.getD_none] at hbusy
          exact .inl hbusy
        | some e1 =>
          obtain ⟨-, range, ranges, -, rfl⟩ := tryAssign_eq_some.mp hnext
          rw [hnext, Option.getD_some] at hbusy
          rcases has_assign.mp hbusy with rfl | hbefore
          · exact .inr rfl
          · exact .inl hbefore
    · exact .inl hbusy
  rcases hround with hbusy' | hfallback
  · rcases hoffer source hbusy' with hbefore | hwait
    · exact .inl hbefore
    · exact .inr (.inl hwait)
  · exact .inr (.inr hfallback)

/-- A round only takes candidates away. -/
theorem tryKeepFetchesGoing_candidates {fallbackProviderId : Option String}
    (hslots : e.Slots e.candidates)
    (hmem : source ∈ (e.tryKeepFetchesGoing fallbackProviderId).candidates) : source ∈ e.candidates := by
  apply (offerToCandidates_slots hslots).2.2 source
  unfold tryKeepFetchesGoing at hmem
  dsimp only at hmem
  split at hmem
  · next s =>
    split at hmem
    · exact hmem
    · cases hnext : (e.offerToCandidates e.candidates).tryAssignUnassignedRange s with
      | none =>
        rw [hnext, Option.getD_none] at hmem
        exact hmem
      | some e1 =>
        obtain ⟨-, range, ranges, -, rfl⟩ := tryAssign_eq_some.mp hnext
        rw [hnext, Option.getD_some] at hmem
        exact hmem
  · exact hmem

/-! ### What is sent -/

/-- The ranges that are about to be requested from a provider. -/
def requestedFrom (e : PendingContentEntry) (providerId : String) : List ChunkRange :=
  e.outbox.filterMap fun r => if r.1 = providerId then some r.2 else none

/-- From one entry to the next, a provider keeps what it fetches and is sent
nothing, or it was idle and is sent the one range that it fetches then. -/
def Dispatches (e e' : PendingContentEntry) : Prop :=
  ∀ s, (e'.activeFetches.get? s = e.activeFetches.get? s ∧ e'.requestedFrom s = e.requestedFrom s) ∨
    (e.activeFetches.get? s = none ∧ ∃ range, e'.activeFetches.get? s = some range ∧
      e'.requestedFrom s = e.requestedFrom s ++ [range])

/-- The range is being fetched, or waits to be. -/
def HasRange (e : PendingContentEntry) (range : ChunkRange) : Prop :=
  range ∈ e.unassignedRanges ∨ ∃ s, e.activeFetches.get? s = some range

theorem Dispatches.refl (e : PendingContentEntry) : Dispatches e e := fun _ => .inl ⟨rfl, rfl⟩

theorem requestedFrom_request : (e.requestRangeFromProvider providerId range).requestedFrom source =
    e.requestedFrom source ++ if source = providerId then [range] else [] := by
  unfold requestedFrom requestRangeFromProvider
  rw [List.filterMap_append]
  congr 1
  by_cases h : source = providerId
  · simp [h]
  · simp [h, Ne.symm h]

theorem Dispatches.request (e₀ : PendingContentEntry) (h : Dispatches e₀ e)
    (hidle : e.activeFetches.has providerId = false) :
    Dispatches e₀ (e.requestRangeFromProvider providerId range) := by
  have hnone : e.activeFetches.get? providerId = none := by
    simpa [OrderedMap.has] using hidle
  intro s
  rw [requestedFrom_request]
  by_cases hs : s = providerId
  · subst hs
    rcases h s with ⟨hsame, hrequested⟩ | ⟨-, r, hbusy, -⟩
    · right
      refine ⟨hsame ▸ hnone, range, OrderedMap.get?_set_self _ _ _, ?_⟩
      rw [if_pos rfl, hrequested]
    · simp [hnone] at hbusy
  · have hget : (e.requestRangeFromProvider providerId range).activeFetches.get? s =
        e.activeFetches.get? s := OrderedMap.get?_set_of_ne _ _ hs
    rw [if_neg hs, List.append_nil, hget]
    exact h s

theorem tryKeepFetchesGoing_dispatches {fallbackProviderId : Option String}
    (hslots : e.Slots e.candidates) (hfallback : e.FallbackIdle fallbackProviderId) :
    Dispatches e (e.tryKeepFetchesGoing fallbackProviderId) := by
  refine tryKeepFetchesGoing_induction (P := Dispatches e) ?_ (fun _ _ h => h) hslots hfallback (.refl e)
  intro e₁ s range rest h hidle _ _
  exact Dispatches.request (e := { e₁ with unassignedRanges := rest }) _ h hidle

/-- Assigning a range makes up no other one. -/
theorem hasRange_assign {r : ChunkRange} (hranges : e.unassignedRanges = range :: rest)
    (h : (e.assign providerId range rest).HasRange r) : e.HasRange r := by
  rcases h with hmem | ⟨s, hget⟩
  · left
    rw [hranges]
    exact List.mem_cons_of_mem _ hmem
  · simp only [assign, requestRangeFromProvider, OrderedMap.get?_set] at hget
    split at hget
    · obtain rfl := Option.some.inj hget
      left
      rw [hranges]
      exact List.mem_cons_self
    · exact .inr ⟨s, hget⟩

theorem hasRange_keepGoing {fallbackProviderId : Option String} {r : ChunkRange}
    (hslots : e.Slots e.candidates) (hfallback : e.FallbackIdle fallbackProviderId)
    (h : (e.tryKeepFetchesGoing fallbackProviderId).HasRange r) : e.HasRange r :=
  tryKeepFetchesGoing_induction (P := fun e' => e'.HasRange r → e.HasRange r)
    (fun _ _ _ _ h _ _ hranges hr => h (hasRange_assign hranges hr)) (fun _ _ h => h) hslots hfallback
    id h

/-! ### Coverage of an index -/

/-- The index was received, is being fetched, or lies in an unassigned range. -/
def Covers (e : PendingContentEntry) (i : ℤ) : Prop :=
  i ∈ e.receivedChunks ∨
    (∃ providerId range, e.activeFetches.get? providerId = some range ∧ i ∈ range) ∨
      ∃ range ∈ e.unassignedRanges, i ∈ range

theorem Covers.assign (h : e.Covers i) (hidle : e.activeFetches.has providerId = false)
    (hranges : e.unassignedRanges = range :: rest) : (e.assign providerId range rest).Covers i := by
  rcases h with hreceived | ⟨s, r, hget, hi⟩ | ⟨r, hr, hi⟩
  · exact .inl hreceived
  · have hne : s ≠ providerId := by
      rintro rfl
      simp [OrderedMap.has, hget] at hidle
    exact .inr (.inl ⟨s, r, (OrderedMap.get?_set_of_ne _ _ hne).trans hget, hi⟩)
  · rw [hranges, List.mem_cons] at hr
    rcases hr with rfl | hr
    · exact .inr (.inl ⟨providerId, r, OrderedMap.get?_set_self _ _ _, hi⟩)
    · exact .inr (.inr ⟨r, hr, hi⟩)

theorem Covers.keepGoing {fallbackProviderId : Option String} (h : e.Covers i)
    (hslots : e.Slots e.candidates) (hfallback : e.FallbackIdle fallbackProviderId) :
    (e.tryKeepFetchesGoing fallbackProviderId).Covers i :=
  tryKeepFetchesGoing_induction (P := fun e => e.Covers i)
    (fun _ _ _ _ h hidle _ hranges => h.assign hidle hranges) (fun _ _ h => h) hslots hfallback h

theorem Covers.unassign (h : e.Covers i) : (e.unassign range).Covers i := by
  rcases h with hreceived | hactive | ⟨r, hr, hi⟩
  · exact .inl hreceived
  · exact .inr (.inl hactive)
  · exact .inr (.inr ⟨r, List.mem_append_left _ hr, hi⟩)

theorem covers_unassign (hi : i ∈ range) : (e.unassign range).Covers i :=
  .inr (.inr ⟨range, List.mem_append_right _ List.mem_cons_self, hi⟩)

/-- Only what the released provider was fetching can lose its cover. -/
theorem Covers.release (source : String) (h : e.Covers i) :
    (e.release source).Covers i ∨
      (i ∉ e.receivedChunks ∧ ∃ range, e.activeFetches.get? source = some range ∧ i ∈ range) := by
  by_cases hreceived : i ∈ e.receivedChunks
  · exact .inl (.inl hreceived)
  rcases h with hreceived' | ⟨s, r, hget, hi⟩ | hunassigned
  · exact absurd hreceived' hreceived
  · by_cases hs : s = source
    · subst hs
      exact .inr ⟨hreceived, r, hget, hi⟩
    · exact .inl (.inr (.inl ⟨s, r, (OrderedMap.get?_delete_of_ne _ hs).trans hget, hi⟩))
  · exact .inl (.inr (.inr hunassigned))

theorem fallbackIdle_release (hslots : e.Slots e.candidates)
    (hactive : e.activeFetches.has source = true) : (e.release source).FallbackIdle (some source) := by
  rintro s ⟨⟩
  exact ⟨has_release_self, hslots.notMem_of_active hactive⟩

theorem Covers.abandonFetch (h : e.Covers i) (hslots : e.Slots e.candidates) :
    (e.abandonFetch providerId).Covers i := by
  unfold PendingContentEntry.abandonFetch
  split
  · next range hget =>
    have hcovered : ((e.release providerId).unassign range).Covers i := by
      rcases h.release providerId with hrest | ⟨-, r, hr, hi⟩
      · exact hrest.unassign
      · obtain rfl := Option.some.inj (hget.symm.trans hr)
        exact covers_unassign hi
    have hslots' : ((e.release providerId).unassign range).Slots
        ((e.release providerId).unassign range).candidates := hslots.release.of_active rfl
    exact hcovered.keepGoing hslots' fun s hs => by simp at hs
  · exact h

/-- A fetch that ends takes away at most the cover of what it did not deliver. -/
theorem Covers.retire (h : e.Covers i) (hslots : e.Slots e.candidates)
    (hactive : e.activeFetches.has source = true)
    (hdelivered : ∀ range, e.activeFetches.get? source = some range → i ∈ range → i ∈ e.receivedChunks) :
    (e.retire source).Covers i := by
  rcases h.release source with hrest | ⟨hnot, range, hget, hi⟩
  · exact hrest.keepGoing hslots.release (fallbackIdle_release hslots hactive)
  · exact absurd (hdelivered range hget hi) hnot

theorem Covers.recordChunk {chunkIndex totalChunks : ℤ} (h : e.Covers i) :
    (e.recordChunk chunkIndex totalChunks).Covers i := by
  have hsub : ∀ total : ℤ, e.receivedChunks ⊆
      if chunkIndex < total then insert chunkIndex e.receivedChunks else e.receivedChunks := by
    intro total
    split
    · exact Finset.subset_insert _ _
    · exact subset_rfl
  unfold PendingContentEntry.recordChunk
  dsimp only
  rcases h with hreceived | hactive | ⟨r, hr, hi⟩
  · split
    · exact .inl (hsub _ hreceived)
    · exact .inl (hsub _ hreceived)
  · split
    · exact .inr (.inl hactive)
    · exact .inr (.inl hactive)
  · split
    · exact .inr (.inr ⟨r, List.mem_append_left _ hr, hi⟩)
    · exact .inr (.inr ⟨r, hr, hi⟩)

/-- What the first chunk reveals beyond the ranges decided so far is unassigned. -/
theorem covers_recordChunk_beyond {chunkIndex totalChunks : ℤ} (hlow : e.rangeHighWaterMark < i)
    (hhigh : i ≤ (e.recordChunk chunkIndex totalChunks).rangeHighWaterMark) :
    (e.recordChunk chunkIndex totalChunks).Covers i := by
  unfold PendingContentEntry.recordChunk at hhigh ⊢
  dsimp only at hhigh ⊢
  split at hhigh
  · next hgap =>
    rw [if_pos hgap]
    refine .inr (.inr ⟨_, List.mem_append_right _ List.mem_cons_self, ?_⟩)
    rw [ChunkRange.mem_iff]
    dsimp only at hhigh ⊢
    omega
  · exact absurd hhigh (not_le.mpr hlow)

theorem Covers.found {metadata : Option ContentMetadata} (h : e.Covers i) (hsized : e.sized = true) :
    (e.found source metadata).Covers i := by
  unfold PendingContentEntry.found
  cases hknows : e.knows source with
  | true => exact h
  | false =>
    simp only [hsized, Bool.not_true, Bool.false_eq_true, if_false]
    have hidle : e.activeFetches.has source = false := by
      simp only [knows, Bool.or_eq_false_iff] at hknows
      exact hknows.1
    cases hnext : e.tryAssignUnassignedRange source with
    | some e1 =>
      obtain ⟨-, range, rest, hranges, rfl⟩ := tryAssign_eq_some.mp hnext
      exact h.assign hidle hranges
    | none =>
      dsimp only
      split
      · exact h
      · exact h

/-- The first reply covers every index up to the mark it sets. -/
theorem covers_sizeTransfer {metadata : ContentMetadata} (hlow : 0 ≤ i)
    (hhigh : i ≤ (e.sizeTransfer source metadata).rangeHighWaterMark) :
    (e.sizeTransfer source metadata).Covers i := by
  unfold sizeTransfer at hhigh ⊢
  dsimp only at hhigh ⊢
  split at hhigh
  · next hmany =>
    rw [if_pos hmany]
    by_cases hfront : i ≤ (chunkCountForSize metadata.size + 1) / 2 - 1
    · exact .inr (.inl ⟨source, _, OrderedMap.get?_set_self _ _ _, ⟨hlow, hfront⟩⟩)
    · refine covers_unassign ?_
      rw [ChunkRange.mem_iff]
      have hmark : i ≤ chunkCountForSize metadata.size - 1 := hhigh
      dsimp only
      omega
  · next hone =>
    rw [if_neg hone]
    exact .inr (.inl ⟨source, _, OrderedMap.get?_set_self _ _ _, ⟨hlow, hhigh⟩⟩)

end

/-! ### Well-formed entries -/

/-- Every range that is handed out or waits is valid. -/
structure RangesValid (e : PendingContentEntry) : Prop where
  active : ∀ s r, e.activeFetches.get? s = some r → r.Valid
  unassigned : ∀ r ∈ e.unassignedRanges, r.Valid

/-- What holds of an open request in every run. -/
structure WellFormed (e : PendingContentEntry) : Prop where
  slots : e.Slots e.candidates
  ranges : e.RangesValid
  unsized : e.sized = false → e.metadata = none ∧ e.totalChunks = none ∧ e.activeFetches = .empty ∧
    e.unassignedRanges = []
  sized : e.sized = true → e.metadata.isSome = true
  mark : -1 ≤ e.rangeHighWaterMark
  known : ∀ total, e.totalChunks = some total → total - 1 ≤ e.rangeHighWaterMark
  received : ∀ i ∈ e.receivedChunks, ∃ total, e.totalChunks = some total ∧ 0 ≤ i ∧ i < total

section
variable {e e' : PendingContentEntry} {providerId source : String} {range : ChunkRange}
  {rest : List ChunkRange} {waiting : List String} {i : ℤ}

theorem wellFormed_fresh (contentId : String) : WellFormed { contentId } where
  slots := ⟨List.nodup_nil, by simp, by simp⟩
  ranges := ⟨by simp, by simp⟩
  unsized := fun _ => ⟨rfl, rfl, rfl, rfl⟩
  sized := by simp
  mark := le_rfl
  known := by simp
  received := by simp

/-- A provider can only be fetching for a request that is sized. -/
theorem WellFormed.sized_of_active (h : e.WellFormed) (hactive : e.activeFetches.has source = true) :
    e.sized = true := by
  apply eq_true_of_ne_false
  intro hunsized
  obtain ⟨-, -, hempty, -⟩ := h.unsized hunsized
  simp [hempty, OrderedMap.has] at hactive

theorem WellFormed.sized_of_known (h : e.WellFormed) {total : ℤ} (htotal : e.totalChunks = some total) :
    e.sized = true := by
  apply eq_true_of_ne_false
  intro hunsized
  obtain ⟨-, hnone, -, -⟩ := h.unsized hunsized
  simp [hnone] at htotal

/-- As many received indices as there are below the total: all of them. -/
theorem WellFormed.mem_of_all (h : e.WellFormed) {total : ℤ} (htotal : e.totalChunks = some total)
    (hall : total ≤ e.receivedChunks.card) : ∀ i, 0 ≤ i → i < total → i ∈ e.receivedChunks := by
  have hsub : e.receivedChunks ⊆ Finset.Ico 0 total := by
    intro i hi
    obtain ⟨t, ht, hlow, hhigh⟩ := h.received i hi
    obtain rfl := Option.some.inj (ht.symm.trans htotal)
    exact Finset.mem_Ico.mpr ⟨hlow, hhigh⟩
  have hcard : (Finset.Ico 0 total).card ≤ e.receivedChunks.card := by
    rw [Int.card_Ico]
    omega
  have heq := Finset.eq_of_subset_of_card_le hsub hcard
  intro i hlow hhigh
  rw [heq]
  exact Finset.mem_Ico.mpr ⟨hlow, hhigh⟩

/-- For a sized request, a change of the assignment needs a look at slots and ranges only. -/
theorem WellFormed.of_same (h : e.WellFormed) (hsized : e.sized = true) (hsame : SameTransfer e e')
    (hslots : e'.Slots e'.candidates) (hranges : e'.RangesValid) : e'.WellFormed where
  slots := hslots
  ranges := hranges
  unsized := by
    intro hunsized
    simp [hsame.sized, hsized] at hunsized
  sized := by
    rw [hsame.sized, hsame.metadata]
    exact h.sized
  mark := hsame.rangeHighWaterMark ▸ h.mark
  known := by
    rw [hsame.totalChunks, hsame.rangeHighWaterMark]
    exact h.known
  received := by
    rw [hsame.receivedChunks, hsame.totalChunks]
    exact h.received

theorem RangesValid.assign (h : e.RangesValid) (hranges : e.unassignedRanges = range :: rest) :
    (e.assign providerId range rest).RangesValid where
  active := by
    intro s r hget
    simp only [PendingContentEntry.assign, requestRangeFromProvider, OrderedMap.get?_set] at hget
    split at hget
    · obtain rfl := Option.some.inj hget
      exact h.unassigned range (by simp [hranges])
    · exact h.active s r hget
  unassigned := fun r hr => h.unassigned r (by simp [hranges, show r ∈ rest from hr])

theorem RangesValid.release (source : String) (h : e.RangesValid) : (e.release source).RangesValid where
  active := by
    intro s r hget
    simp only [PendingContentEntry.release, OrderedMap.get?_delete] at hget
    split at hget
    · simp at hget
    · exact h.active s r hget
  unassigned := h.unassigned

theorem RangesValid.unassign (h : e.RangesValid) (hrange : range.Valid) :
    (e.unassign range).RangesValid where
  active := h.active
  unassigned := by
    intro r hr
    rcases List.mem_append.mp hr with hr | hr
    · exact h.unassigned r hr
    · rw [List.mem_singleton] at hr
      exact hr ▸ hrange

theorem RangesValid.keepGoing {fallbackProviderId : Option String} (h : e.RangesValid)
    (hslots : e.Slots e.candidates) (hfallback : e.FallbackIdle fallbackProviderId) :
    (e.tryKeepFetchesGoing fallbackProviderId).RangesValid :=
  tryKeepFetchesGoing_induction (P := RangesValid)
    (fun _ _ _ _ h _ _ hranges => h.assign hranges) (fun _ _ h => ⟨h.active, h.unassigned⟩)
    hslots hfallback h

theorem WellFormed.retire (h : e.WellFormed) (hactive : e.activeFetches.has source = true) :
    (e.retire source).WellFormed := by
  have hidle := fallbackIdle_release h.slots hactive
  exact h.of_same (h.sized_of_active hactive) (retire_same e source)
    (tryKeepFetchesGoing_slots h.slots.release hidle)
    ((h.ranges.release source).keepGoing h.slots.release hidle)

theorem WellFormed.abandonFetch (h : e.WellFormed) : (e.abandonFetch providerId).WellFormed := by
  cases hget : e.activeFetches.get? providerId with
  | none =>
    rw [PendingContentEntry.abandonFetch, hget]
    exact h
  | some range =>
    have hactive : e.activeFetches.has providerId = true := by simp [OrderedMap.has, hget]
    have hsized := h.sized_of_active hactive
    have hslots : ((e.release providerId).unassign range).Slots
        ((e.release providerId).unassign range).candidates := h.slots.release.of_active rfl
    have hidle : ((e.release providerId).unassign range).FallbackIdle none := fun s hs => by simp at hs
    have hranges := (h.ranges.release providerId).unassign (h.ranges.active providerId range hget)
    have hsame : SameTransfer e (e.abandonFetch providerId) := abandonFetch_same e providerId
    rw [PendingContentEntry.abandonFetch, hget] at hsame ⊢
    exact h.of_same hsized hsame (tryKeepFetchesGoing_slots hslots hidle) (hranges.keepGoing hslots hidle)

theorem WellFormed.sizeTransfer (h : e.WellFormed) (hunsized : e.sized = false)
    (hnot : source ∉ e.candidates) {metadata : ContentMetadata} :
    (e.sizeTransfer source metadata).WellFormed := by
  obtain ⟨-, htotal, hempty, hunassigned⟩ := h.unsized hunsized
  have hpos := chunkCountForSize_pos metadata.size
  have hidle : e.activeFetches.has source = false := by simp [hempty, OrderedMap.has]
  have hroom : e.activeFetches.size < maxConcurrentContentFetches := by
    simp [hempty, maxConcurrentContentFetches]
  have hslots : ∀ r, (e.assign source r []).Slots e.candidates :=
    fun r => h.slots.assign r [] hidle hnot hroom
  have hranges : ∀ r : ChunkRange, r.Valid → (e.assign source r []).RangesValid := by
    intro r hr
    refine ⟨?_, by simp [PendingContentEntry.assign, requestRangeFromProvider]⟩
    intro s r' hget
    simp only [PendingContentEntry.assign, requestRangeFromProvider, OrderedMap.get?_set, hempty,
      OrderedMap.get?_empty] at hget
    split at hget
    · obtain rfl := Option.some.inj hget
      exact hr
    · simp at hget
  have hknown : ∀ total, e.totalChunks = some total → total - 1 ≤ chunkCountForSize metadata.size - 1 := by
    simp [htotal]
  unfold PendingContentEntry.sizeTransfer
  dsimp only
  split
  · next hmany =>
    have hfront := hranges ⟨0, (chunkCountForSize metadata.size + 1) / 2 - 1⟩
      ⟨le_rfl, by dsimp only; omega⟩
    refine ⟨(hslots _).of_active rfl, ⟨hfront.active, ?_⟩, by simp [unassign, requestRangeFromProvider], fun _ => rfl,
      ?_, hknown, h.received⟩
    · intro r hr
      simp only [unassign, requestRangeFromProvider, hunassigned, List.nil_append, List.mem_singleton] at hr
      subst hr
      constructor
      · dsimp only
        omega
      · dsimp only
        omega
    · simp only [unassign, requestRangeFromProvider]
      omega
  · have hall := hranges ⟨0, chunkCountForSize metadata.size - 1⟩ ⟨le_rfl, by dsimp only; omega⟩
    refine ⟨(hslots _).of_active rfl, ⟨hall.active, ?_⟩, by simp [requestRangeFromProvider], fun _ => rfl, ?_,
      hknown, h.received⟩
    · simp [requestRangeFromProvider, hunassigned]
    · simp only [requestRangeFromProvider]
      omega

theorem WellFormed.recordChunk {chunkIndex totalChunks : ℤ} (h : e.WellFormed)
    (hsized : e.sized = true) (hlow : 0 ≤ chunkIndex) :
    (e.recordChunk chunkIndex totalChunks).WellFormed := by
  have hreceived : ∀ total : ℤ, total = e.totalChunks.getD totalChunks →
      ∀ i ∈ (if chunkIndex < total then insert chunkIndex e.receivedChunks else e.receivedChunks),
        ∃ t, some total = some t ∧ 0 ≤ i ∧ i < t := by
    intro total htotal i hi
    have hold : i ∈ e.receivedChunks → ∃ t, some total = some t ∧ 0 ≤ i ∧ i < t := by
      intro hmem
      obtain ⟨t, ht, hrange⟩ := h.received i hmem
      rw [ht, Option.getD_some] at htotal
      exact ⟨t, by rw [htotal], hrange⟩
    split at hi
    · next hlt =>
      rcases Finset.mem_insert.mp hi with rfl | hmem
      · exact ⟨total, rfl, hlow, hlt⟩
      · exact hold hmem
    · exact hold hi
  have hmark := h.mark
  unfold PendingContentEntry.recordChunk
  dsimp only
  split
  · next hgap =>
    simp only [Bool.and_eq_true, decide_eq_true_eq] at hgap
    have hvalid : ChunkRange.Valid ⟨e.rangeHighWaterMark + 1, e.totalChunks.getD totalChunks - 1⟩ := by
      constructor
      · dsimp only
        omega
      · dsimp only
        omega
    refine ⟨h.slots.of_active rfl, ⟨h.ranges.active, (h.ranges.unassign hvalid).unassigned⟩,
      by simp [unassign, hsized], fun _ => h.sized hsized, ?_, ?_, hreceived _ rfl⟩
    · dsimp only
      omega
    · intro total htotal
      obtain rfl := Option.some.inj htotal
      exact le_rfl
  · next hgap =>
    refine ⟨h.slots.of_active rfl, ⟨h.ranges.active, h.ranges.unassigned⟩, by simp [hsized],
      fun _ => h.sized hsized, hmark, ?_, hreceived _ rfl⟩
    intro total htotal
    obtain rfl := Option.some.inj htotal
    cases hknown : e.totalChunks with
    | some t => exact h.known t hknown
    | none =>
      simp only [hknown, Option.isNone_none, Bool.true_and, decide_eq_true_eq, not_lt] at hgap
      exact hgap

theorem WellFormed.found {metadata : Option ContentMetadata} (h : e.WellFormed) :
    (e.found source metadata).WellFormed := by
  unfold PendingContentEntry.found
  cases hknows : e.knows source with
  | true => exact h
  | false =>
    simp only [knows, Bool.or_eq_false_iff] at hknows
    obtain ⟨hidle, hwait⟩ := hknows
    have hnot : source ∉ e.candidates := by simpa using hwait
    simp only [Bool.false_eq_true, if_false]
    cases hsized : e.sized with
    | true =>
      simp only [Bool.not_true, Bool.false_eq_true, if_false]
      cases hnext : e.tryAssignUnassignedRange source with
      | some e1 =>
        have hsame := tryAssignUnassignedRange_same hnext
        obtain ⟨hlimit, range, rest, hranges, rfl⟩ := tryAssign_eq_some.mp hnext
        exact h.of_same hsized hsame (h.slots.assign range rest hidle hnot (size_lt_of_idle hidle hlimit))
          (h.ranges.assign hranges)
      | none =>
        dsimp only
        split
        · refine h.of_same hsized ⟨rfl, rfl, hsized.symm, rfl, rfl, rfl, rfl, rfl⟩ ⟨?_, ?_, h.slots.limit⟩
            ⟨h.ranges.active, h.ranges.unassigned⟩
          · exact h.slots.nodup.append (List.nodup_singleton _) (List.disjoint_singleton.mpr hnot)
          · intro s hs
            rcases List.mem_append.mp hs with hs | hs
            · exact h.slots.idle s hs
            · rw [List.mem_singleton] at hs
              exact hs ▸ hidle
        · exact h
    | false =>
      cases metadata with
      | none => exact h
      | some metadata => exact h.sizeTransfer hsized hnot

end

end PendingContentEntry
end Arald
