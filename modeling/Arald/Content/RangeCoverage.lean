import Arald.Content.Effects

/-!
# No index is forgotten

An index that some range has covered stays received, in a fetch, or unassigned,
as long as no provider says that it has finished a range of which the index is
still missing. `handleContentComplete` drops the range in that case, while
`abandonFetch` returns it.
-/

namespace Arald

open Foundations

namespace PendingContentEntry

variable {e : PendingContentEntry} {source : String} {metadata? : Option ContentMetadata} {i : ℤ}

theorem found_mark (hsized : e.sized = true) :
    (e.found source metadata?).rangeHighWaterMark = e.rangeHighWaterMark := by
  unfold found
  cases e.knows source with
  | true => rfl
  | false =>
    simp only [hsized, Bool.not_true, Bool.false_eq_true, if_false]
    cases hnext : e.tryAssignUnassignedRange source with
    | some e1 => exact (tryAssignUnassignedRange_same hnext).rangeHighWaterMark
    | none =>
      dsimp only
      split
      · rfl
      · rfl

/-- A request that a reply leaves or makes sized covers every index up to its mark. -/
theorem covers_found (h : e.sized = true → 0 ≤ i → i ≤ e.rangeHighWaterMark → e.Covers i)
    (hsized : (e.found source metadata?).sized = true) (hlow : 0 ≤ i)
    (hhigh : i ≤ (e.found source metadata?).rangeHighWaterMark) :
    (e.found source metadata?).Covers i := by
  cases hbefore : e.sized with
  | true =>
    rw [found_mark hbefore] at hhigh
    exact (h hbefore hlow hhigh).found hbefore
  | false =>
    unfold found at hsized hhigh ⊢
    cases hknows : e.knows source with
    | true => simp [hknows, hbefore] at hsized
    | false =>
      cases metadata? with
      | none => simp [hknows, hbefore] at hsized
      | some metadata =>
        simp only [hknows, hbefore, Bool.false_eq_true, if_false, Bool.not_false, if_true] at hhigh ⊢
        exact covers_sizeTransfer hlow hhigh

theorem recordChunk_sized (chunkIndex totalChunks : ℤ) :
    (e.recordChunk chunkIndex totalChunks).sized = e.sized := by
  unfold recordChunk
  dsimp only
  split
  · rfl
  · rfl

end PendingContentEntry

namespace ContentNode

/-- Completion from a provider would close the request. -/
def closesWith (p : Platform) (n : ContentNode) (contentId : String) (entry : PendingContentEntry)
    (metadata : ContentMetadata) (now : ℤ) : Bool :=
  entry.haveAll || (entry.totalChunks.isSome && n.assembledVerifies p contentId entry metadata now)

/-- No provider says that it has finished a range of the content with the index
in it, while the index is missing and the request stays open. -/
def finishesDelivered (p : Platform) (contentId : String) (i : ℤ) (n : ContentNode) :
    ContentEvent → Bool
  | .receive source (.complete completed (some metadata)) now =>
    completed ≠ contentId ||
      match n.pendingContentRequests.get? contentId with
      | some entry =>
        match entry.activeFetches.get? source with
        | some range =>
          !decide (i ∈ range) || decide (i ∈ entry.receivedChunks) ||
            n.closesWith p contentId entry metadata now
        | none => true
      | none => true
  | _ => true

/-- The index is covered in the open request for the content, once it is sized. -/
def IndexCovered (contentId : String) (i : ℤ) (key : String) (entry : PendingContentEntry) : Prop :=
  key = contentId → entry.sized = true → 0 ≤ i → i ≤ entry.rangeHighWaterMark → entry.Covers i

variable {p : Platform} {n n' : ContentNode} {e : ContentEvent} {contentId : String} {i : ℤ}

theorem indexCovered_entryInvariant (contentId : String) (i : ℤ) :
    EntryInvariant (IndexCovered contentId i) where
  fresh := fun _ _ hsized => by simp at hsized
  flushed := fun _ _ h => h
  join := fun _ _ _ h => h
  leave := fun _ _ _ h => h

theorem indexCovered_step (h : n.OpenRequests (IndexCovered contentId i))
    (hwf : n.OpenRequests fun _ entry => entry.WellFormed)
    (hcondition : finishesDelivered p contentId i n e = true) (heffect : Effect p n n' e) :
    n'.OpenRequests (IndexCovered contentId i) := by
  have hP := indexCovered_entryInvariant contentId i
  cases heffect with
  | none e hcore => exact h.same hcore
  | asked key waiter now hcore => exact h.set hcore (hP.asked h waiter)
  | left key waiter entry hget hcore => exact h.set hcore (h key entry hget)
  | expired key waiter hcore => exact h.delete hcore
  | found source key metadata now entry hget hcore =>
    refine h.set hcore ?_
    intro hkey
    exact PendingContentEntry.covers_found (h key entry hget hkey)
  | abandoned e key providerId entry hget hcore =>
    refine h.set hcore ?_
    intro hkey hsized hlow hhigh
    have hsame := PendingContentEntry.abandonFetch_same entry providerId
    have hcovers := h key entry hget hkey (hsame.sized ▸ hsized) hlow (hsame.rangeHighWaterMark ▸ hhigh)
    exact hcovers.abandonFetch (hwf key entry hget).slots
  | strayChunk source key chunkIndex totalChunks data now hget hadmits hcore => exact h.same hcore
  | chunk source key chunkIndex totalChunks data now entry hget hactive hadmits hcore =>
    refine h.set hcore ?_
    intro hkey hsized hlow hhigh
    have hbefore : entry.sized = true := PendingContentEntry.recordChunk_sized (e := entry) _ _ ▸ hsized
    rcases le_or_gt i entry.rangeHighWaterMark with hold | hnew
    · exact (h key entry hget hkey hbefore hlow hold).recordChunk
    · exact PendingContentEntry.covers_recordChunk_beyond hnew hhigh
  | retired source key metadata now entry assembler hget hactive hopen hcore =>
    refine h.set hcore ?_
    intro hkey hsized hlow hhigh
    have hsame := PendingContentEntry.retire_same entry source
    have hcovers := h key entry hget hkey (hsame.sized ▸ hsized) hlow (hsame.rangeHighWaterMark ▸ hhigh)
    apply hcovers.retire (hwf key entry hget).slots hactive
    intro range hrange hi
    subst hkey
    have hstays : n.closesWith p key entry metadata now = false := by
      rcases hopen with ⟨hunknown, -⟩ | ⟨-, hmissing, hunverified, -⟩
      · simp [closesWith, PendingContentEntry.haveAll, hunknown]
      · simp [closesWith, hmissing, hunverified]
    simpa [finishesDelivered, hget, hrange, hi, hstays] using hcondition
  | rejected source key metadata now entry hget hactive hcore => exact h.delete hcore
  | resolved source key metadata now entry data hget hactive _ _ _ hcore => exact h.delete hcore

/-- An index stays covered in every run in which no provider finishes a range
with the index in it before the index was received. -/
theorem index_covered
    (h : (system p).ReachableUnder (fun n e => finishesDelivered p contentId i n e = true) n)
    {entry : PendingContentEntry} {total : ℤ}
    (hget : n.pendingContentRequests.get? contentId = some entry)
    (htotal : entry.totalChunks = some total) (hlow : 0 ≤ i) (hhigh : i ≤ entry.rangeHighWaterMark) :
    entry.Covers i := by
  have hcovered : n.OpenRequests (IndexCovered contentId i) := by
    apply h.invariant_of (J := fun n => n.OpenRequests fun _ entry => entry.WellFormed)
    · exact fun s hs => wellFormed_of_reachable hs.reachable
    · rintro s ⟨nodeId, o, rfl⟩ key entry hget
      simp [create] at hget
    · rintro s e s' hwf hs hcondition hstep -
      obtain rfl := Option.some.inj hstep
      exact indexCovered_step hs hwf hcondition (effect_of_step p s e)
  have hsized := (wellFormed_of_reachable h.reachable contentId entry hget).sized_of_known htotal
  exact hcovered contentId entry hget rfl hsized hlow hhigh

/-! ### Runs -/

def atlasRuntime : Platform := samplePlatform []

/-- Metadata that claims four chunks. -/
def atlasMetadata : ContentMetadata :=
  { publishedMetadata atlasRuntime "author" [] with size := 4 * chunkSize }

/-- A provider is asked for the first two of four chunks, sends those in `sent`
and says that it has finished. -/
def atlasTransfer (sent : List ℤ) : List ContentEvent :=
  [.getContent "atlas" 0 1, .receive "provider" (.found "atlas" (some atlasMetadata)) 2] ++
    (sent.map fun k => .receive "provider" (.chunk "atlas" (some k) (some 4) []) 3) ++
    [.receive "provider" (.complete "atlas" (some atlasMetadata)) 4]

/-- Where index 1 is, in a request for four chunks with the mark at the last. -/
def atlasIndex (n : ContentNode) : Option (Option ℤ × ℤ × Bool × Bool × Bool) :=
  (n.pendingContentRequests.get? "atlas").map fun entry =>
    (entry.totalChunks, entry.rangeHighWaterMark, decide (1 ∈ entry.receivedChunks),
      entry.activeFetches.values.any fun range => decide (1 ∈ range),
      entry.unassignedRanges.any fun range => decide (1 ∈ range))

/-- Both chunks arrive. -/
theorem index_covered_atlas :
    ∃ n entry, (system atlasRuntime).ReachableUnder
        (fun n e => finishesDelivered atlasRuntime "atlas" 1 n e = true) n ∧
      n.pendingContentRequests.get? "atlas" = some entry ∧ entry.totalChunks = some 4 ∧
      entry.rangeHighWaterMark = 3 ∧ entry.Covers 1 := by
  have hrun : (((system atlasRuntime).runUnder (fun n e => finishesDelivered atlasRuntime "atlas" 1 n e)
      (create "me" {}) (atlasTransfer [0, 1])).map atlasIndex) =
        some (some (some 4, 3, true, false, false)) := by
    decide +kernel
  obtain ⟨n, hn, hindex⟩ := Option.map_eq_some_iff.mp hrun
  obtain ⟨entry, hget, hentry⟩ := Option.map_eq_some_iff.mp hindex
  have hreach : (system atlasRuntime).ReachableUnder
      (fun n e => finishesDelivered atlasRuntime "atlas" 1 n e = true) n :=
    System.reachableUnder_of_runUnder ⟨"me", {}, rfl⟩ hn
  simp only [Prod.mk.injEq] at hentry
  obtain ⟨htotal, hmark, -⟩ := hentry
  exact ⟨n, entry, hreach, hget, htotal, hmark, index_covered hreach hget htotal (by decide) (by omega)⟩

/-- The chunk with index 1 is lost and the provider says that it has finished:
nobody will ask for that chunk again. -/
theorem index_forgotten :
    ¬∀ (p : Platform) (n : ContentNode), (system p).Reachable n → ∀ contentId entry total,
      n.pendingContentRequests.get? contentId = some entry → entry.totalChunks = some total →
      ∀ i, 0 ≤ i → i ≤ entry.rangeHighWaterMark → entry.Covers i := by
  intro hclaim
  have hrun : (((system atlasRuntime).run (create "me" {}) (atlasTransfer [0])).map atlasIndex) =
      some (some (some 4, 3, false, false, false)) := by
    decide +kernel
  obtain ⟨n, hn, hindex⟩ := Option.map_eq_some_iff.mp hrun
  obtain ⟨entry, hget, hentry⟩ := Option.map_eq_some_iff.mp hindex
  have hreach : (system atlasRuntime).Reachable n := System.reachable_of_run ⟨"me", {}, rfl⟩ hn
  simp only [Prod.mk.injEq] at hentry
  obtain ⟨htotal, hmark, hreceived, hactive, hunassigned⟩ := hentry
  rcases hclaim atlasRuntime n hreach "atlas" entry 4 hget htotal 1 (by decide) (by omega) with
    hin | ⟨s, range, hfetch, hin⟩ | ⟨range, hmem, hin⟩
  · exact absurd hin (of_decide_eq_false hreceived)
  · have hvalue : range ∈ entry.activeFetches.values :=
      OrderedMap.mem_values.mpr ⟨s, OrderedMap.get?_eq_some.mp hfetch⟩
    have hnot := List.any_eq_false.mp hactive range hvalue
    exact hnot (decide_eq_true hin)
  · have hnot := List.any_eq_false.mp hunassigned range hmem
    exact hnot (decide_eq_true hin)

end ContentNode
end Arald
