import Arald.Content.Effects

/-!
# The received indices and the assembler

A request remembers which indices it received, the assembler keeps the chunks
themselves. The two are filled by the same handler but live differently: the
assembler also takes chunks that nobody asked for, gives contents up when it is
full, and gives a complete content up even if it does not verify.
-/

namespace Arald

open Foundations

namespace PendingContentEntry

variable {e : PendingContentEntry} {source : String} {metadata? : Option ContentMetadata}

/-- A reply does not touch what was received. -/
theorem found_received (e : PendingContentEntry) (source : String) (metadata? : Option ContentMetadata) :
    (e.found source metadata?).totalChunks = e.totalChunks ∧
      (e.found source metadata?).receivedChunks = e.receivedChunks := by
  unfold found
  split
  · exact ⟨rfl, rfl⟩
  · split
    · split
      · unfold sizeTransfer
        dsimp only
        split
        · exact ⟨rfl, rfl⟩
        · exact ⟨rfl, rfl⟩
      · exact ⟨rfl, rfl⟩
    · split
      · next e1 hnext =>
        have hsame := tryAssignUnassignedRange_same hnext
        exact ⟨hsame.totalChunks, hsame.receivedChunks⟩
      · split
        · exact ⟨rfl, rfl⟩
        · exact ⟨rfl, rfl⟩

theorem recordChunk_received (chunkIndex totalChunks : ℤ) :
    (e.recordChunk chunkIndex totalChunks).totalChunks = some (e.totalChunks.getD totalChunks) ∧
      (e.recordChunk chunkIndex totalChunks).receivedChunks =
        if chunkIndex < e.totalChunks.getD totalChunks then insert chunkIndex e.receivedChunks
        else e.receivedChunks := by
  unfold recordChunk
  dsimp only
  split
  · exact ⟨rfl, rfl⟩
  · exact ⟨rfl, rfl⟩

end PendingContentEntry

namespace ContentNode

/-- The assembler holds every received chunk, under the request's total. -/
def Backed (assembler : ChunkAssembler) (contentId : String) (entry : PendingContentEntry) : Prop :=
  ∀ total, entry.totalChunks = some total →
    ∃ held, assembler.entries.get? contentId = some held ∧ held.totalChunks = total ∧
      ∀ i ∈ entry.receivedChunks, held.chunks.has i = true

/-- For every open request with a known total, a received index is held by the
assembler under that total, and once all are received the assembler can complete. -/
def BookkeepingAgrees (n : ContentNode) : Prop :=
  ∀ contentId entry total, n.pendingContentRequests.get? contentId = some entry →
    entry.totalChunks = some total →
    (∀ i ∈ entry.receivedChunks, ∃ held, n.requesterAssembler.entries.get? contentId = some held ∧
      held.totalChunks = total ∧ held.chunks.has i = true) ∧
    (total ≤ entry.receivedChunks.card → ∃ held,
      n.requesterAssembler.entries.get? contentId = some held ∧ held.isComplete = true)

/-- A chunk of the content takes no place in the assembler from an open request
that has received something. -/
def makesRoomHarmlessly (n : ContentNode) (contentId : String) : Bool :=
  n.requesterAssembler.entries.has contentId || !n.requesterAssembler.isFull ||
    n.requesterAssembler.entries.oldest?.all fun oldestKey =>
      (n.pendingContentRequests.get? oldestKey).all fun entry => entry.totalChunks.isNone

/-- The assembler holds nothing of the content under another total. -/
def heldUnder (n : ContentNode) (contentId : String) (totalChunks : ℤ) : Bool :=
  (n.requesterAssembler.entries.get? contentId).all fun held => held.totalChunks = totalChunks

/-- The event does not make the two part: a chunk that is put away pushes no
request out that has received something, and the first chunk of a request finds
no left-overs under another total; a provider does not finish while the chunks
of a content, some of them left over, are complete without verifying. -/
def keepsInStep (p : Platform) (n : ContentNode) : ContentEvent → Bool
  | .receive source (.chunk contentId (some chunkIndex) (some totalChunks) _) _ =>
    !n.requesterAssembler.admits chunkIndex totalChunks ||
      match n.pendingContentRequests.get? contentId with
      | some entry =>
        !entry.activeFetches.has source ||
          (n.makesRoomHarmlessly contentId &&
            (entry.totalChunks.isSome || n.heldUnder contentId totalChunks))
      | none => n.makesRoomHarmlessly contentId
  | .receive source (.complete contentId (some metadata)) now =>
    match n.pendingContentRequests.get? contentId with
    | some entry =>
      !entry.activeFetches.has source || entry.totalChunks.isNone || entry.haveAll ||
        (n.assembled? contentId).isNone || n.assembledVerifies p contentId entry metadata now
    | none => true
  | _ => true

variable {p : Platform} {n n' : ContentNode} {e : ContentEvent} {contentId : String}
  {assembler assembler' : ChunkAssembler} {entry entry' : PendingContentEntry}

theorem Backed.of_received (h : Backed assembler contentId entry)
    (htotal : entry'.totalChunks = entry.totalChunks)
    (hreceived : entry'.receivedChunks = entry.receivedChunks) : Backed assembler contentId entry' := by
  intro total hknown
  rw [htotal] at hknown
  rw [hreceived]
  exact h total hknown

theorem Backed.of_same (h : Backed assembler contentId entry) (hsame : entry.SameTransfer entry') :
    Backed assembler contentId entry' :=
  h.of_received hsame.totalChunks hsame.receivedChunks

theorem Backed.of_get? (h : Backed assembler contentId entry)
    (hget : assembler'.entries.get? contentId = assembler.entries.get? contentId) :
    Backed assembler' contentId entry := by
  intro total hknown
  rw [hget]
  exact h total hknown

theorem backed_entryInvariant (assembler : ChunkAssembler) : EntryInvariant (Backed assembler) where
  fresh := fun contentId total h => by simp at h
  flushed := fun _ _ h => h
  join := fun _ _ _ h => h
  leave := fun _ _ _ h => h

/-- Another open request keeps its chunks when a chunk is put away harmlessly. -/
theorem Backed.place_of_ne {key : String} {chunkIndex totalChunks : ℤ} {data : Buffer}
    (h : Backed n.requesterAssembler key entry) (hne : key ≠ contentId)
    (hget : n.pendingContentRequests.get? key = some entry)
    (hroom : n.makesRoomHarmlessly contentId = true) :
    Backed (n.requesterAssembler.place contentId chunkIndex totalChunks data) key entry := by
  rcases n.requesterAssembler.get?_place_of_ne chunkIndex totalChunks data hne with hsame | ⟨hnone, hfull, hold⟩
  · exact h.of_get? hsame
  · intro total hknown
    simp [makesRoomHarmlessly, OrderedMap.has, hnone, hfull, hold, hget, hknown] at hroom

/-- The request itself gains the chunk on both sides. -/
theorem Backed.place_self (chunkIndex totalChunks : ℤ) (data : Buffer)
    (h : Backed n.requesterAssembler contentId entry) (hwf : entry.WellFormed)
    (hleft : entry.totalChunks.isSome = true ∨ n.heldUnder contentId totalChunks = true) :
    Backed (n.requesterAssembler.place contentId chunkIndex totalChunks data) contentId
      (entry.recordChunk chunkIndex totalChunks) := by
  obtain ⟨htotal, hreceived⟩ := PendingContentEntry.recordChunk_received (e := entry) chunkIndex totalChunks
  -- Whatever held the received chunks before holds them, and the new one, after.
  have hgrown : ∀ chunks : OrderedMap ℤ Buffer, (∀ i ∈ entry.receivedChunks, chunks.has i = true) →
      ∀ i ∈ (entry.recordChunk chunkIndex totalChunks).receivedChunks,
        (chunks.set chunkIndex data).has i = true := by
    intro chunks hold i hi
    rw [OrderedMap.has_iff, OrderedMap.mem_keys_set]
    rw [hreceived] at hi
    split at hi
    · rcases Finset.mem_insert.mp hi with rfl | hmem
      · exact .inl rfl
      · exact .inr (OrderedMap.has_iff.mp (hold i hmem))
    · exact .inr (OrderedMap.has_iff.mp (hold i hi))
  intro total hknown
  obtain rfl := Option.some.inj (htotal.symm.trans hknown)
  cases hbefore : entry.totalChunks with
  | some before =>
    obtain ⟨held, hget, hheld, hchunks⟩ := h before hbefore
    exact ⟨_, ChunkAssembler.get?_place_self_of_some _ _ _ hget, hheld, hgrown held.chunks hchunks⟩
  | none =>
    have hnothing : ∀ chunks : OrderedMap ℤ Buffer, ∀ i ∈ entry.receivedChunks, chunks.has i = true := by
      intro chunks i hi
      obtain ⟨before, hsome, -⟩ := hwf.received i hi
      simp [hbefore] at hsome
    cases hget : n.requesterAssembler.entries.get? contentId with
    | some held =>
      have hheld : held.totalChunks = totalChunks := by simpa [hbefore, heldUnder, hget] using hleft
      exact ⟨_, ChunkAssembler.get?_place_self_of_some _ _ _ hget, hheld, hgrown held.chunks (hnothing _)⟩
    | none =>
      exact ⟨_, ChunkAssembler.get?_place_self_of_none _ _ _ hget, rfl, hgrown _ (hnothing _)⟩

/-- The invariant of the run: every open request is backed by the assembler. -/
def InStep (n : ContentNode) : Prop := n.OpenRequests (Backed n.requesterAssembler)

/-- One request changes, the others keep what they have in the new assembler. -/
theorem InStep.set {resolutions : List Resolution}
    (hcore : n'.HasCore (n.pendingContentRequests.set contentId entry') assembler' resolutions)
    (hentry : Backed assembler' contentId entry')
    (hothers : ∀ key entry, key ≠ contentId → n.pendingContentRequests.get? key = some entry →
      Backed assembler' key entry) : n'.InStep := by
  intro key entry hget
  rw [hcore.pending, OrderedMap.get?_set] at hget
  rw [hcore.assembler]
  split at hget
  · next hkey =>
    obtain rfl := Option.some.inj hget
    exact hkey ▸ hentry
  · next hne => exact hothers key entry hne hget

theorem InStep.delete {resolutions : List Resolution}
    (hcore : n'.HasCore (n.pendingContentRequests.delete contentId) assembler' resolutions)
    (hothers : ∀ key entry, key ≠ contentId → n.pendingContentRequests.get? key = some entry →
      Backed assembler' key entry) : n'.InStep := by
  intro key entry hget
  rw [hcore.pending, OrderedMap.get?_delete] at hget
  rw [hcore.assembler]
  split at hget
  · simp at hget
  · next hne => exact hothers key entry hne hget

/-- An assembly that closes nothing leaves the assembler as it is. -/
theorem tryComplete_of_inStep {metadata : ContentMetadata} (hincomplete : n.assembled? contentId = none) :
    (n.requesterAssembler.tryComplete p contentId metadata).1 = n.requesterAssembler := by
  unfold assembled? at hincomplete
  cases hget : n.requesterAssembler.entries.get? contentId with
  | none => simp [ChunkAssembler.tryComplete, hget]
  | some held =>
    have hheld : held.isComplete = false := by simpa [hget] using hincomplete
    rw [ChunkAssembler.tryComplete_keeps hget hheld]

theorem InStep.step (h : n.InStep) (hwf : n.OpenRequests fun _ entry => entry.WellFormed)
    (hcondition : n.keepsInStep p e = true) (heffect : Effect p n n' e) : n'.InStep := by
  have hP := backed_entryInvariant n.requesterAssembler
  have hothers : ∀ contentId key entry, key ≠ contentId →
      n.pendingContentRequests.get? key = some entry → Backed n.requesterAssembler key entry :=
    fun contentId key entry _ hget => h key entry hget
  have hcompleted : ∀ (metadata : ContentMetadata) contentId key entry, key ≠ contentId →
      n.pendingContentRequests.get? key = some entry →
      Backed (n.requesterAssembler.tryComplete p contentId metadata).1 key entry := by
    intro metadata contentId key entry hne hget
    exact (h key entry hget).of_get? (ChunkAssembler.get?_tryComplete_of_ne hne)
  cases heffect with
  | none e hcore =>
    unfold InStep
    rw [hcore.assembler]
    exact OpenRequests.same h hcore
  | asked contentId waiter now hcore => exact .set hcore (hP.asked h waiter) (hothers contentId)
  | left contentId waiter entry hget hcore => exact .set hcore (h contentId entry hget) (hothers contentId)
  | expired contentId waiter hcore => exact .delete hcore (hothers contentId)
  | found source contentId metadata now entry hget hcore =>
    obtain ⟨htotal, hreceived⟩ := PendingContentEntry.found_received entry source metadata
    exact .set hcore ((h contentId entry hget).of_received htotal hreceived) (hothers contentId)
  | abandoned e contentId providerId entry hget hcore =>
    have hsame := PendingContentEntry.abandonFetch_same entry providerId
    exact .set hcore (hP.flushed contentId _ ((h contentId entry hget).of_same hsame)) (hothers contentId)
  | strayChunk source contentId chunkIndex totalChunks data now hget hadmits hcore =>
    have hroom : n.makesRoomHarmlessly contentId = true := by
      simpa [keepsInStep, hadmits, hget] using hcondition
    intro key entry hkey
    rw [hcore.pending] at hkey
    rw [hcore.assembler]
    have hne : key ≠ contentId := by
      rintro rfl
      simp [hget] at hkey
    exact (h key entry hkey).place_of_ne hne hkey hroom
  | chunk source contentId chunkIndex totalChunks data now entry hget hactive hadmits hcore =>
    have hparts : n.makesRoomHarmlessly contentId = true ∧
        (entry.totalChunks.isSome = true ∨ n.heldUnder contentId totalChunks = true) := by
      simpa [keepsInStep, hadmits, hget, hactive] using hcondition
    have hself := (h contentId entry hget).place_self chunkIndex totalChunks data
      (hwf contentId entry hget) hparts.2
    exact .set hcore hself fun key other hne hother => (h key other hother).place_of_ne hne hother hparts.1
  | retired source contentId metadata now entry assembler hget hactive hopen hcore =>
    have hassembler : assembler = n.requesterAssembler := by
      rcases hopen with ⟨-, hsame⟩ | ⟨⟨total, htotal⟩, hmissing, hunverified, hcompleted⟩
      · exact hsame
      · have hincomplete : n.assembled? contentId = none := by
          simpa [keepsInStep, hget, hactive, hmissing, hunverified, htotal] using hcondition
        rw [hcompleted, tryComplete_of_inStep hincomplete]
    subst hassembler
    have hsame := PendingContentEntry.retire_same entry source
    exact .set hcore (hP.flushed contentId _ ((h contentId entry hget).of_same hsame)) (hothers contentId)
  | rejected source contentId metadata now entry hget hactive hcore =>
    exact .delete hcore (hcompleted _ contentId)
  | resolved source contentId metadata now entry data hget hactive _ _ _ hcore =>
    exact .delete hcore (hcompleted _ contentId)

/-- Received indices and assembler agree in every run whose events keep them in step. -/
theorem bookkeeping_agrees
    (h : (system p).ReachableUnder (fun n e => n.keepsInStep p e = true) n) : n.BookkeepingAgrees := by
  have hwf := wellFormed_of_reachable h.reachable
  have hstep : n.InStep := by
    apply h.invariant_of (J := fun n => n.OpenRequests fun _ entry => entry.WellFormed)
    · exact fun s hs => wellFormed_of_reachable hs.reachable
    · rintro s ⟨nodeId, o, rfl⟩ contentId entry hget
      simp [create] at hget
    · rintro s e s' hwf hs hcondition hstep -
      obtain rfl := Option.some.inj hstep
      exact hs.step hwf hcondition (effect_of_step p s e)
  intro contentId entry total hget htotal
  obtain ⟨held, hheld, hsame, hchunks⟩ := hstep contentId entry hget total htotal
  refine ⟨fun i hi => ⟨held, hheld, hsame, hchunks i hi⟩, ?_⟩
  intro hall
  refine ⟨held, hheld, AssemblyEntry.isComplete_of_forall ?_⟩
  intro i hlow hhigh
  exact hchunks i ((hwf contentId entry hget).mem_of_all htotal hall i hlow (hsame ▸ hhigh))

/-! ### Runs -/

def noteRuntime : Platform := samplePlatform []

def noteId : String := noteRuntime.sha256 [65]

/-- A one-byte content is asked for, and its only chunk arrives. -/
def noteTransfer : List ContentEvent :=
  [.getContent noteId 0 1,
    .receive "provider" (.found noteId (some (publishedMetadata noteRuntime "author" [65]))) 2,
    .receive "provider" (.chunk noteId (some 0) (some 1) [65]) 3]

/-- What the request and the assembler say about the content: the total and
whether index 0 was received, the total held and whether that is complete. -/
def noteCounts (n : ContentNode) : Option (Option ℤ × Bool) × Option (ℤ × Bool) :=
  ((n.pendingContentRequests.get? noteId).map fun entry =>
      (entry.totalChunks, decide (0 ∈ entry.receivedChunks)),
    (n.requesterAssembler.entries.get? noteId).map fun held => (held.totalChunks, held.isComplete))

/-- Without left-overs the two agree. -/
theorem bookkeeping_agrees_note :
    ∃ n, (system noteRuntime).ReachableUnder (fun n e => n.keepsInStep noteRuntime e = true) n ∧
      n.noteCounts = (some (some 1, true), some (1, true)) ∧ n.BookkeepingAgrees := by
  have hrun : (((system noteRuntime).runUnder (fun n e => n.keepsInStep noteRuntime e) (create "me" {})
      noteTransfer).map noteCounts) = some (some (some 1, true), some (1, true)) := by
    decide +kernel
  obtain ⟨n, hn, hcounts⟩ := Option.map_eq_some_iff.mp hrun
  have hreach : (system noteRuntime).ReachableUnder (fun n e => n.keepsInStep noteRuntime e = true) n :=
    System.reachableUnder_of_runUnder ⟨"me", {}, rfl⟩ hn
  exact ⟨n, hreach, hcounts, bookkeeping_agrees hreach⟩

/-- A chunk that came before the request and claimed two chunks makes them part:
the request has received all of its one chunk, and the assembler waits for another. -/
theorem bookkeeping_parts :
    ¬∀ (p : Platform) (n : ContentNode), (system p).Reachable n → n.BookkeepingAgrees := by
  intro hclaim
  have hrun : (((system noteRuntime).run (create "me" {})
      (.receive "stranger" (.chunk noteId (some 0) (some 2) [0]) 0 :: noteTransfer)).map noteCounts) =
        some (some (some 1, true), some (2, false)) := by
    decide +kernel
  obtain ⟨n, hn, hcounts⟩ := Option.map_eq_some_iff.mp hrun
  have hreach : (system noteRuntime).Reachable n := System.reachable_of_run ⟨"me", {}, rfl⟩ hn
  obtain ⟨hrequest, hassembler⟩ := Prod.ext_iff.mp hcounts
  obtain ⟨entry, hget, hentry⟩ := Option.map_eq_some_iff.mp hrequest
  obtain ⟨held, hheld, hsizes⟩ := Option.map_eq_some_iff.mp hassembler
  obtain ⟨htotal, hreceived⟩ := Prod.ext_iff.mp hentry
  obtain ⟨hagrees, -⟩ := hclaim noteRuntime n hreach noteId entry 1 hget htotal
  obtain ⟨held', hheld', hsame, -⟩ := hagrees 0 (of_decide_eq_true hreceived)
  obtain rfl := Option.some.inj (hheld.symm.trans hheld')
  have htwo : held.totalChunks = 2 := (Prod.ext_iff.mp hsizes).1
  omega

end ContentNode
end Arald
