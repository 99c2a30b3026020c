import Arald.Content.Node

/-!
# What a step does to the open requests

One case for each way in which a step can change the open requests, the
assembler and the log of resolutions. The invariants of the requester are
derived from these cases alone.
-/

namespace Arald

open Foundations

namespace ContentNode

/-- The reassembled bytes of a content, once all its chunks are there. -/
def assembled? (n : ContentNode) (contentId : String) : Option Buffer :=
  match n.requesterAssembler.entries.get? contentId with
  | some entry => if entry.isComplete then some entry.bytes else none
  | none => none

/-- The reassembled bytes pass every check against the metadata of the request. -/
def assembledVerifies (p : Platform) (n : ContentNode) (contentId : String)
    (entry : PendingContentEntry) (metadata : ContentMetadata) (now : ℤ) : Bool :=
  (n.assembled? contentId).any fun data =>
    ContentStore.verifies p (entry.metadata.getD metadata) data now

/-- The requests, the assembler and the resolutions of a node. -/
structure HasCore (n : ContentNode) (pending : OrderedMap String PendingContentEntry)
    (assembler : ChunkAssembler) (resolutions : List Resolution) : Prop where
  pending : n.pendingContentRequests = pending
  assembler : n.requesterAssembler = assembler
  resolutions : n.resolutions = resolutions

inductive Effect (p : Platform) (n n' : ContentNode) : ContentEvent → Prop
  | none (e) : n'.HasCore n.pendingContentRequests n.requesterAssembler n.resolutions → Effect p n n' e
  | asked (contentId waiter now) :
    n'.HasCore
      (n.pendingContentRequests.set contentId
        { ((n.pendingContentRequests.get? contentId).getD { contentId }).join waiter with
          queried := true }.flushed)
      n.requesterAssembler n.resolutions →
    Effect p n n' (.getContent contentId waiter now)
  | left (contentId waiter) (entry : PendingContentEntry) :
    n.pendingContentRequests.get? contentId = some entry →
    n'.HasCore (n.pendingContentRequests.set contentId (entry.leave waiter).flushed)
      n.requesterAssembler n.resolutions →
    Effect p n n' (.waiterTimeout contentId waiter)
  | expired (contentId waiter) :
    n'.HasCore (n.pendingContentRequests.delete contentId) n.requesterAssembler n.resolutions →
    Effect p n n' (.waiterTimeout contentId waiter)
  | found (source contentId metadata now) (entry : PendingContentEntry) :
    n.pendingContentRequests.get? contentId = some entry →
    n'.HasCore (n.pendingContentRequests.set contentId (entry.found source metadata).flushed)
      n.requesterAssembler n.resolutions →
    Effect p n n' (.receive source (.found contentId metadata) now)
  | abandoned (e contentId providerId) (entry : PendingContentEntry) :
    n.pendingContentRequests.get? contentId = some entry →
    n'.HasCore (n.pendingContentRequests.set contentId (entry.abandonFetch providerId).flushed)
      n.requesterAssembler n.resolutions →
    Effect p n n' e
  | strayChunk (source contentId chunkIndex totalChunks data now) :
    n.pendingContentRequests.get? contentId = .none →
    n.requesterAssembler.admits chunkIndex totalChunks = true →
    n'.HasCore n.pendingContentRequests
      (n.requesterAssembler.place contentId chunkIndex totalChunks data) n.resolutions →
    Effect p n n' (.receive source (.chunk contentId (some chunkIndex) (some totalChunks) data) now)
  | chunk (source contentId chunkIndex totalChunks data now) (entry : PendingContentEntry) :
    n.pendingContentRequests.get? contentId = some entry →
    entry.activeFetches.has source = true →
    n.requesterAssembler.admits chunkIndex totalChunks = true →
    n'.HasCore
      (n.pendingContentRequests.set contentId (entry.recordChunk chunkIndex totalChunks).flushed)
      (n.requesterAssembler.place contentId chunkIndex totalChunks data) n.resolutions →
    Effect p n n' (.receive source (.chunk contentId (some chunkIndex) (some totalChunks) data) now)
  /-- The request stays open, either before its first chunk or while chunks are expected. -/
  | retired (source contentId metadata now) (entry : PendingContentEntry) (assembler) :
    n.pendingContentRequests.get? contentId = some entry →
    entry.activeFetches.has source = true →
    (entry.totalChunks = .none ∧ assembler = n.requesterAssembler ∨
      (∃ total, entry.totalChunks = some total) ∧ entry.haveAll = false ∧
        n.assembledVerifies p contentId entry metadata now = false ∧
        assembler = (n.requesterAssembler.tryComplete p contentId (entry.metadata.getD metadata)).1) →
    n'.HasCore (n.pendingContentRequests.set contentId (entry.retire source).flushed)
      assembler n.resolutions →
    Effect p n n' (.receive source (.complete contentId (some metadata)) now)
  | rejected (source contentId metadata now) (entry : PendingContentEntry) :
    n.pendingContentRequests.get? contentId = some entry →
    entry.activeFetches.has source = true →
    n'.HasCore (n.pendingContentRequests.delete contentId)
      (n.requesterAssembler.tryComplete p contentId (entry.metadata.getD metadata)).1 n.resolutions →
    Effect p n n' (.receive source (.complete contentId (some metadata)) now)
  | resolved (source contentId metadata now) (entry : PendingContentEntry) (data) :
    n.pendingContentRequests.get? contentId = some entry →
    entry.activeFetches.has source = true →
    (∃ total, entry.totalChunks = some total) →
    (n.requesterAssembler.tryComplete p contentId (entry.metadata.getD metadata)).2 = some data →
    ContentStore.verifies p (entry.metadata.getD metadata) data now = true →
    n'.HasCore (n.pendingContentRequests.delete contentId)
      (n.requesterAssembler.tryComplete p contentId (entry.metadata.getD metadata)).1
      (n.resolutions ++ [⟨contentId, entry.metadata.getD metadata, data,
        decodeStoredContent p (entry.metadata.getD metadata) data, entry.waiters⟩]) →
    Effect p n n' (.receive source (.complete contentId (some metadata)) now)

section
variable {p : Platform} {n : ContentNode} {source contentId : String} {now : ℤ}

theorem HasCore.refl (n : ContentNode) :
    n.HasCore n.pendingContentRequests n.requesterAssembler n.resolutions := ⟨rfl, rfl, rfl⟩

/-! ### The handlers one by one -/

theorem hasCore_update (entry : PendingContentEntry) :
    (n.update contentId entry).HasCore (n.pendingContentRequests.set contentId entry.flushed)
      n.requesterAssembler n.resolutions := ⟨rfl, rfl, rfl⟩

theorem handleContentQuery_core : (n.handleContentQuery source contentId now).HasCore
    n.pendingContentRequests n.requesterAssembler n.resolutions := by
  unfold handleContentQuery
  dsimp only
  split
  · exact ⟨rfl, rfl, rfl⟩
  · exact ⟨rfl, rfl, rfl⟩

theorem handleContentRequest_core (chunkStart chunkEnd : Option ℤ) :
    (n.handleContentRequest source contentId chunkStart chunkEnd now).HasCore
      n.pendingContentRequests n.requesterAssembler n.resolutions := by
  unfold handleContentRequest
  dsimp only
  split
  · exact ⟨rfl, rfl, rfl⟩
  · exact ⟨rfl, rfl, rfl⟩

theorem getContent_effect (waiter : ℕ) :
    Effect p n (n.getContent p contentId waiter now).1 (.getContent contentId waiter now) := by
  unfold getContent
  dsimp only
  split
  · exact .none _ ⟨rfl, rfl, rfl⟩
  · split
    · next hqueried =>
      apply Effect.asked
      refine ⟨?_, rfl, rfl⟩
      have hsame : ∀ entry : PendingContentEntry, entry.queried = true →
          { entry with queried := true } = entry := by
        intro entry h
        rw [← h]
      rw [hsame _ hqueried]
      rfl
    · exact .asked contentId waiter now ⟨rfl, rfl, rfl⟩

theorem waiterTimeout_effect (waiter : ℕ) :
    Effect p n (n.waiterTimeout contentId waiter) (.waiterTimeout contentId waiter) := by
  unfold waiterTimeout
  split
  · exact .none _ (.refl n)
  · next entry hget =>
    split
    · exact .none _ (.refl n)
    · dsimp only
      split
      · exact .expired contentId waiter ⟨rfl, rfl, rfl⟩
      · exact .left contentId waiter entry hget ⟨rfl, rfl, rfl⟩

theorem abandonFetch_effect (providerId : String) (e : ContentEvent) :
    Effect p n (n.abandonFetch contentId providerId) e := by
  unfold abandonFetch
  split
  · next entry hget => exact .abandoned e contentId providerId entry hget (hasCore_update _)
  · exact .none e (.refl n)

theorem handleContentFound_effect (metadata : Option ContentMetadata) :
    Effect p n (n.handleContentFound source contentId metadata)
      (.receive source (.found contentId metadata) now) := by
  unfold handleContentFound
  split
  · next entry hget => exact .found source contentId metadata now entry hget (hasCore_update _)
  · exact .none _ (.refl n)

theorem handleContentNotFound_effect (e : ContentEvent) :
    Effect p n (n.handleContentNotFound source contentId) e := by
  unfold handleContentNotFound
  split
  · split
    · exact abandonFetch_effect source e
    · exact .none e (.refl n)
  · exact .none e (.refl n)

theorem handleContentChunk_effect (chunkIndex? totalChunks? : Option ℤ) (data : Buffer) :
    Effect p n (n.handleContentChunk source contentId chunkIndex? totalChunks? data)
      (.receive source (.chunk contentId chunkIndex? totalChunks? data) now) := by
  unfold handleContentChunk
  dsimp only
  cases haccepted : (n.requesterAssembler.addChunk contentId chunkIndex? totalChunks? data).2 with
  | false =>
    have hsame := ChunkAssembler.addChunk_rejected haccepted
    split
    · split
      · exact .none _ (.refl n)
      · exact .none _ ⟨rfl, hsame, rfl⟩
    · exact .none _ ⟨rfl, hsame, rfl⟩
  | true =>
    obtain ⟨chunkIndex, totalChunks, rfl, rfl, hadmits, hplace⟩ :=
      ChunkAssembler.addChunk_accepted haccepted
    split
    · next entry hget =>
      cases hactive : entry.activeFetches.has source with
      | false => exact .none _ (.refl n)
      | true =>
        refine .chunk source contentId chunkIndex totalChunks data now entry hget hactive hadmits ?_
        exact ⟨rfl, hplace, rfl⟩
    · next hget =>
      refine .strayChunk source contentId chunkIndex totalChunks data now hget hadmits ?_
      exact ⟨rfl, hplace, rfl⟩

/-- What comes out of the assembler is what was complete, if its digest is right. -/
theorem tryComplete_assembled (metadata : ContentMetadata) :
    (n.requesterAssembler.tryComplete p contentId metadata).2 =
      (n.assembled? contentId).filter fun data => computeContentId p data = metadata.contentId := by
  unfold ChunkAssembler.tryComplete assembled?
  cases n.requesterAssembler.entries.get? contentId with
  | none => rfl
  | some entry =>
    cases hcomplete : entry.isComplete with
    | true => simp [hcomplete, Option.filter_some]
    | false => simp [hcomplete]

/-- The check of `putVerified` includes the one of the assembler. -/
theorem assembledVerifies_iff {entry : PendingContentEntry} {metadata : ContentMetadata} :
    n.assembledVerifies p contentId entry metadata now = true ↔
      ∃ data, (n.requesterAssembler.tryComplete p contentId (entry.metadata.getD metadata)).2 = some data ∧
        ContentStore.verifies p (entry.metadata.getD metadata) data now = true := by
  rw [assembledVerifies, tryComplete_assembled]
  cases n.assembled? contentId with
  | none => simp
  | some data =>
    simp only [Option.any_some, Option.filter_some]
    constructor
    · intro hverifies
      have hid : computeContentId p data = (entry.metadata.getD metadata).contentId :=
        ContentStore.sha256_of_verifies hverifies
      exact ⟨data, by simp [hid], hverifies⟩
    · rintro ⟨data', hdata, hverifies⟩
      split at hdata
      · obtain rfl := Option.some.inj hdata
        exact hverifies
      · simp at hdata

/-- A failed assembly closes the request exactly when every chunk is in. -/
theorem rejectIfAll_effect {entry : PendingContentEntry} {n' : ContentNode}
    (metadata : ContentMetadata) (error : String) (hget : n.pendingContentRequests.get? contentId = some entry)
    (hactive : entry.activeFetches.has source = true) (htotal : ∃ total, entry.totalChunks = some total)
    (hunverified : n.assembledVerifies p contentId entry metadata now = false)
    (hcore : n'.HasCore (n.pendingContentRequests.set contentId (entry.retire source).flushed)
      (n.requesterAssembler.tryComplete p contentId (entry.metadata.getD metadata)).1 n.resolutions)
    (entry' : PendingContentEntry) (hsame : entry'.haveAll = entry.haveAll) :
    Effect p n (n'.rejectIfAll contentId entry' error)
      (.receive source (.complete contentId (some metadata)) now) := by
  unfold rejectIfAll
  rw [hsame]
  cases hall : entry.haveAll with
  | true =>
    refine .rejected source contentId metadata now entry hget hactive ⟨?_, hcore.assembler, hcore.resolutions⟩
    rw [if_pos rfl]
    dsimp only
    rw [hcore.pending, OrderedMap.delete_set_self]
  | false =>
    exact .retired source contentId metadata now entry _ hget hactive (.inr ⟨htotal, hall, hunverified, rfl⟩) hcore

/-- Completing a request whose provider is fetching. -/
theorem complete_effect {entry : PendingContentEntry} {metadata : ContentMetadata}
    (hget : n.pendingContentRequests.get? contentId = some entry)
    (hactive : entry.activeFetches.has source = true) :
    Effect p n
      ((n.update contentId (entry.retire source)).tryAssembleAndResolve p contentId metadata now)
      (.receive source (.complete contentId (some metadata)) now) := by
  have hsame : entry.SameTransfer (entry.retire source).flushed :=
    (PendingContentEntry.retire_same entry source).trans PendingContentEntry.flushed_same
  have hall : (entry.retire source).flushed.haveAll = entry.haveAll := by
    simp only [PendingContentEntry.haveAll, hsame.totalChunks, hsame.receivedChunks]
  have hget' : (n.update contentId (entry.retire source)).pendingContentRequests.get? contentId =
      some (entry.retire source).flushed := OrderedMap.get?_set_self _ _ _
  unfold tryAssembleAndResolve
  rw [hget']
  dsimp only
  rw [hsame.totalChunks, hsame.metadata]
  cases htotal : entry.totalChunks with
  | none =>
    exact .retired source contentId metadata now entry _ hget hactive (.inl ⟨htotal, rfl⟩) (hasCore_update _)
  | some total =>
    simp only [Option.isNone_some, Bool.false_eq_true, if_false]
    split
    · next data hdata =>
      cases hverifies : ContentStore.verifies p (entry.metadata.getD metadata) data now with
      | true =>
        rw [ContentStore.putVerified_of_verifies hverifies]
        refine .resolved source contentId metadata now entry data hget hactive ⟨total, htotal⟩ hdata hverifies
          ⟨?_, rfl, ?_⟩
        · exact OrderedMap.delete_set_self _ _ _
        · simp only [resolve, hsame.waiters]
          rfl
      | false =>
        rw [ContentStore.putVerified_of_not_verifies hverifies]
        have hunverified : n.assembledVerifies p contentId entry metadata now = false := by
          apply eq_false_of_ne_true
          intro hassembled
          obtain ⟨data', hdata', hverifies'⟩ := assembledVerifies_iff.mp hassembled
          obtain rfl := Option.some.inj (hdata.symm.trans hdata')
          simp [hverifies] at hverifies'
        refine rejectIfAll_effect metadata _ hget hactive ⟨total, htotal⟩ hunverified ?_ _ hall
        exact ⟨rfl, rfl, rfl⟩
    · next hdata =>
      have hunverified : n.assembledVerifies p contentId entry metadata now = false := by
        apply eq_false_of_ne_true
        intro hassembled
        obtain ⟨data', hdata', -⟩ := assembledVerifies_iff.mp hassembled
        have hnone : some data' = none := hdata'.symm.trans hdata
        simp at hnone
      refine rejectIfAll_effect metadata _ hget hactive ⟨total, htotal⟩ hunverified ?_ _ hall
      exact ⟨rfl, rfl, rfl⟩

theorem handleContentComplete_effect (metadata? : Option ContentMetadata) :
    Effect p n (n.handleContentComplete p source contentId metadata? now)
      (.receive source (.complete contentId metadata?) now) := by
  unfold handleContentComplete
  cases metadata? with
  | none => exact .none _ (.refl n)
  | some metadata =>
    dsimp only
    cases hget : n.pendingContentRequests.get? contentId with
    | none =>
      have hnothing : n.tryAssembleAndResolve p contentId metadata now = n := by
        simp [tryAssembleAndResolve, hget]
      dsimp only
      rw [hnothing]
      exact .none _ (.refl n)
    | some entry =>
      dsimp only
      cases hactive : entry.activeFetches.has source with
      | false => exact .none _ (.refl n)
      | true => exact complete_effect hget hactive

theorem effect_of_step (p : Platform) (n : ContentNode) (e : ContentEvent) : Effect p n (n.step p e) e := by
  cases e with
  | getContent contentId waiter now => exact getContent_effect waiter
  | receive source message now =>
    cases message with
    | query contentId => exact .none _ handleContentQuery_core
    | found contentId metadata => exact handleContentFound_effect metadata
    | notFound contentId => exact handleContentNotFound_effect _
    | request contentId chunkStart chunkEnd => exact .none _ (handleContentRequest_core _ _)
    | chunk contentId chunkIndex totalChunks data => exact handleContentChunk_effect _ _ _
    | complete contentId metadata => exact handleContentComplete_effect metadata
  | waiterTimeout contentId waiter => exact waiterTimeout_effect waiter
  | fetchTimeout contentId providerId => exact abandonFetch_effect providerId _
  | disconnected peerId => exact .none _ (.refl n)
  | stored metadata data now => exact .none _ ⟨rfl, rfl, rfl⟩
  | peerSeen peerId => exact .none _ ⟨rfl, rfl, rfl⟩
  | setTrust nodeId level => exact .none _ ⟨rfl, rfl, rfl⟩

/-! ### Properties of the open requests -/

/-- A property of every open request. -/
def OpenRequests (n : ContentNode) (P : String → PendingContentEntry → Prop) : Prop :=
  ∀ contentId entry, n.pendingContentRequests.get? contentId = some entry → P contentId entry

theorem OpenRequests.set {n' : ContentNode} {P : String → PendingContentEntry → Prop}
    {entry : PendingContentEntry} {assembler : ChunkAssembler} {resolutions : List Resolution}
    (h : n.OpenRequests P)
    (hcore : n'.HasCore (n.pendingContentRequests.set contentId entry) assembler resolutions)
    (hentry : P contentId entry) : n'.OpenRequests P := by
  unfold OpenRequests
  rw [hcore.pending]
  exact OrderedMap.forall_get?_set h hentry

theorem OpenRequests.delete {n' : ContentNode} {P : String → PendingContentEntry → Prop}
    {assembler : ChunkAssembler} {resolutions : List Resolution} (h : n.OpenRequests P)
    (hcore : n'.HasCore (n.pendingContentRequests.delete contentId) assembler resolutions) :
    n'.OpenRequests P := by
  unfold OpenRequests
  rw [hcore.pending]
  exact OrderedMap.forall_get?_delete contentId h

theorem OpenRequests.same {n' : ContentNode} {P : String → PendingContentEntry → Prop}
    {assembler : ChunkAssembler} {resolutions : List Resolution} (h : n.OpenRequests P)
    (hcore : n'.HasCore n.pendingContentRequests assembler resolutions) : n'.OpenRequests P := by
  unfold OpenRequests
  rw [hcore.pending]
  exact h

/-- Properties of open requests that every operation on an entry preserves. -/
structure EntryInvariant (P : String → PendingContentEntry → Prop) : Prop where
  fresh : ∀ contentId, P contentId { contentId }
  flushed : ∀ contentId entry, P contentId entry → P contentId entry.flushed
  join : ∀ contentId entry waiter, P contentId entry →
    P contentId { entry.join waiter with queried := true }
  leave : ∀ contentId entry waiter, P contentId entry → P contentId (entry.leave waiter)

/-- Waiting and giving up leave every entry invariant alone. -/
theorem EntryInvariant.asked {P : String → PendingContentEntry → Prop} (hP : EntryInvariant P)
    (h : n.OpenRequests P) (waiter : ℕ) :
    P contentId { ((n.pendingContentRequests.get? contentId).getD { contentId }).join waiter with
      queried := true }.flushed := by
  apply hP.flushed
  apply hP.join
  cases hget : n.pendingContentRequests.get? contentId with
  | none => exact hP.fresh contentId
  | some entry => exact h contentId entry hget

end

section
variable {p : Platform} {n n' : ContentNode}

theorem wellFormed_entryInvariant : EntryInvariant fun _ entry => entry.WellFormed where
  fresh := PendingContentEntry.wellFormed_fresh
  flushed := fun _ _ h => ⟨h.slots.of_active rfl, ⟨h.ranges.active, h.ranges.unassigned⟩, h.unsized, h.sized, h.mark,
    h.known, h.received⟩
  join := fun _ _ _ h => ⟨h.slots.of_active rfl, ⟨h.ranges.active, h.ranges.unassigned⟩, h.unsized, h.sized, h.mark,
    h.known, h.received⟩
  leave := fun _ _ _ h => ⟨h.slots.of_active rfl, ⟨h.ranges.active, h.ranges.unassigned⟩, h.unsized, h.sized, h.mark,
    h.known, h.received⟩

theorem wellFormed_step {e : ContentEvent} (h : n.OpenRequests fun _ entry => entry.WellFormed)
    (heffect : Effect p n n' e) : n'.OpenRequests fun _ entry => entry.WellFormed := by
  have hP := wellFormed_entryInvariant
  cases heffect with
  | none e hcore => exact h.same hcore
  | asked contentId waiter now hcore => exact h.set hcore (hP.asked h waiter)
  | left contentId waiter entry hget hcore =>
    exact h.set hcore (hP.flushed contentId _ (hP.leave contentId _ waiter (h contentId entry hget)))
  | expired contentId waiter hcore => exact h.delete hcore
  | found source contentId metadata now entry hget hcore =>
    exact h.set hcore (hP.flushed contentId _ (h contentId entry hget).found)
  | abandoned e contentId providerId entry hget hcore =>
    exact h.set hcore (hP.flushed contentId _ (h contentId entry hget).abandonFetch)
  | strayChunk source contentId chunkIndex totalChunks data now hget hadmits hcore => exact h.same hcore
  | chunk source contentId chunkIndex totalChunks data now entry hget hactive hadmits hcore =>
    have hwf := h contentId entry hget
    have hlow := (ChunkAssembler.admits_iff.mp hadmits).2.2.1
    exact h.set hcore (hP.flushed contentId _ (hwf.recordChunk (hwf.sized_of_active hactive) hlow))
  | retired source contentId metadata now entry assembler hget hactive _ hcore =>
    exact h.set hcore (hP.flushed contentId _ ((h contentId entry hget).retire hactive))
  | rejected source contentId metadata now entry hget hactive hcore => exact h.delete hcore
  | resolved source contentId metadata now entry data hget hactive _ _ _ hcore => exact h.delete hcore

/-- Open requests are well formed in every run. -/
theorem wellFormed_of_reachable (h : (system p).Reachable n) :
    n.OpenRequests fun _ entry => entry.WellFormed := by
  apply h.invariant
  · rintro s ⟨nodeId, o, rfl⟩ contentId entry hget
    simp [create] at hget
  · rintro s e s' hs - hstep
    obtain rfl := Option.some.inj hstep
    exact wellFormed_step hs (effect_of_step p s e)

end

end ContentNode
end Arald
