import Arald.Ingest.Originators

/-!
# What reaches the content store

Whatever a node does, an entry of its store either was there before, or it is
what the step stored: bytes of the node's own, or a submission that verifies.
-/

namespace Arald

open Foundations

namespace ContentStore

variable {p : Platform} {trustRank : String → ℤ} {s : ContentStore} {contentId key : String}
  {item : StoredContent} {metadata : ContentMetadata} {data : Buffer} {now : ℤ}

theorem get?_of_readLive (h : (s.readLive key now).1.items.get? contentId = some item) :
    s.items.get? contentId = some item := by
  unfold readLive at h
  split at h
  · split_ifs at h
    · rw [BoundedFifoMap.get?_delete] at h
      split_ifs at h
      exact h
    · exact h
  · exact h

/-- What is still there after it was looked up is what was found. -/
theorem readLive_of_get?_readLive (h : (s.readLive contentId now).1.items.get? contentId = some item) :
    s.readLive contentId now = (s, some item) := by
  have hget := get?_of_readLive h
  cases hexpired : item.metadata.expired now with
  | false => exact readLive_of_live hget hexpired
  | true =>
    rw [readLive, hget] at h
    dsimp only at h
    rw [hexpired, if_pos rfl, BoundedFifoMap.get?_delete, if_pos rfl] at h
    cases h

theorem get?_of_insert (h : (s.insert trustRank metadata data).items.get? contentId = some item) :
    s.items.get? contentId = some item ∨ contentId = metadata.contentId ∧ item = ⟨metadata, data⟩ :=
  (BoundedFifoMap.get?_of_get?_set h).symm.imp_right fun hnew => ⟨hnew.1, hnew.2⟩

/-- The entry is the submission, which verifies. -/
structure Submitted (p : Platform) (contentId : String) (item : StoredContent) (metadata : ContentMetadata)
    (data : Buffer) (now : ℤ) : Prop where
  verifies : verifies p metadata data now = true
  id : contentId = metadata.contentId
  item : item = ⟨metadata, data⟩

theorem get?_of_putVerified
    (h : (s.putVerified trustRank p metadata data now).1.items.get? contentId = some item) :
    s.items.get? contentId = some item ∨ Submitted p contentId item metadata data now := by
  cases hverifies : verifies p metadata data now with
  | true =>
    rw [putVerified_of_verifies hverifies] at h
    exact (get?_of_insert h).imp_right fun hnew => ⟨hverifies, hnew.1, hnew.2⟩
  | false =>
    rw [putVerified_of_not_verifies hverifies] at h
    exact .inl h

end ContentStore

/-! ### Submissions over HTTP, and the node's own drops -/

namespace Box

variable {p : Platform} {b : Box} {contentId : String} {item : StoredContent} {metadata : ContentMetadata}
  {data : Buffer} {t : Readings}

theorem get?_of_considerDrop {fromPeerId : String}
    (h : (b.considerDrop p metadata fromPeerId t).contentStore.items.get? contentId = some item) :
    b.contentStore.items.get? contentId = some item := by
  unfold considerDrop at h
  split at h
  · exact h
  · split at h
    · exact h
    · dsimp only at h
      split at h
      · exact ContentStore.get?_of_readLive h
      · exact ContentStore.get?_of_readLive h

theorem get?_of_storeAndAnnounce {announcedAt : Option Priority}
    (h : (b.storeAndAnnounce p metadata data announcedAt t).1.contentStore.items.get? contentId = some item) :
    b.contentStore.items.get? contentId = some item ∨
      ContentStore.Submitted p contentId item metadata data t.store := by
  unfold storeAndAnnounce at h
  cases hput : b.contentStore.putVerified b.publisherTrust p metadata data t.store with
  | mk store stored =>
    have hstore : store = (b.contentStore.putVerified b.publisherTrust p metadata data t.store).1 := by
      rw [hput]
    rw [hput] at h
    cases stored with
    | false => exact .inl h
    | true =>
      have hget := get?_of_considerDrop h
      rw [publish, hstore] at hget
      exact ContentStore.get?_of_putVerified hget

theorem get?_of_ingestSignedContent {options : IngestOptions}
    (h : (b.ingestSignedContent p metadata data options t).1.contentStore.items.get? contentId = some item) :
    b.contentStore.items.get? contentId = some item ∨
      ContentStore.Submitted p contentId item metadata data t.store := by
  rw [ingestSignedContent] at h
  cases hallow : b.allowCaller metadata.publisher? t.limiter with
  | mk b₁ ok =>
    obtain ⟨limiter, rfl⟩ := allowCaller_frame hallow
    rw [hallow] at h
    cases ok with
    | false => exact .inl h
    | true =>
      dsimp only at h
      split at h
      · exact .inl h
      · split at h
        · next hclassify =>
          obtain ⟨window, rfl⟩ := classify_frame hclassify
          exact .inl h
        · next hclassify =>
          obtain ⟨window, rfl⟩ := classify_frame hclassify
          have hstored := get?_of_storeAndAnnounce h
          exact hstored

theorem get?_of_publishContent {name mimeType : String} {options : PublishOptions} {b' : Box}
    {r : Except String ContentMetadata} (h : b.publishContent p name mimeType data options t = (b', r))
    (hget : b'.contentStore.items.get? contentId = some item) :
    b.contentStore.items.get? contentId = some item ∨
      ContentStore.Submitted p contentId item
        (b.ownMetadata p name mimeType (compressForTransfer p data) options t.check)
        (compressForTransfer p data).data t.store := by
  rw [publishContent] at h
  dsimp only at h
  split at h
  · cases h
    exact .inl hget
  · next store hput =>
    cases h
    have hstore : store = (b.contentStore.putVerified b.publisherTrust p
        (b.ownMetadata p name mimeType (compressForTransfer p data) options t.check)
        (compressForTransfer p data).data t.store).1 := by
      rw [hput]
    rw [publish, hstore] at hget
    exact ContentStore.get?_of_putVerified hget

/-- The drop that a node publishes, with its metadata. -/
theorem get?_of_publishDrop {request : DropRequest} {r : CheckedDropRequest}
    (hcheck : checkDropRequest request = .ok r)
    (h : (b.publishDrop p request t).1.contentStore.items.get? contentId = some item) :
    b.contentStore.items.get? contentId = some item ∨
      ContentStore.Submitted p contentId item
        (b.ownMetadata p dropContentName "application/json"
          (compressForTransfer p (p.stringify (dropPayloadOf r t.check).toJs))
          { ttlMs := some (min (r.expiresInMs.getD defaultDropTtlMs) maxDropTtlMs)
            announce := true
            priority := some (dropKindPriority r.kind) } t.check)
        (compressForTransfer p (p.stringify (dropPayloadOf r t.check).toJs)).data t.store := by
  rw [publishDrop, hcheck] at h
  dsimp only at h
  split at h
  · next hcharge =>
    obtain ⟨window, rfl⟩ := chargeDrop_frame hcharge
    exact .inl h
  · next hcharge =>
    obtain ⟨window, rfl⟩ := chargeDrop_frame hcharge
    split at h
    · next hpublish =>
      have hstored := get?_of_publishContent hpublish h
      exact hstored
    · next hpublish =>
      have hstored := get?_of_publishContent hpublish h
      exact hstored

end Box

/-! ### Transfers -/

namespace ContentNode

variable {p : Platform} {n : ContentNode} {source contentId : String} {now : ℤ}

theorem contentStore_waiterTimeout (n : ContentNode) (contentId : String) (waiter : ℕ) :
    (n.waiterTimeout contentId waiter).contentStore = n.contentStore := by
  unfold waiterTimeout
  split
  · rfl
  · split
    · rfl
    · dsimp only
      split <;> rfl

theorem contentStore_abandonFetch (n : ContentNode) (contentId providerId : String) :
    (n.abandonFetch contentId providerId).contentStore = n.contentStore := by
  unfold abandonFetch
  split <;> rfl

theorem contentStore_handleContentFound (n : ContentNode) (source contentId : String)
    (metadata : Option ContentMetadata) :
    (n.handleContentFound source contentId metadata).contentStore = n.contentStore := by
  unfold handleContentFound
  split <;> rfl

theorem contentStore_handleContentNotFound (n : ContentNode) (source contentId : String) :
    (n.handleContentNotFound source contentId).contentStore = n.contentStore := by
  unfold handleContentNotFound
  split
  · split
    · exact contentStore_abandonFetch n contentId source
    · rfl
  · rfl

theorem contentStore_handleContentChunk (n : ContentNode) (source contentId : String)
    (chunkIndex totalChunks : Option ℤ) (data : Buffer) :
    (n.handleContentChunk source contentId chunkIndex totalChunks data).contentStore = n.contentStore := by
  unfold handleContentChunk
  dsimp only
  split
  · split
    · rfl
    · unfold recordChunk
      split <;> rfl
  · rfl

theorem contentStore_handleContentQuery (n : ContentNode) (source contentId : String) (now : ℤ) :
    (n.handleContentQuery source contentId now).contentStore = (n.contentStore.readLive contentId now).1 := by
  unfold handleContentQuery
  dsimp only
  split <;> rfl

theorem contentStore_handleContentRequest (n : ContentNode) (source contentId : String)
    (chunkStart chunkEnd : Option ℤ) (now : ℤ) :
    (n.handleContentRequest source contentId chunkStart chunkEnd now).contentStore =
      (n.contentStore.readLive contentId now).1 := by
  unfold handleContentRequest
  dsimp only
  split <;> rfl

theorem contentStore_getContent (p : Platform) (n : ContentNode) (contentId : String) (waiter : ℕ) (now : ℤ) :
    (n.getContent p contentId waiter now).1.contentStore = (n.contentStore.readLive contentId now).1 := by
  unfold getContent
  dsimp only
  split
  · rfl
  · split <;> rfl

end ContentNode

namespace StoreNode

variable {p : Platform} {n : StoreNode} {source contentId : String} {metadata : ContentMetadata} {now : ℤ}

theorem assembled?_requesterAssembler (contentId : String) :
    n.fetching.assembled? contentId = n.requesterAssembler.assembled? contentId := by
  unfold ContentNode.assembled? ChunkAssembler.assembled?
  have hsame : n.fetching.requesterAssembler = n.requesterAssembler := rfl
  rw [hsame]
  cases n.requesterAssembler.entries.get? contentId with
  | none => rfl
  | some entry => cases hcomplete : entry.isComplete <;> simp [Option.filter, hcomplete]

/-- A transfer that completes stores its bytes and ends the request. -/
theorem handleContentComplete_of_completes (h : n.completes p source contentId metadata now = true) :
    ∃ entry data, n.pendingContentRequests.get? contentId = some entry ∧
      n.requesterAssembler.assembled? contentId = some data ∧
      ContentStore.verifies p (entry.metadata.getD metadata) data now = true ∧
      (n.fetching.handleContentComplete p source contentId (some metadata) now).contentStore =
        n.contentStore.insert n.box.publisherTrust (entry.metadata.getD metadata) data ∧
      (n.fetching.handleContentComplete p source contentId (some metadata) now).resolutions =
        n.resolutions ++ [⟨contentId, entry.metadata.getD metadata, data,
          decodeStoredContent p (entry.metadata.getD metadata) data, entry.waiters⟩] := by
  rw [completes, Option.any_eq_true] at h
  obtain ⟨entry, hget, hentry⟩ := h
  simp only [Bool.and_eq_true] at hentry
  obtain ⟨⟨hactive, htotal⟩, hassembled⟩ := hentry
  obtain ⟨data, hdata, hverifies⟩ := ContentNode.assembledVerifies_iff.mp hassembled
  have hheld : n.requesterAssembler.assembled? contentId = some data := by
    rw [ContentNode.tryComplete_assembled, assembled?_requesterAssembler] at hdata
    exact (Option.filter_eq_some_iff.mp hdata).1
  refine ⟨entry, data, hget, hheld, hverifies, ?_⟩
  have hsame : entry.SameTransfer (entry.retire source).flushed :=
    (PendingContentEntry.retire_same entry source).trans PendingContentEntry.flushed_same
  have hpending : n.fetching.pendingContentRequests.get? contentId = some entry := hget
  have hget' : (n.fetching.update contentId (entry.retire source)).pendingContentRequests.get? contentId =
      some (entry.retire source).flushed := OrderedMap.get?_set_self _ _ _
  have hdata' : ((n.fetching.update contentId (entry.retire source)).requesterAssembler.tryComplete p
      contentId (entry.metadata.getD metadata)).2 = some data := hdata
  have htotal' : entry.totalChunks.isNone = false := by
    rw [Option.isNone_eq_false_iff]
    exact htotal
  rw [ContentNode.handleContentComplete, hpending]
  dsimp only
  rw [hactive, Bool.not_true, if_neg Bool.false_ne_true, ContentNode.tryAssembleAndResolve, hget']
  dsimp only
  rw [hsame.totalChunks, hsame.metadata, htotal', if_neg Bool.false_ne_true, hdata']
  dsimp only
  rw [ContentStore.putVerified_of_verifies hverifies]
  refine ⟨rfl, ?_⟩
  simp only [ContentNode.resolve, hsame.waiters]
  rfl

/-! ### A step of the node -/

/-- What a step may store: the id, and what the bytes decode to. -/
def arrival? (p : Platform) (n : StoreNode) : StoreNodeEvent → Option (String × Option Buffer)
  | .put _ _ data _ _ _ => some (computeContentId p data, some data)
  | e => ((n.submission? p e).filter fun s => ContentStore.verifies p s.1 s.2 e.storedAt).map fun s =>
      (s.1.contentId, decodeStoredContent p s.1 s.2)

theorem arrival?_of_submitted {e : StoreNodeEvent} {item : StoredContent} {data : Buffer}
    (hsubmission : n.submission? p e = some (metadata, data))
    (h : ContentStore.Submitted p contentId item metadata data e.storedAt) :
    n.arrival? p e = some (contentId, decodeStoredContent p item.metadata item.data) := by
  obtain ⟨hverifies, rfl, rfl⟩ := h
  cases e with
  | put => cases hsubmission
  | _ => simp [arrival?, hsubmission, hverifies]

theorem get?_of_put {name mimeType : String} {data : Buffer} {ttlMs : Option ℚ} {createdAt : ℤ}
    {item : StoredContent}
    (h : (n.contentStore.put n.box.publisherTrust p name mimeType data ttlMs createdAt now).items.get?
      contentId = some item) :
    n.contentStore.items.get? contentId = some item ∨
      n.arrival? p (.put name mimeType data ttlMs createdAt now) =
        some (contentId, decodeStoredContent p item.metadata item.data) := by
  refine (ContentStore.get?_of_insert h).imp_right ?_
  rintro ⟨rfl, rfl⟩
  rw [decodeStoredContent_of_plain p data rfl]
  rfl

theorem get?_of_boxStep {e : BoxEvent} {item : StoredContent}
    (h : (n.box.step p e).contentStore.items.get? contentId = some item) :
    n.contentStore.items.get? contentId = some item ∨
      n.arrival? p (.box e) = some (contentId, decodeStoredContent p item.metadata item.data) := by
  cases e with
  | ingestSignedContent metadata data options t =>
    exact (Box.get?_of_ingestSignedContent h).imp_right (arrival?_of_submitted rfl)
  | publishDrop request t =>
    cases hcheck : Box.checkDropRequest request with
    | error message =>
      have hsame : n.box.publishDrop p request t = (n.box, .error message) := by
        rw [Box.publishDrop, hcheck]
      rw [Box.step, hsame] at h
      exact .inl h
    | ok r =>
      refine (Box.get?_of_publishDrop hcheck h).imp_right (arrival?_of_submitted ?_)
      rw [submission?, hcheck]
  | ingestSignedNodeAppend submission t =>
    obtain ⟨_, _, _, _, hsame⟩ := Box.ingestSignedNodeAppend_frame (p := p) (b := n.box) (t := t) submission
    rw [Box.step, hsame] at h
    exact .inl h
  | ingestSignedRelayCommand submission t =>
    obtain ⟨_, _, _, _, hsame⟩ := Box.ingestSignedRelayCommand_frame (p := p) (b := n.box) (t := t) submission
    rw [Box.step, hsame] at h
    exact .inl h
  | ingestExternalDelivery payload t =>
    obtain ⟨_, _, _, hsame⟩ := Box.ingestExternalDelivery_frame (p := p) (b := n.box) (t := t) payload
    rw [Box.step, hsame] at h
    exact .inl h
  | privateMessage senderId packetId payload =>
    obtain ⟨_, _, _, hsame⟩ := Box.handlePrivateMessage_frame (b := n.box) senderId packetId payload
    rw [Box.step, hsame] at h
    exact .inl h
  | catalogEntry metadata t =>
    rw [Box.step, Box.contentStore_acceptCatalogEntry] at h
    exact .inl (ContentStore.get?_of_readLive h)
  | peerSeen peerId => exact .inl h
  | setTrust nodeId level => exact .inl h
  | deliverySent packetId => exact .inl h

theorem get?_of_contentStep {e : ContentEvent} {item : StoredContent}
    (h : (n.fetching.step p e).contentStore.items.get? contentId = some item) :
    n.contentStore.items.get? contentId = some item ∨
      n.arrival? p (.content e) = some (contentId, decodeStoredContent p item.metadata item.data) := by
  cases e with
  | getContent key waiter now =>
    rw [ContentNode.step, ContentNode.contentStore_getContent] at h
    exact .inl (ContentStore.get?_of_readLive h)
  | receive source message now =>
    rw [ContentNode.step] at h
    cases message with
    | query key =>
      rw [ContentNode.receive, ContentNode.contentStore_handleContentQuery] at h
      exact .inl (ContentStore.get?_of_readLive h)
    | found key metadata =>
      rw [ContentNode.receive, ContentNode.contentStore_handleContentFound] at h
      exact .inl h
    | notFound key =>
      rw [ContentNode.receive, ContentNode.contentStore_handleContentNotFound] at h
      exact .inl h
    | request key chunkStart chunkEnd =>
      rw [ContentNode.receive, ContentNode.contentStore_handleContentRequest] at h
      exact .inl (ContentStore.get?_of_readLive h)
    | chunk key chunkIndex totalChunks data =>
      rw [ContentNode.receive, ContentNode.contentStore_handleContentChunk] at h
      exact .inl h
    | complete key metadata? =>
      rw [ContentNode.receive] at h
      cases metadata? with
      | none => exact .inl h
      | some metadata =>
        cases hcompletes : n.completes p source key metadata now with
        | false =>
          rw [contentStore_of_not_completes hcompletes] at h
          exact .inl h
        | true =>
          obtain ⟨entry, data, hget, hheld, hverifies, hstore, -⟩ := handleContentComplete_of_completes hcompletes
          rw [hstore] at h
          have hsubmission : n.submission? p (.content (.receive source (.complete key (some metadata)) now)) =
              some (entry.metadata.getD metadata, data) := by
            simp [submission?, hget, hheld]
          refine (ContentStore.get?_of_insert h).imp_right fun hnew => ?_
          exact arrival?_of_submitted hsubmission ⟨hverifies, hnew.1, hnew.2⟩
  | waiterTimeout key waiter =>
    rw [ContentNode.step, ContentNode.contentStore_waiterTimeout] at h
    exact .inl h
  | fetchTimeout key providerId =>
    rw [ContentNode.step, ContentNode.contentStore_abandonFetch] at h
    exact .inl h
  | disconnected peerId => exact .inl h
  | stored metadata data now =>
    exact (ContentStore.get?_of_putVerified h).imp_right (arrival?_of_submitted rfl)
  | peerSeen peerId => exact .inl h
  | setTrust nodeId level => exact .inl h

theorem get?_of_relayedChunk {key : String} {chunkIndex totalChunks : Option ℤ} {data : Buffer}
    {item : StoredContent}
    (h : (n.observeRelayedChunk key chunkIndex totalChunks data now).contentStore.items.get? contentId =
      some item) :
    n.contentStore.items.get? contentId = some item := by
  unfold observeRelayedChunk at h
  dsimp only at h
  split at h
  · exact ContentStore.get?_of_readLive h
  · exact ContentStore.get?_of_readLive h

theorem get?_of_relayedComplete {key : String} {item : StoredContent}
    (h : (n.observeRelayedComplete p key metadata now).contentStore.items.get? contentId = some item) :
    n.contentStore.items.get? contentId = some item ∨
      n.arrival? p (.relayedComplete key metadata now) =
        some (contentId, decodeStoredContent p item.metadata item.data) := by
  unfold observeRelayedComplete at h
  dsimp only at h
  split at h
  · exact .inl (ContentStore.get?_of_readLive h)
  · cases hcompleted : (n.relayAssembler.tryComplete p key metadata).2 with
    | none =>
      have hcompleted' : ((n.withStore (n.contentStore.readLive key now).1).relayAssembler.tryComplete p
          key metadata).2 = none := hcompleted
      rw [hcompleted'] at h
      exact .inl (ContentStore.get?_of_readLive h)
    | some data =>
      have hcompleted' : ((n.withStore (n.contentStore.readLive key now).1).relayAssembler.tryComplete p
          key metadata).2 = some data := hcompleted
      rw [hcompleted'] at h
      dsimp only at h
      split at h
      · exact .inl (ContentStore.get?_of_readLive h)
      · next store hput =>
        have hstored := congrArg Prod.fst hput
        dsimp only at hstored
        have hget : store.items.get? contentId = some item := h
        rw [← hstored] at hget
        obtain ⟨-, entry, hentry, hcomplete, hbytes⟩ := ChunkAssembler.tryComplete_eq_some hcompleted
        have hsubmission : n.submission? p (.relayedComplete key metadata now) = some (metadata, data) := by
          simp [submission?, ChunkAssembler.assembled?, Option.filter, hentry, hcomplete, hbytes]
        rcases ContentStore.get?_of_putVerified hget with hold | hnew
        · exact .inl (ContentStore.get?_of_readLive hold)
        · exact .inr (arrival?_of_submitted hsubmission hnew)

/-- After an announcement an entry was found alive, or it is for another id, or it
holds the bytes that came along. -/
theorem get?_of_announce {inline? : Option Buffer} {fromPeerId : String} {t : Readings} {item : StoredContent}
    (h : (n.handleContentAnnounce p metadata inline? fromPeerId t).contentStore.items.get? contentId =
      some item) :
    (n.contentStore.items.get? contentId = some item ∧
        (contentId = metadata.contentId → (n.contentStore.readLive contentId t.read).2 = some item)) ∨
      (n.acceptsCatalogEntry p metadata t = true ∧ ∃ data, inline? = some data ∧
        ContentStore.Submitted p contentId item metadata data t.store) := by
  have hlooked : ∀ {store : ContentStore}, store = (n.contentStore.readLive metadata.contentId t.read).1 →
      store.items.get? contentId = some item →
      n.contentStore.items.get? contentId = some item ∧
        (contentId = metadata.contentId → (n.contentStore.readLive contentId t.read).2 = some item) := by
    rintro _ rfl hget
    refine ⟨ContentStore.get?_of_readLive hget, ?_⟩
    rintro rfl
    rw [ContentStore.readLive_of_get?_readLive hget]
  have hstore : (n.box.acceptCatalogEntry p metadata t).contentStore =
      (n.contentStore.readLive metadata.contentId t.read).1 := Box.contentStore_acceptCatalogEntry _ _ _
  unfold handleContentAnnounce at h
  dsimp only at h
  cases haccepts : n.acceptsCatalogEntry p metadata t with
  | false =>
    rw [haccepts, Bool.not_false, if_pos rfl] at h
    exact .inl (hlooked hstore h)
  | true =>
    rw [haccepts, Bool.not_true, if_neg Bool.false_ne_true] at h
    have hbefore := Box.get?_of_considerDrop h
    cases inline? with
    | none => exact .inl (hlooked hstore hbefore)
    | some data =>
      rcases ContentStore.get?_of_putVerified hbefore with hold | hnew
      · exact .inl (hlooked hstore hold)
      · exact .inr ⟨rfl, data, rfl, hnew⟩

/-- An entry of the store was there before, or it is what arrived. -/
theorem get?_of_step {e : StoreNodeEvent} {item : StoredContent}
    (h : (n.step p e).contentStore.items.get? contentId = some item) :
    n.contentStore.items.get? contentId = some item ∨
      n.arrival? p e = some (contentId, decodeStoredContent p item.metadata item.data) := by
  cases e with
  | box e => exact get?_of_boxStep h
  | content e => exact get?_of_contentStep h
  | put name mimeType data ttlMs createdAt now => exact get?_of_put h
  | relayedChunk key chunkIndex totalChunks data now => exact .inl (get?_of_relayedChunk h)
  | relayedComplete key metadata now => exact get?_of_relayedComplete h
  | announce metadata inline? fromPeerId t =>
    rcases get?_of_announce h with ⟨hold, -⟩ | ⟨-, data, rfl, hnew⟩
    · exact .inl hold
    · exact .inr (arrival?_of_submitted rfl hnew)

end StoreNode

end Arald
