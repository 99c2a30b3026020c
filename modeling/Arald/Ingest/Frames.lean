import Arald.Ingest.Box

/-!
# What the entry points leave alone

Each result says of one entry point which fields it may write: the state after
the call is the state before it, with other values in those fields.
-/

namespace Arald

open Foundations

namespace Box

variable {p : Platform} {b b' : Box} {t : Readings}

theorem allowCaller_frame {caller : Option String} {now : ℤ} {ok : Bool}
    (h : b.allowCaller caller now = (b', ok)) :
    ∃ limiter, b' = { b with ingestRateLimiter := limiter } := by
  unfold allowCaller at h
  split at h <;> (cases h; exact ⟨_, rfl⟩)

theorem tryConsumeElevatedDropBudget_frame {now : ℤ} {ok : Bool}
    (h : b.tryConsumeElevatedDropBudget now = (b', ok)) :
    ∃ window, b' = { b with elevatedDropWindow := window } := by
  cases h
  exact ⟨_, rfl⟩

theorem tryConsumeElevatedNodeAppendBudget_frame {now : ℤ} {ok : Bool}
    (h : b.tryConsumeElevatedNodeAppendBudget now = (b', ok)) :
    ∃ window, b' = { b with elevatedNodeAppendWindow := window } := by
  cases h
  exact ⟨_, rfl⟩

theorem tryConsumeHttpIngestedNodeAppendBudget_frame {now : ℤ} {ok : Bool}
    (h : b.tryConsumeHttpIngestedNodeAppendBudget now = (b', ok)) :
    ∃ window, b' = { b with httpIngestedNodeAppendWindow := window } := by
  cases h
  exact ⟨_, rfl⟩

theorem tryConsumeHttpIngestedRelayCommandBudget_frame {now : ℤ} {ok : Bool}
    (h : b.tryConsumeHttpIngestedRelayCommandBudget now = (b', ok)) :
    ∃ window, b' = { b with httpIngestedRelayCommandWindow := window } := by
  cases h
  exact ⟨_, rfl⟩

theorem tryConsumeHttpIngestedExternalDeliveryBudget_frame {now : ℤ} {ok : Bool}
    (h : b.tryConsumeHttpIngestedExternalDeliveryBudget now = (b', ok)) :
    ∃ window, b' = { b with httpIngestedExternalDeliveryWindow := window } := by
  cases h
  exact ⟨_, rfl⟩

theorem classify_frame {drop : Option DropPayload} {requested : Option Priority} {now : ℤ}
    {announced : Option Priority} (h : b.classify drop requested now = (b', announced)) :
    ∃ window, b' = { b with elevatedDropWindow := window } := by
  unfold classify at h
  split at h
  · cases h
    exact ⟨_, rfl⟩
  · split at h
    · cases h
      exact ⟨_, rfl⟩
    · split at h
      · rename_i heq
        cases h
        exact tryConsumeElevatedDropBudget_frame heq
      · rename_i heq
        cases h
        exact tryConsumeElevatedDropBudget_frame heq

theorem chargeDrop_frame {kind : DropKind} {now : ℤ} {ok : Bool}
    (h : b.chargeDrop kind now = (b', ok)) :
    ∃ window, b' = { b with elevatedDropWindow := window } := by
  unfold chargeDrop at h
  split at h
  · cases h
    exact ⟨_, rfl⟩
  · exact tryConsumeElevatedDropBudget_frame h

theorem considerDrop_frame (metadata : ContentMetadata) (fromPeerId : String) :
    ∃ store drops, b.considerDrop p metadata fromPeerId t =
      { b with contentStore := store, drops := drops } := by
  unfold considerDrop
  split
  · exact ⟨_, _, rfl⟩
  · split
    · exact ⟨_, _, rfl⟩
    · dsimp only
      split <;> exact ⟨_, _, rfl⟩

theorem storeAndAnnounce_frame (metadata : ContentMetadata) (data : Buffer)
    (announcedAt : Option Priority) :
    ∃ store drops publications, (b.storeAndAnnounce p metadata data announcedAt t).1 =
      { b with contentStore := store, drops := drops, publications := publications } := by
  unfold storeAndAnnounce
  split
  · exact ⟨_, _, _, rfl⟩
  · obtain ⟨store, drops, heq⟩ := considerDrop_frame (p := p) (t := t)
      (b := Box.publish { b with contentStore := _ } metadata data announcedAt) metadata
      (metadata.publisherId.getD "")
    exact ⟨store, drops, _, heq⟩

theorem ingestSignedContent_frame (metadata : ContentMetadata) (data : Buffer)
    (options : IngestOptions) :
    ∃ limiter window store drops publications,
      (b.ingestSignedContent p metadata data options t).1 =
        { b with
          ingestRateLimiter := limiter
          elevatedDropWindow := window
          contentStore := store
          drops := drops
          publications := publications } := by
  unfold ingestSignedContent
  split
  · rename_i hallow
    obtain ⟨limiter, rfl⟩ := allowCaller_frame hallow
    exact ⟨_, _, _, _, _, rfl⟩
  · rename_i hallow
    obtain ⟨limiter, rfl⟩ := allowCaller_frame hallow
    split
    · exact ⟨_, _, _, _, _, rfl⟩
    · split
      · rename_i hclass
        obtain ⟨window, rfl⟩ := classify_frame hclass
        exact ⟨_, _, _, _, _, rfl⟩
      · rename_i hclass
        obtain ⟨window, rfl⟩ := classify_frame hclass
        obtain ⟨store, drops, publications, heq⟩ := storeAndAnnounce_frame (p := p) (t := t)
          (b := { b with ingestRateLimiter := limiter, elevatedDropWindow := window }) metadata data _
        exact ⟨_, _, _, _, _, heq⟩

theorem publishContent_frame {name mimeType : String} {data : Buffer} {options : PublishOptions}
    {r : Except String ContentMetadata}
    (h : b.publishContent p name mimeType data options t = (b', r)) :
    ∃ store publications, b' = { b with contentStore := store, publications := publications } := by
  unfold publishContent at h
  dsimp only at h
  split at h <;> (cases h; exact ⟨_, _, rfl⟩)

theorem publishDrop_frame (request : DropRequest) :
    ∃ window store drops publications, (b.publishDrop p request t).1 =
      { b with
        elevatedDropWindow := window
        contentStore := store
        drops := drops
        publications := publications } := by
  unfold publishDrop
  split
  · exact ⟨_, _, _, _, rfl⟩
  · split
    · rename_i hcharge
      obtain ⟨window, rfl⟩ := chargeDrop_frame hcharge
      exact ⟨_, _, _, _, rfl⟩
    · rename_i hcharge
      obtain ⟨window, rfl⟩ := chargeDrop_frame hcharge
      dsimp only
      split
      · rename_i hpublish
        obtain ⟨store, publications, rfl⟩ := publishContent_frame hpublish
        exact ⟨_, _, _, _, rfl⟩
      · rename_i hpublish
        obtain ⟨store, publications, rfl⟩ := publishContent_frame hpublish
        exact ⟨_, _, _, _, rfl⟩

theorem ingestSignedNodeAppend_frame (submission : JsValue) :
    ∃ limiter window window' appends, (b.ingestSignedNodeAppend p submission t).1 =
      { b with
        ingestRateLimiter := limiter
        httpIngestedNodeAppendWindow := window
        elevatedNodeAppendWindow := window'
        nodeAppends := appends } := by
  unfold ingestSignedNodeAppend
  split
  · rename_i hallow
    obtain ⟨limiter, rfl⟩ := allowCaller_frame hallow
    exact ⟨_, _, _, _, rfl⟩
  · rename_i hallow
    obtain ⟨limiter, rfl⟩ := allowCaller_frame hallow
    split
    · exact ⟨_, _, _, _, rfl⟩
    · split
      · exact ⟨_, _, _, _, rfl⟩
      · split
        · exact ⟨_, _, _, _, rfl⟩
        · split
          · rename_i hcharge
            obtain ⟨window, rfl⟩ := tryConsumeHttpIngestedNodeAppendBudget_frame hcharge
            exact ⟨_, _, _, _, rfl⟩
          · rename_i hcharge
            obtain ⟨window, rfl⟩ := tryConsumeHttpIngestedNodeAppendBudget_frame hcharge
            dsimp only
            split
            all_goals
              rename_i helevated
              split at helevated
              · cases helevated
                try exact ⟨_, _, _, _, rfl⟩
              · obtain ⟨window', rfl⟩ := tryConsumeElevatedNodeAppendBudget_frame helevated
                exact ⟨_, _, _, _, rfl⟩

theorem ingestSignedRelayCommand_frame (submission : JsValue) :
    ∃ limiter window last requests, (b.ingestSignedRelayCommand p submission t).1 =
      { b with
        ingestRateLimiter := limiter
        httpIngestedRelayCommandWindow := window
        lastAcceptedRelayCommandAt := last
        rebootRequests := requests } := by
  unfold ingestSignedRelayCommand
  split
  · rename_i hallow
    obtain ⟨limiter, rfl⟩ := allowCaller_frame hallow
    exact ⟨_, _, _, _, rfl⟩
  · rename_i hallow
    obtain ⟨limiter, rfl⟩ := allowCaller_frame hallow
    split
    · exact ⟨_, _, _, _, rfl⟩
    · split
      · exact ⟨_, _, _, _, rfl⟩
      · split
        · exact ⟨_, _, _, _, rfl⟩
        · split
          all_goals
            rename_i hcharge
            obtain ⟨window, rfl⟩ := tryConsumeHttpIngestedRelayCommandBudget_frame hcharge
            exact ⟨_, _, _, _, rfl⟩

theorem ingestExternalDelivery_frame (payload : JsValue) :
    ∃ limiter window queue, (b.ingestExternalDelivery p payload t).1 =
      { b with
        ingestRateLimiter := limiter
        httpIngestedExternalDeliveryWindow := window
        externalDeliveryQueue := queue } := by
  unfold ingestExternalDelivery
  split
  · exact ⟨_, _, _, rfl⟩
  · split
    · exact ⟨_, _, _, rfl⟩
    · split
      · exact ⟨_, _, _, rfl⟩
      · split
        · rename_i hallow
          obtain ⟨limiter, rfl⟩ := allowCaller_frame hallow
          exact ⟨_, _, _, rfl⟩
        · rename_i hallow
          obtain ⟨limiter, rfl⟩ := allowCaller_frame hallow
          split
          all_goals
            rename_i hcharge
            obtain ⟨window, rfl⟩ := tryConsumeHttpIngestedExternalDeliveryBudget_frame hcharge
            exact ⟨_, _, _, rfl⟩

theorem acceptCatalogEntry_frame (metadata : ContentMetadata) :
    ∃ store catalog trust, b.acceptCatalogEntry p metadata t =
      { b with contentStore := store, remoteCatalog := catalog, trust := trust } := by
  unfold acceptCatalogEntry
  dsimp only
  split
  · exact ⟨_, _, _, rfl⟩
  · split
    · exact ⟨_, _, _, rfl⟩
    · split
      · exact ⟨_, _, _, rfl⟩
      · split <;> exact ⟨_, _, _, rfl⟩

theorem considerNodeAppend_frame (senderId : String) (append : Option NodeAppend) :
    ∃ appends, b.considerNodeAppend senderId append = { b with nodeAppends := appends } := by
  unfold considerNodeAppend
  split
  · exact ⟨_, rfl⟩
  · split <;> exact ⟨_, rfl⟩

theorem considerRelayCommand_frame (senderId : String) (command : Option RelayCommandPayload) :
    ∃ last requests, b.considerRelayCommand senderId command =
      { b with lastAcceptedRelayCommandAt := last, rebootRequests := requests } := by
  unfold considerRelayCommand
  split
  · exact ⟨_, _, rfl⟩
  · split
    · exact ⟨_, _, rfl⟩
    · split <;> exact ⟨_, _, rfl⟩

theorem handlePrivateMessage_frame (senderId packetId : String) (payload : JsValue) :
    ∃ appends last requests, b.handlePrivateMessage senderId packetId payload =
      { b with
        nodeAppends := appends
        lastAcceptedRelayCommandAt := last
        rebootRequests := requests } := by
  unfold handlePrivateMessage
  obtain ⟨appends, happend⟩ := considerNodeAppend_frame (b := b) senderId
    (extractNodeAppendPayload payload packetId senderId)
  obtain ⟨last, requests, hcommand⟩ := considerRelayCommand_frame
    (b := { b with nodeAppends := appends }) senderId (extractRelayCommand payload)
  refine ⟨appends, last, requests, ?_⟩
  rw [happend]
  exact hcommand

/-! ### Signed contents, case by case -/

/-- The wire bytes say a drop of a kind that costs a slot. -/
def isElevated (drop : Option DropPayload) : Bool := drop.any fun d => d.kind ≠ .info

/-- The elevated-drop budget has a slot left. -/
def hasElevatedDropSlot (b : Box) (now : ℤ) : Bool :=
  b.elevatedDropWindow.admits maxElevatedDropsPerWindow elevatedDropRateLimitWindowMs now

/-- The priority of a drop's kind, or else the requested one. -/
def announcePriority (drop : Option DropPayload) (requested : Option Priority) : Priority :=
  match drop with
  | some d => dropKindPriority d.kind
  | none => requested.getD .content

theorem classify_of_not_elevated {drop : Option DropPayload} (requested : Option Priority) (now : ℤ)
    (h : isElevated drop = false) :
    b.classify drop requested now = (b, some (announcePriority drop requested)) := by
  cases drop with
  | none => rfl
  | some d =>
    have hkind : d.kind = .info := by simpa [isElevated] using h
    simp [classify, hkind, announcePriority]

theorem classify_of_elevated {drop : Option DropPayload} (requested : Option Priority) (now : ℤ)
    (h : isElevated drop = true) :
    b.classify drop requested now =
      ((b.tryConsumeElevatedDropBudget now).1,
        if b.hasElevatedDropSlot now then some (announcePriority drop requested) else none) := by
  cases drop with
  | none => simp [isElevated] at h
  | some d =>
    have hkind : d.kind ≠ .info := by simpa [isElevated] using h
    have hslot : (b.tryConsumeElevatedDropBudget now).2 = b.hasElevatedDropSlot now :=
      BudgetWindow.tryConsume_snd
    cases hcharge : b.tryConsumeElevatedDropBudget now with
    | mk b' ok =>
      rw [hcharge] at hslot
      cases ok with
      | false => simp [classify, hkind, hcharge, ← hslot]
      | true => simp [classify, hkind, hcharge, ← hslot, announcePriority]

theorem storeAndAnnounce_of_verifies {metadata : ContentMetadata} {data : Buffer}
    (announcedAt : Option Priority)
    (h : ContentStore.verifies p metadata data t.store = true) :
    (b.storeAndAnnounce p metadata data announcedAt t).2 = .accepted ∧
      (b.storeAndAnnounce p metadata data announcedAt t).1.elevatedDropWindow = b.elevatedDropWindow ∧
      (b.storeAndAnnounce p metadata data announcedAt t).1.publications =
        b.publications ++ [⟨metadata, data, announcedAt, b.elevatedDropWindow.windowStart⟩] := by
  unfold storeAndAnnounce
  rw [ContentStore.putVerified_of_verifies h]
  dsimp only
  obtain ⟨store, drops, heq⟩ := considerDrop_frame (p := p) (t := t)
    (b := Box.publish { b with contentStore := b.contentStore.insert b.publisherTrust metadata data }
      metadata data announcedAt) metadata (metadata.publisherId.getD "")
  rw [heq]
  exact ⟨rfl, rfl, rfl⟩

theorem storeAndAnnounce_of_not_verifies {metadata : ContentMetadata} {data : Buffer}
    (announcedAt : Option Priority)
    (h : ContentStore.verifies p metadata data t.store = false) :
    b.storeAndAnnounce p metadata data announcedAt t = (b, .rejected) := by
  simp [storeAndAnnounce, ContentStore.putVerified_of_not_verifies h]

end Box
end Arald
