import Arald.Content.Integrity
import Arald.Ingest.ElevatedDrops

/-!
# Every way into the content store

A node receives contents over HTTP, publishes its own, fetches contents from
the mesh, keeps the ones it forwards and takes the bytes that an announcement
carries. All of it ends in one store. The paths that look first whether the
content is held keep the claim of whoever signed it first, as the catalog does;
the others let the last signature win.
-/

namespace Arald

open Foundations

/-- The parts of a node that fill its content store, or read it. -/
structure StoreNode where
  box : Box
  /-- The contents that the node forwards to others, as they are reassembled. -/
  relayAssembler : ChunkAssembler
  requesterAssembler : ChunkAssembler
  pendingContentRequests : OrderedMap String PendingContentEntry
  outbox : List Outgoing
  resolutions : List Resolution
  rejections : List Rejection

namespace StoreNode

def contentStore (n : StoreNode) : ContentStore := n.box.contentStore

def withStore (n : StoreNode) (store : ContentStore) : StoreNode :=
  { n with box := { n.box with contentStore := store } }

/-- The part that fetches and serves contents. -/
def fetching (n : StoreNode) : ContentNode where
  nodeId := n.box.nodeId
  trust := n.box.trust
  contentStore := n.box.contentStore
  requesterAssembler := n.requesterAssembler
  pendingContentRequests := n.pendingContentRequests
  outbox := n.outbox
  resolutions := n.resolutions
  rejections := n.rejections

def withFetching (n : StoreNode) (c : ContentNode) : StoreNode :=
  { n with
    box := { n.box with trust := c.trust, contentStore := c.contentStore }
    requesterAssembler := c.requesterAssembler
    pendingContentRequests := c.pendingContentRequests
    outbox := c.outbox
    resolutions := c.resolutions
    rejections := c.rejections }

section
variable (p : Platform)

/-! ### Contents that are forwarded -/

/-- `observeRelayedContent` of a chunk. -/
def observeRelayedChunk (n : StoreNode) (contentId : String) (chunkIndex totalChunks : Option ℤ)
    (data : Buffer) (now : ℤ) : StoreNode :=
  let found := n.contentStore.readLive contentId now
  let n := n.withStore found.1
  if found.2.isSome then n
  else { n with relayAssembler := (n.relayAssembler.addChunk contentId chunkIndex totalChunks data).1 }

/-- `observeRelayedContent` of the end of a transfer. -/
def observeRelayedComplete (n : StoreNode) (contentId : String) (metadata : ContentMetadata)
    (now : ℤ) : StoreNode :=
  let found := n.contentStore.readLive contentId now
  let n := n.withStore found.1
  if found.2.isSome then
    { n with relayAssembler :=
        { n.relayAssembler with entries := n.relayAssembler.entries.delete contentId } }
  else
    let completed := n.relayAssembler.tryComplete p contentId metadata
    let n := { n with relayAssembler := completed.1 }
    match completed.2 with
    | none => n
    | some data =>
      match n.contentStore.putVerified n.box.publisherTrust p metadata data now with
      | (_, false) => n
      | (store, true) =>
        let trust := match metadata.publisher? with
          | some publisherId => n.box.trust.markVerified publisherId
          | none => n.box.trust
        { n with box := { n.box with contentStore := store, trust := trust } }

/-! ### Announcements -/

/-- `acceptCatalogEntry` returns the entry. -/
def acceptsCatalogEntry (n : StoreNode) (metadata : ContentMetadata) (t : Readings) : Bool :=
  (n.contentStore.readLive metadata.contentId t.read).2.isNone && verifyContentSignature p metadata &&
    !metadata.expired t.check

/-- `handleContentAnnounce`, with the bytes that the announcement carries. -/
def handleContentAnnounce (n : StoreNode) (metadata : ContentMetadata) (inline? : Option Buffer)
    (fromPeerId : String) (t : Readings) : StoreNode :=
  let accepted := n.acceptsCatalogEntry p metadata t
  let n := { n with box := n.box.acceptCatalogEntry p metadata t }
  if !accepted then n
  else
    let n := match inline? with
      | some data => n.withStore (n.contentStore.putVerified n.box.publisherTrust p metadata data t.store).1
      | none => n
    { n with box := n.box.considerDrop p metadata fromPeerId t }

end
end StoreNode

/-! ### Runs -/

inductive StoreNodeEvent where
  | box (e : BoxEvent)
  | content (e : ContentEvent)
  | put (name mimeType : String) (data : Buffer) (ttlMs : Option ℚ) (createdAt now : ℤ)
  | relayedChunk (contentId : String) (chunkIndex totalChunks : Option ℤ) (data : Buffer) (now : ℤ)
  | relayedComplete (contentId : String) (metadata : ContentMetadata) (now : ℤ)
  | announce (metadata : ContentMetadata) (inline? : Option Buffer) (fromPeerId : String) (t : Readings)

namespace StoreNode

def step (p : Platform) (n : StoreNode) : StoreNodeEvent → StoreNode
  | .box e => { n with box := n.box.step p e }
  | .content e => n.withFetching (n.fetching.step p e)
  | .put name mimeType data ttlMs createdAt now =>
    n.withStore (n.contentStore.put n.box.publisherTrust p name mimeType data ttlMs createdAt now)
  | .relayedChunk contentId chunkIndex totalChunks data now =>
    n.observeRelayedChunk contentId chunkIndex totalChunks data now
  | .relayedComplete contentId metadata now => n.observeRelayedComplete p contentId metadata now
  | .announce metadata inline? fromPeerId t => n.handleContentAnnounce p metadata inline? fromPeerId t

def create (nodeId : String) (o : Box.BoxOptions) (c : ContentNode.Options) : StoreNode where
  box := .create nodeId o
  relayAssembler := ⟨.empty, c.maxChunkAssemblyEntries, c.maxChunksPerContent⟩
  requesterAssembler := ⟨.empty, c.maxChunkAssemblyEntries, c.maxChunksPerContent⟩
  pendingContentRequests := .empty
  outbox := []
  resolutions := []
  rejections := []

end StoreNode

/-! ### What a step submits to the store -/

def Readings.toList (t : Readings) : List ℤ :=
  [t.limiter, t.check, t.budget, t.store, t.read, t.observed]

namespace StoreNodeEvent

/-- The readings of the clock during the handling of a submission. -/
def readings : StoreNodeEvent → List ℤ
  | .box (.ingestSignedContent _ _ _ t) => t.toList
  | .box (.publishDrop _ t) => t.toList
  | .content (.stored _ _ now) => [now]
  | .content (.receive _ _ now) => [now]
  | .relayedComplete _ _ now => [now]
  | .announce _ _ _ t => t.toList
  | _ => []

/-- The reading that decides whether a submission is expired. -/
def storedAt : StoreNodeEvent → ℤ
  | .box (.ingestSignedContent _ _ _ t) => t.store
  | .box (.publishDrop _ t) => t.store
  | .content (.stored _ _ now) => now
  | .content (.receive _ _ now) => now
  | .relayedComplete _ _ now => now
  | .announce _ _ _ t => t.store
  | _ => 0

end StoreNodeEvent

/-- What a publisher says about bytes that it signed. -/
structure Claim where
  publisherId : String
  priority : JsValue
  expiresAt : Option ℚ

def StoredContent.claim? (item : StoredContent) : Option Claim :=
  item.metadata.publisher?.map fun publisherId => ⟨publisherId, item.metadata.priority, item.metadata.expiresAt⟩

/-- The bytes of a content that an assembler has all chunks of. -/
def ChunkAssembler.assembled? (a : ChunkAssembler) (contentId : String) : Option Buffer :=
  ((a.entries.get? contentId).filter fun entry => entry.isComplete).map fun entry => entry.bytes

namespace StoreNode

variable (p : Platform)

/-- The metadata and bytes that a step would store, whatever it checks. -/
def submission? (n : StoreNode) : StoreNodeEvent → Option (ContentMetadata × Buffer)
  | .box (.ingestSignedContent metadata data _ _) => some (metadata, data)
  | .box (.publishDrop request t) =>
    match Box.checkDropRequest request with
    | .error _ => none
    | .ok r =>
      let c := compressForTransfer p (p.stringify (Box.dropPayloadOf r t.check).toJs)
      let options : Box.PublishOptions :=
        { ttlMs := some (min (r.expiresInMs.getD Box.defaultDropTtlMs) Box.maxDropTtlMs)
          announce := true
          priority := some (dropKindPriority r.kind) }
      some (n.box.ownMetadata p dropContentName "application/json" c options t.check, c.data)
  | .content (.stored metadata data _) => some (metadata, data)
  | .content (.receive _ (.complete contentId (some metadata)) _) => do
    let entry ← n.pendingContentRequests.get? contentId
    let data ← n.requesterAssembler.assembled? contentId
    return (entry.metadata.getD metadata, data)
  | .relayedComplete contentId metadata _ => do
    let data ← n.relayAssembler.assembled? contentId
    return (metadata, data)
  | .announce metadata (some data) _ _ => some (metadata, data)
  | _ => none

/-- The transfer of an open request is complete and verifies. -/
def completes (n : StoreNode) (source contentId : String) (metadata : ContentMetadata) (now : ℤ) :
    Bool :=
  (n.pendingContentRequests.get? contentId).any fun entry =>
    entry.activeFetches.has source && entry.totalChunks.isSome &&
      n.fetching.assembledVerifies p contentId entry metadata now

/-- The step passes its submission on to the store without looking whether the
store holds that content. The relay looks for the id of the transfer, which
need not be the one in the metadata. -/
def unguarded (n : StoreNode) : StoreNodeEvent → Bool
  | .box (.ingestSignedContent metadata data _ t) => n.box.letsIn p metadata data t
  | .box (.publishDrop request t) =>
    match Box.checkDropRequest request with
    | .error _ => false
    | .ok r => (n.box.chargeDrop r.kind t.budget).2
  | .content (.stored ..) => true
  | .content (.receive source (.complete contentId (some metadata)) now) =>
    n.completes p source contentId metadata now
  | .relayedComplete contentId metadata now =>
    decide (contentId ≠ metadata.contentId) && (n.contentStore.readLive contentId now).2.isNone
  | _ => false

/-- Another publisher's entry for the same bytes is alive. -/
def heldByAnother (n : StoreNode) (metadata : ContentMetadata) (readings : List ℤ) : Bool :=
  (n.contentStore.items.get? metadata.contentId).any fun item =>
    (readings.all fun now => !item.metadata.expired now) &&
      item.claim?.any fun claim => metadata.publisher? ≠ some claim.publisherId

/-- No unguarded path passes on a verified submission for the live entry of
another publisher. -/
def keepsFirst (n : StoreNode) (e : StoreNodeEvent) : Bool :=
  !(n.unguarded p e && (n.submission? p e).any fun s =>
    ContentStore.verifies p s.1 s.2 e.storedAt && n.heldByAnother s.1 e.readings)

end StoreNode

/-- What a verified submission did to the claim of a live entry for the same bytes. -/
structure ClaimChange where
  contentId : String
  submitter : String
  before : Claim
  after : Claim

/-- A node, with the log of the verified submissions for entries that were alive. -/
structure ClaimHistory where
  node : StoreNode
  changes : List ClaimChange

namespace ClaimHistory

variable (p : Platform)

/-- What a step did to a live entry that it had a verified submission for. -/
def observed (n n' : StoreNode) (e : StoreNodeEvent) : Option ClaimChange := do
  let s ← n.submission? p e
  guard (ContentStore.verifies p s.1 s.2 e.storedAt)
  let submitter ← s.1.publisher?
  let item ← n.contentStore.items.get? s.1.contentId
  guard (e.readings.all fun now => !item.metadata.expired now)
  let before ← item.claim?
  let item' ← n'.contentStore.items.get? s.1.contentId
  let after ← item'.claim?
  return ⟨s.1.contentId, submitter, before, after⟩

def step (s : ClaimHistory) (e : StoreNodeEvent) : ClaimHistory where
  node := s.node.step p e
  changes := s.changes ++ (observed p s.node (s.node.step p e) e).toList

/-- A freshly constructed node and every event it can meet. -/
def system : System ClaimHistory StoreNodeEvent where
  Init s := ∃ nodeId o c, s = ⟨.create nodeId o c, []⟩
  step s e := some (s.step p e)

end ClaimHistory
/-! ### The unguarded paths, when they are not taken -/

theorem ContentStore.readLive_of_live {s : ContentStore} {contentId : String} {item : StoredContent}
    {now : ℤ} (hget : s.items.get? contentId = some item) (hlive : item.metadata.expired now = false) :
    s.readLive contentId now = (s, some item) := by
  simp [ContentStore.readLive, hget, hlive]

/-- What is found alive leaves the store as it is. -/
theorem ContentStore.readLive_of_isSome {s : ContentStore} {contentId : String} {now : ℤ}
    (h : (s.readLive contentId now).2.isSome = true) : (s.readLive contentId now).1 = s := by
  unfold ContentStore.readLive at h ⊢
  split at h
  · next item hget =>
    split_ifs at h ⊢ with hexpired
    · simp at h
    · rfl
  · simp at h

theorem ContentNode.contentStore_rejectIfAll (n : ContentNode) (contentId : String)
    (entry : PendingContentEntry) (error : String) :
    (n.rejectIfAll contentId entry error).contentStore = n.contentStore := by
  unfold ContentNode.rejectIfAll
  split <;> rfl

namespace Box

variable {p : Platform} {b : Box} {metadata : ContentMetadata} {data : Buffer} {t : Readings}

/-- A verified submission that the node does not let in does not reach the store. -/
theorem contentStore_of_not_letsIn {options : IngestOptions}
    (hverifies : ContentStore.verifies p metadata data t.store = true)
    (h : b.letsIn p metadata data t = false) :
    (b.ingestSignedContent p metadata data options t).1.contentStore = b.contentStore := by
  rw [ingestSignedContent]
  cases hallow : b.allowCaller metadata.publisher? t.limiter with
  | mk b₁ ok =>
    obtain ⟨limiter, rfl⟩ := allowCaller_frame hallow
    cases ok with
    | false => rfl
    | true =>
      dsimp only
      cases hpre : preVerified p metadata data t.check with
      | false => rfl
      | true =>
        simp only [letsIn, hallow, hpre, hverifies, Bool.true_and, Bool.and_true] at h
        obtain ⟨helevated, hslot⟩ : isElevated (wireDrop p metadata data) = true ∧
            b.hasElevatedDropSlot t.budget = false := by
          simpa using h
        rw [Bool.not_true, if_neg Bool.false_ne_true,
          classify_of_elevated options.priority t.budget helevated]
        have hnone : ({ b with ingestRateLimiter := limiter } : Box).hasElevatedDropSlot t.budget = false :=
          hslot
        rw [hnone]
        rfl

theorem contentStore_of_not_charged {request : DropRequest} {r : CheckedDropRequest}
    (hcheck : checkDropRequest request = .ok r) (h : (b.chargeDrop r.kind t.budget).2 = false) :
    (b.publishDrop p request t).1.contentStore = b.contentStore := by
  rw [publishDrop, hcheck]
  dsimp only
  cases hcharge : b.chargeDrop r.kind t.budget with
  | mk b₁ ok =>
    obtain ⟨window, rfl⟩ := chargeDrop_frame hcharge
    rw [hcharge] at h
    dsimp only at h
    subst h
    rfl

end Box

namespace StoreNode

variable {p : Platform} {n : StoreNode}

/-- A transfer that does not complete with verified bytes leaves the store alone. -/
theorem contentStore_of_not_completes {source contentId : String} {metadata : ContentMetadata} {now : ℤ}
    (h : n.completes p source contentId metadata now = false) :
    (n.fetching.handleContentComplete p source contentId (some metadata) now).contentStore =
      n.contentStore := by
  unfold ContentNode.handleContentComplete
  dsimp only
  cases hget : n.fetching.pendingContentRequests.get? contentId with
  | none =>
    dsimp only
    rw [ContentNode.tryAssembleAndResolve, hget]
    rfl
  | some entry =>
    dsimp only
    cases hactive : entry.activeFetches.has source with
    | false => rfl
    | true =>
      have hsame : entry.SameTransfer (entry.retire source).flushed :=
        (PendingContentEntry.retire_same entry source).trans PendingContentEntry.flushed_same
      have hget' : (n.fetching.update contentId (entry.retire source)).pendingContentRequests.get? contentId =
          some (entry.retire source).flushed := OrderedMap.get?_set_self _ _ _
      have hentry : n.pendingContentRequests.get? contentId = some entry := hget
      rw [Bool.not_true, if_neg Bool.false_ne_true, ContentNode.tryAssembleAndResolve, hget']
      dsimp only
      rw [hsame.totalChunks, hsame.metadata]
      cases htotal : entry.totalChunks with
      | none => rfl
      | some total =>
        have hunverified : n.fetching.assembledVerifies p contentId entry metadata now = false := by
          simpa [completes, hentry, hactive, htotal] using h
        simp only [Option.isNone_some, Bool.false_eq_true, if_false]
        split
        · next data hdata =>
          cases hverifies : ContentStore.verifies p (entry.metadata.getD metadata) data now with
          | true =>
            have hcomplete : (n.fetching.requesterAssembler.tryComplete p contentId
                (entry.metadata.getD metadata)).2 = some data := hdata
            have hassembled := ContentNode.assembledVerifies_iff.mpr ⟨data, hcomplete, hverifies⟩
            rw [hunverified] at hassembled
            cases hassembled
          | false =>
            rw [ContentStore.putVerified_of_not_verifies hverifies]
            exact ContentNode.contentStore_rejectIfAll _ _ _ _
        · exact ContentNode.contentStore_rejectIfAll _ _ _ _

theorem contentStore_observeRelayedComplete {contentId : String} {metadata : ContentMetadata} {now : ℤ}
    (h : (n.contentStore.readLive contentId now).2.isSome = true) :
    (n.observeRelayedComplete p contentId metadata now).contentStore = n.contentStore := by
  unfold observeRelayedComplete
  simp only [h, if_true]
  exact ContentStore.readLive_of_isSome h

/-- A content that is held alive is no news. -/
theorem contentStore_handleContentAnnounce {metadata : ContentMetadata} {inline? : Option Buffer}
    {fromPeerId : String} {t : Readings}
    (h : (n.contentStore.readLive metadata.contentId t.read).2.isSome = true) :
    (n.handleContentAnnounce p metadata inline? fromPeerId t).contentStore = n.contentStore := by
  have hread : (n.box.contentStore.readLive metadata.contentId t.read).2.isSome = true := h
  have hrefused : n.acceptsCatalogEntry p metadata t = false := by
    simp [acceptsCatalogEntry, Option.isNone_eq_false_iff.mpr h]
  unfold handleContentAnnounce
  simp only [hrefused, Bool.not_false, if_true]
  unfold Box.acceptCatalogEntry
  simp only [hread, if_true]
  exact ContentStore.readLive_of_isSome h

/-- A verified submission for a live entry reaches the store on an unguarded path only. -/
theorem contentStore_of_guarded {e : StoreNodeEvent} {metadata : ContentMetadata} {data : Buffer}
    {item : StoredContent} (hguarded : n.unguarded p e = false)
    (hsubmission : n.submission? p e = some (metadata, data))
    (hverifies : ContentStore.verifies p metadata data e.storedAt = true)
    (hget : n.contentStore.items.get? metadata.contentId = some item)
    (hlive : ∀ now ∈ e.readings, item.metadata.expired now = false) :
    (n.step p e).contentStore = n.contentStore := by
  cases e with
  | box e =>
    cases e with
    | ingestSignedContent metadata' data' options t =>
      obtain ⟨rfl, rfl⟩ := Prod.mk.inj (Option.some.inj hsubmission)
      exact Box.contentStore_of_not_letsIn hverifies hguarded
    | publishDrop request t =>
      cases hcheck : Box.checkDropRequest request with
      | error message => simp [submission?, hcheck] at hsubmission
      | ok r =>
        have hrefused : (n.box.chargeDrop r.kind t.budget).2 = false := by
          simpa [unguarded, hcheck] using hguarded
        exact Box.contentStore_of_not_charged hcheck hrefused
    | _ => simp [submission?] at hsubmission
  | content e =>
    cases e with
    | stored metadata' data' now => simp [unguarded] at hguarded
    | receive source message now =>
      cases message with
      | complete contentId metadata? =>
        cases metadata? with
        | none => simp [submission?] at hsubmission
        | some metadata' => exact contentStore_of_not_completes hguarded
      | _ => simp [submission?] at hsubmission
    | _ => simp [submission?] at hsubmission
  | put name mimeType data' ttlMs createdAt now => simp [submission?] at hsubmission
  | relayedChunk contentId chunkIndex totalChunks data' now => simp [submission?] at hsubmission
  | relayedComplete contentId metadata' now =>
    obtain ⟨data', -, hpair⟩ := Option.bind_eq_some_iff.mp hsubmission
    obtain ⟨rfl, rfl⟩ := Prod.mk.inj (Option.some.inj hpair)
    refine contentStore_observeRelayedComplete ?_
    by_cases hid : contentId = metadata'.contentId
    · rw [hid, ContentStore.readLive_of_live hget (hlive now (by simp [StoreNodeEvent.readings]))]
      rfl
    · simpa [unguarded, hid] using hguarded
  | announce metadata' inline? fromPeerId t =>
    cases inline? with
    | none => simp [submission?] at hsubmission
    | some data' =>
      obtain ⟨rfl, rfl⟩ := Prod.mk.inj (Option.some.inj hsubmission)
      refine contentStore_handleContentAnnounce ?_
      rw [ContentStore.readLive_of_live hget
        (hlive t.read (by simp [StoreNodeEvent.readings, Readings.toList]))]
      rfl

end StoreNode

namespace ClaimHistory

variable {p : Platform} {n : StoreNode} {e : StoreNodeEvent}

/-- A step that meets the condition leaves the claims of others alone. -/
theorem observed_keeps {c : ClaimChange} (hkeeps : n.keepsFirst p e = true)
    (h : observed p n (n.step p e) e = some c) (hother : c.submitter ≠ c.before.publisherId) :
    c.after = c.before := by
  simp only [observed, Option.bind_eq_bind, Option.bind_eq_some_iff, Option.guard_eq_some',
    Option.pure_def] at h
  obtain ⟨⟨metadata, data⟩, hsubmission, -, hverifies, submitter, hsubmitter, item, hget, -, hlive,
    before, hbefore, item', hget', after, hafter, hc⟩ := h
  obtain rfl := Option.some.inj hc
  have hheld : n.heldByAnother metadata e.readings = true := by
    have hne : some submitter ≠ some before.publisherId := fun heq => hother (Option.some.inj heq)
    simp only [StoreNode.heldByAnother, hget, Option.any_some, hlive, hbefore, hsubmitter,
      Bool.true_and, decide_eq_true_eq]
    exact hne
  have hguarded : n.unguarded p e = false := by
    simpa [StoreNode.keepsFirst, hsubmission, hverifies, hheld] using hkeeps
  have hsame := StoreNode.contentStore_of_guarded hguarded hsubmission hverifies hget
    (fun now hnow => by simpa using List.all_eq_true.mp hlive now hnow)
  rw [hsame] at hget'
  obtain rfl := Option.some.inj (hget.symm.trans hget')
  exact Option.some.inj (hafter.symm.trans hbefore)

/-- While every step that brings a verified submission of bytes that another
publisher's live entry holds comes on a guarded path, no such submission changes
the publisher, the priority or the expiry of an entry. -/
theorem first_claim_kept {s : ClaimHistory}
    (h : (system p).ReachableUnder (fun s e => s.node.keepsFirst p e = true) s) :
    ∀ c ∈ s.changes, c.submitter ≠ c.before.publisherId → c.after = c.before := by
  apply h.invariant (I := fun s => ∀ c ∈ s.changes, c.submitter ≠ c.before.publisherId → c.after = c.before)
  · rintro s ⟨nodeId, o, options, rfl⟩
    simp
  · intro s e s' ih hkeeps hstep
    obtain rfl := Option.some.inj hstep
    intro c hc hother
    rcases List.mem_append.mp hc with hold | hnew
    · exact ih c hold hother
    · exact observed_keeps hkeeps (Option.mem_toList.mp hnew) hother

/-! ### The same bytes signed twice -/

/-- One byte, signed as an emergency. -/
def sos : ContentMetadata :=
  ContentNode.signedNote "ada" [65] Priority.emergency.toJs none

/-- The same byte, signed by somebody else as bulk that expires soon. -/
def demotion : ContentMetadata :=
  ContentNode.signedNote "eve" [65] Priority.bulk.toJs (some 9)

def submit (metadata : ContentMetadata) (now : ℤ) : StoreNodeEvent :=
  .box (.ingestSignedContent metadata [65] {} (.const now))

def start : ClaimHistory := ⟨.create "me" {} {}, []⟩

/-- Forwarding the demoted copy leaves the emergency alone. -/
theorem first_claim_kept_relayed :
    ∃ s, (system ContentNode.plainRuntime).ReachableUnder
        (fun s e => s.node.keepsFirst ContentNode.plainRuntime e = true) s ∧
      s.changes.map (fun c => (c.before.publisherId, c.submitter)) = [("ada", "eve")] ∧
      ∀ c ∈ s.changes, c.submitter ≠ c.before.publisherId → c.after = c.before := by
  have hrun : ((system ContentNode.plainRuntime).runUnder
      (fun s e => s.node.keepsFirst ContentNode.plainRuntime e) start
      [.relayedChunk "A" (some 0) (some 1) [65] 1, submit sos 2, .relayedComplete "A" demotion 3]).map
        (fun s => s.changes.map fun c => (c.before.publisherId, c.submitter)) = some [("ada", "eve")] := by
    decide +kernel
  obtain ⟨s, hs, hlog⟩ := Option.map_eq_some_iff.mp hrun
  have hreach : (system ContentNode.plainRuntime).ReachableUnder
      (fun s e => s.node.keepsFirst ContentNode.plainRuntime e = true) s :=
    System.reachableUnder_of_runUnder ⟨"me", {}, {}, rfl⟩ hs
  exact ⟨s, hreach, hlog, first_claim_kept hreach⟩

/-- Submitting it over HTTP demotes the emergency and shortens its life. -/
theorem first_claim_replaced :
    ∃ s, (system ContentNode.plainRuntime).Reachable s ∧
      ∃ c ∈ s.changes, c.submitter ≠ c.before.publisherId ∧ c.after.publisherId ≠ c.before.publisherId ∧
        priorityRank c.before.priority = .emergency ∧ priorityRank c.after.priority = .bulk ∧
        c.before.expiresAt = none ∧ c.after.expiresAt = some 9 := by
  have hrun : ((system ContentNode.plainRuntime).run start [submit sos 2, submit demotion 3]).map
      (fun s => s.changes.any fun c => decide (c.submitter ≠ c.before.publisherId ∧
        c.after.publisherId ≠ c.before.publisherId ∧ priorityRank c.before.priority = .emergency ∧
        priorityRank c.after.priority = .bulk ∧ c.before.expiresAt = none ∧
        c.after.expiresAt = some 9)) = some true := by
    decide +kernel
  obtain ⟨s, hs, hany⟩ := Option.map_eq_some_iff.mp hrun
  obtain ⟨c, hc, hchanged⟩ := List.any_eq_true.mp hany
  have hreach : (system ContentNode.plainRuntime).Reachable s :=
    System.reachable_of_run ⟨"me", {}, {}, rfl⟩ hs
  exact ⟨s, hreach, c, hc, of_decide_eq_true hchanged⟩

end ClaimHistory

/-! ### The catalog -/

/-- The rule of the catalog: a live entry is never replaced by another one. -/
theorem RemoteCatalog.record_keeps {c : RemoteCatalog} {trustRank : String → ℤ}
    {metadata held : ContentMetadata} {now : ℤ}
    (hget : c.items.get? metadata.contentId = some held) (hlive : held.expired now = false) :
    c.record trustRank metadata now = c := by
  simp [RemoteCatalog.record, RemoteCatalog.get, hget, hlive]

end Arald
