import Arald.Content.Assembler
import Arald.Content.Scheduling
import Arald.Content.Store
import Arald.Foundations.Runs
import Arald.Mesh.Trust

/-!
# A node that fetches and serves content

The part of `NomadNode` that finds a content in the mesh, requests its chunks
from the providers that reply, reassembles and verifies it, and that answers
such requests for what it holds. The source of a packet is a claim, so anybody
can send anything in anybody's name.

What a node sends goes to `outbox`. The promises that `getContent` returned and
that were settled over the network are logged in `resolutions` and `rejections`.
-/

namespace Arald

open Foundations

inductive ContentMessage where
  | query (contentId : String)
  /-- `none` is metadata without a usable size. -/
  | found (contentId : String) (metadata : Option ContentMetadata)
  | notFound (contentId : String)
  | request (contentId : String) (chunkStart chunkEnd : Option ℤ)
  | chunk (contentId : String) (chunkIndex totalChunks : Option ℤ) (data : Buffer)
  | complete (contentId : String) (metadata : Option ContentMetadata)

structure Outgoing where
  /-- `none` floods. -/
  destination : Option String
  message : ContentMessage

/-- A request that was fetched from the network. -/
structure Resolution where
  contentId : String
  metadata : ContentMetadata
  /-- The stored bytes that were reassembled. -/
  data : Buffer
  /-- What the waiters get. -/
  content : Option Buffer
  waiters : List ℕ

structure Rejection where
  contentId : String
  error : String
  waiters : List ℕ

structure ContentNode where
  nodeId : String
  trust : TrustManager
  contentStore : ContentStore
  requesterAssembler : ChunkAssembler
  pendingContentRequests : OrderedMap String PendingContentEntry
  outbox : List Outgoing
  resolutions : List Resolution
  rejections : List Rejection

/-- What a call of `getContent` comes to at once. -/
inductive GetContentResult where
  /-- Served from the store; decoding it may throw. -/
  | stored (content : Option Buffer)
  | pending

namespace ContentNode

def publisherTrust (n : ContentNode) (publisherId : String) : ℤ :=
  n.trust.publisherRank n.nodeId publisherId

def send (n : ContentNode) (destination : Option String) (message : ContentMessage) : ContentNode :=
  { n with outbox := n.outbox ++ [⟨destination, message⟩] }

/-- Write an open request back, and send what it has to send. -/
def update (n : ContentNode) (contentId : String) (entry : PendingContentEntry) : ContentNode :=
  { n with
    pendingContentRequests := n.pendingContentRequests.set contentId entry.flushed
    outbox := n.outbox ++ entry.outbox.map fun r =>
      ⟨some r.1, .request entry.contentId (some r.2.chunkStart) (some r.2.chunkEnd)⟩ }

/-! ### The provider's side -/

def handleContentQuery (n : ContentNode) (source contentId : String) (now : ℤ) : ContentNode :=
  let found := n.contentStore.readLive contentId now
  let n := { n with contentStore := found.1 }
  match found.2 with
  | some item => n.send (some source) (.found contentId (some item.metadata))
  | none => n

/-- The indices that a requested range selects from `count` chunks: both bounds
are untrusted, and clamped to what there is. -/
def clampRange (count : ℕ) (rawStart rawEnd : Option ℤ) : ChunkRange :=
  let lastIndex : ℤ := count - 1
  let chunkStart := match rawStart with
    | some s => if 0 ≤ s then min s lastIndex else 0
    | none => 0
  let chunkEnd := match rawEnd with
    | some t => if chunkStart ≤ t then min t lastIndex else lastIndex
    | none => lastIndex
  ⟨chunkStart, chunkEnd⟩

/-- The chunk messages for a range of indices. -/
def chunkMessages (contentId : String) (chunks : List Buffer) (range : ChunkRange) :
    List ContentMessage :=
  (List.range (range.chunkEnd + 1 - range.chunkStart).toNat).map fun k : ℕ =>
    .chunk contentId (some (range.chunkStart + k)) (some chunks.length)
      (chunks.getD (range.chunkStart + k).toNat [])

def handleContentRequest (n : ContentNode) (source contentId : String) (chunkStart chunkEnd : Option ℤ)
    (now : ℤ) : ContentNode :=
  let found := n.contentStore.readLive contentId now
  let n := { n with contentStore := found.1 }
  match found.2 with
  | none => n.send (some source) (.notFound contentId)
  | some item =>
    let chunks := n.contentStore.chunksFor contentId now
    let messages := chunkMessages contentId chunks (clampRange chunks.length chunkStart chunkEnd) ++
      [.complete contentId (some item.metadata)]
    { n with outbox := n.outbox ++ messages.map fun m => ⟨some source, m⟩ }

/-! ### The requester's side -/

def getContent (p : Platform) (n : ContentNode) (contentId : String) (waiter : ℕ) (now : ℤ) :
    ContentNode × GetContentResult :=
  let cached := n.contentStore.readLive contentId now
  let n := { n with contentStore := cached.1 }
  match cached.2 with
  | some item => (n, .stored (decodeStoredContent p item.metadata item.data))
  | none =>
    let entry := ((n.pendingContentRequests.get? contentId).getD { contentId }).join waiter
    if entry.queried then (n.update contentId entry, .pending)
    else ((n.update contentId { entry with queried := true }).send none (.query contentId), .pending)

/-- A caller has waited long enough; the request ends with its last waiter. -/
def waiterTimeout (n : ContentNode) (contentId : String) (waiter : ℕ) : ContentNode :=
  match n.pendingContentRequests.get? contentId with
  | none => n
  | some entry =>
    if waiter ∉ entry.waiters then n
    else
      let entry := entry.leave waiter
      let n := if entry.waiters = [] then
          { n with pendingContentRequests := n.pendingContentRequests.delete contentId }
        else n.update contentId entry
      { n with rejections :=
          n.rejections ++ [⟨contentId, "content not found within mesh: " ++ contentId, [waiter]⟩] }

def handleContentFound (n : ContentNode) (source contentId : String)
    (metadata : Option ContentMetadata) : ContentNode :=
  match n.pendingContentRequests.get? contentId with
  | some entry => n.update contentId (entry.found source metadata)
  | none => n

def abandonFetch (n : ContentNode) (contentId providerId : String) : ContentNode :=
  match n.pendingContentRequests.get? contentId with
  | some entry => n.update contentId (entry.abandonFetch providerId)
  | none => n

def handleContentNotFound (n : ContentNode) (source contentId : String) : ContentNode :=
  match n.pendingContentRequests.get? contentId with
  | some entry => if entry.activeFetches.has source then n.abandonFetch contentId source else n
  | none => n

/-- Record a chunk for an open request, if the assembler accepted it. -/
def recordChunk (n : ContentNode) (contentId : String) (entry : PendingContentEntry)
    (chunkIndex totalChunks : Option ℤ) (accepted : Bool) : ContentNode :=
  match accepted, chunkIndex, totalChunks with
  | true, some chunkIndex, some totalChunks =>
    n.update contentId (entry.recordChunk chunkIndex totalChunks)
  | _, _, _ => n

/-- A chunk for an open request counts only from a provider that is fetching;
one for no open request goes to the assembler. -/
def handleContentChunk (n : ContentNode) (source contentId : String)
    (chunkIndex totalChunks : Option ℤ) (data : Buffer) : ContentNode :=
  let added := n.requesterAssembler.addChunk contentId chunkIndex totalChunks data
  match n.pendingContentRequests.get? contentId with
  | some entry =>
    if !entry.activeFetches.has source then n
    else
      { n with requesterAssembler := added.1 }.recordChunk contentId entry chunkIndex totalChunks added.2
  | none => { n with requesterAssembler := added.1 }

/-- Close a request and hand the decoded bytes to its waiters. -/
def resolve (p : Platform) (n : ContentNode) (contentId : String) (entry : PendingContentEntry)
    (metadata : ContentMetadata) (data : Buffer) : ContentNode :=
  { n with
    trust := match metadata.publisher? with
      | some publisherId => n.trust.markVerified publisherId
      | none => n.trust
    pendingContentRequests := n.pendingContentRequests.delete contentId
    resolutions := n.resolutions ++
      [⟨contentId, metadata, data, decodeStoredContent p metadata data, entry.waiters⟩] }

/-- Close a request, unless chunks are still expected. -/
def rejectIfAll (n : ContentNode) (contentId : String) (entry : PendingContentEntry) (error : String) :
    ContentNode :=
  if entry.haveAll then
    { n with
      pendingContentRequests := n.pendingContentRequests.delete contentId
      rejections := n.rejections ++ [⟨contentId, error, entry.waiters⟩] }
  else n

def tryAssembleAndResolve (p : Platform) (n : ContentNode) (contentId : String)
    (fallbackMetadata : ContentMetadata) (now : ℤ) : ContentNode :=
  match n.pendingContentRequests.get? contentId with
  | none => n
  | some entry =>
    if entry.totalChunks.isNone then n
    else
      let metadata := entry.metadata.getD fallbackMetadata
      let completed := n.requesterAssembler.tryComplete p contentId metadata
      let n := { n with requesterAssembler := completed.1 }
      match completed.2 with
      | some data =>
        match n.contentStore.putVerified n.publisherTrust p metadata data now with
        | (store, true) => { n with contentStore := store }.resolve p contentId entry metadata data
        | (_, false) =>
          n.rejectIfAll contentId entry
            ("content signature invalid, untrusted publisher, or already expired: " ++ contentId)
      | none =>
        n.rejectIfAll contentId entry ("content hash mismatch or incomplete transfer: " ++ contentId)

def handleContentComplete (p : Platform) (n : ContentNode) (source contentId : String)
    (metadata : Option ContentMetadata) (now : ℤ) : ContentNode :=
  match metadata with
  | none => n
  | some metadata =>
    match n.pendingContentRequests.get? contentId with
    | some entry =>
      if !entry.activeFetches.has source then n
      else (n.update contentId (entry.retire source)).tryAssembleAndResolve p contentId metadata now
    | none => n.tryAssembleAndResolve p contentId metadata now

/-- Dispatch a message by its kind. -/
def receive (p : Platform) (n : ContentNode) (source : String) (message : ContentMessage) (now : ℤ) :
    ContentNode :=
  match message with
  | .query contentId => n.handleContentQuery source contentId now
  | .found contentId metadata => n.handleContentFound source contentId metadata
  | .notFound contentId => n.handleContentNotFound source contentId
  | .request contentId chunkStart chunkEnd =>
    n.handleContentRequest source contentId chunkStart chunkEnd now
  | .chunk contentId chunkIndex totalChunks data =>
    n.handleContentChunk source contentId chunkIndex totalChunks data
  | .complete contentId metadata => n.handleContentComplete p source contentId metadata now

end ContentNode

/-! ### Runs -/

inductive ContentEvent where
  | getContent (contentId : String) (waiter : ℕ) (now : ℤ)
  | receive (source : String) (message : ContentMessage) (now : ℤ)
  | waiterTimeout (contentId : String) (waiter : ℕ)
  /-- The timer of one provider's fetch goes off. -/
  | fetchTimeout (contentId providerId : String)
  /-- A link goes down. No request is touched: what was being fetched times out. -/
  | disconnected (peerId : String)
  /-- A content arrives at the store on another path. -/
  | stored (metadata : ContentMetadata) (data : Buffer) (now : ℤ)
  | peerSeen (peerId : String)
  | setTrust (nodeId : String) (level : TrustLevel)

namespace ContentNode

def step (p : Platform) (n : ContentNode) : ContentEvent → ContentNode
  | .getContent contentId waiter now => (n.getContent p contentId waiter now).1
  | .receive source message now => n.receive p source message now
  | .waiterTimeout contentId waiter => n.waiterTimeout contentId waiter
  | .fetchTimeout contentId providerId => n.abandonFetch contentId providerId
  | .disconnected _ => n
  | .stored metadata data now =>
    { n with contentStore := (n.contentStore.putVerified n.publisherTrust p metadata data now).1 }
  | .peerSeen peerId => { n with trust := n.trust.markSeen peerId }
  | .setTrust nodeId level => { n with trust := n.trust.set nodeId level }

/-- The options of the constructor that this part of the node reads. -/
structure Options where
  maxTrustEntries : WithTop ℤ := (4096 : ℤ)
  maxContentStoreEntries : WithTop ℤ := ContentStore.defaultMaxSize
  maxChunkAssemblyEntries : WithTop ℤ := ChunkAssembler.defaultMaxEntries
  maxChunksPerContent : WithTop ℤ := ChunkAssembler.defaultMaxChunksPerEntry

def create (nodeId : String) (o : Options) : ContentNode where
  nodeId := nodeId
  trust := ⟨.empty, o.maxTrustEntries⟩
  contentStore := .create o.maxContentStoreEntries
  requesterAssembler := ⟨.empty, o.maxChunkAssemblyEntries, o.maxChunksPerContent⟩
  pendingContentRequests := .empty
  outbox := []
  resolutions := []
  rejections := []

/-- A freshly constructed node and every event it can meet. -/
def system (p : Platform) : System ContentNode ContentEvent where
  Init n := ∃ nodeId o, n = create nodeId o
  step n e := some (n.step p e)

end ContentNode
end Arald
