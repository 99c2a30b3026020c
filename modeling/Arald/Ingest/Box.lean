import Arald.Content.Store
import Arald.Foundations.Runs
import Arald.Ingest.Registries
import Arald.Mesh.RateLimiter
import Arald.Mesh.Trust

/-!
# A node and its ingest endpoints

The part of `NomadNode` that takes submissions signed elsewhere: contents, node
appends, relay commands and external deliveries that arrive over HTTP, the mesh
paths that share state with them, and the node's own drops.

A call reads the clock several times; the readings are arguments. What the node
sends or emits and a statement needs is kept in two logs: the reboots it asked
for and the contents it let in.
-/

namespace Arald

open Foundations

inductive IngestSignedContentResult where
  | accepted
  | rejected
  | rateLimited
  deriving DecidableEq

/-- The readings of `Date.now()` during one call, by what they are for. -/
structure Readings where
  /-- The rate limiter of the caller. -/
  limiter : ℤ
  /-- The expiry check, or the moment of publishing. -/
  check : ℤ
  /-- The node-wide budgets. -/
  budget : ℤ
  /-- The expiry check inside the content store. -/
  store : ℤ
  /-- Reading a stored content back. -/
  read : ℤ
  /-- The time of observation that is recorded. -/
  observed : ℤ

def Readings.const (now : ℤ) : Readings := ⟨now, now, now, now, now, now⟩

/-- A content that the node accepted or published: its metadata and stored
bytes, the priority of its announcement, and the elevated-drop window then. -/
structure Publication where
  metadata : ContentMetadata
  data : Buffer
  announcedAt : Option Priority
  windowStart : ℤ

structure Box where
  nodeId : String
  trust : TrustManager
  minTrustForNodeAppend : TrustLevel
  minTrustForRelayCommand : TrustLevel
  ingestRateLimiter : RateLimiter
  elevatedDropWindow : BudgetWindow
  elevatedNodeAppendWindow : BudgetWindow
  httpIngestedNodeAppendWindow : BudgetWindow
  httpIngestedRelayCommandWindow : BudgetWindow
  httpIngestedExternalDeliveryWindow : BudgetWindow
  lastAcceptedRelayCommandAt : BoundedFifoMap String ℚ
  contentStore : ContentStore
  remoteCatalog : RemoteCatalog
  drops : Drops
  nodeAppends : NodeAppends
  externalDeliveryAllowlist : Option (OrderedMap String ExternalDeliveryDestination)
  maxExternalDeliveryPayloadBytes : ℕ
  externalDeliveryQueue : ExternalDeliveryQueue
  /-- The `relay:reboot-requested` events: the sender and the timestamp of its command. -/
  rebootRequests : List (String × ℚ)
  publications : List Publication

namespace Box

/-! ### Trust and budgets -/

def authorTrust (b : Box) (author : String) : ℤ := trustRank (b.trust.get author)

/-- The rank of a publisher for the content store. -/
def publisherTrust (b : Box) (publisherId : String) : ℤ :=
  b.trust.publisherRank b.nodeId publisherId

def maxElevatedDropsPerWindow : ℕ := 3

def elevatedDropRateLimitWindowMs : ℤ := 5 * 60 * 1000

def maxElevatedNodeAppendsPerWindow : ℕ := 3

def elevatedNodeAppendRateLimitWindowMs : ℤ := 5 * 60 * 1000

def maxHttpIngestedNodeAppendsPerWindow : ℕ := 20

def httpIngestedNodeAppendRateLimitWindowMs : ℤ := 5 * 60 * 1000

def maxHttpIngestedRelayCommandsPerWindow : ℕ := 3

def httpIngestedRelayCommandRateLimitWindowMs : ℤ := 5 * 60 * 1000

def maxHttpIngestedExternalDeliveriesPerWindow : ℕ := 20

def httpIngestedExternalDeliveryRateLimitWindowMs : ℤ := 5 * 60 * 1000

def tryConsumeElevatedDropBudget (b : Box) (now : ℤ) : Box × Bool :=
  let r := b.elevatedDropWindow.tryConsume maxElevatedDropsPerWindow elevatedDropRateLimitWindowMs now
  ({ b with elevatedDropWindow := r.1 }, r.2)

def tryConsumeElevatedNodeAppendBudget (b : Box) (now : ℤ) : Box × Bool :=
  let r := b.elevatedNodeAppendWindow.tryConsume maxElevatedNodeAppendsPerWindow
    elevatedNodeAppendRateLimitWindowMs now
  ({ b with elevatedNodeAppendWindow := r.1 }, r.2)

def tryConsumeHttpIngestedNodeAppendBudget (b : Box) (now : ℤ) : Box × Bool :=
  let r := b.httpIngestedNodeAppendWindow.tryConsume maxHttpIngestedNodeAppendsPerWindow
    httpIngestedNodeAppendRateLimitWindowMs now
  ({ b with httpIngestedNodeAppendWindow := r.1 }, r.2)

def tryConsumeHttpIngestedRelayCommandBudget (b : Box) (now : ℤ) : Box × Bool :=
  let r := b.httpIngestedRelayCommandWindow.tryConsume maxHttpIngestedRelayCommandsPerWindow
    httpIngestedRelayCommandRateLimitWindowMs now
  ({ b with httpIngestedRelayCommandWindow := r.1 }, r.2)

def tryConsumeHttpIngestedExternalDeliveryBudget (b : Box) (now : ℤ) : Box × Bool :=
  let r := b.httpIngestedExternalDeliveryWindow.tryConsume
    maxHttpIngestedExternalDeliveriesPerWindow httpIngestedExternalDeliveryRateLimitWindowMs now
  ({ b with httpIngestedExternalDeliveryWindow := r.1 }, r.2)

/-- Ask the rate limiter for a caller, if the submission names one. -/
def allowCaller (b : Box) (caller : Option String) (now : ℤ) : Box × Bool :=
  match caller with
  | some id =>
    let r := b.ingestRateLimiter.allow id now
    ({ b with ingestRateLimiter := r.1 }, r.2)
  | none => (b, true)

/-! ### Signed contents and drops -/

structure IngestOptions where
  announce : Bool := false
  priority : Option Priority := none

/-- The drop that the bytes of a submission say, read as they are on the wire. -/
def wireDrop (p : Platform) (metadata : ContentMetadata) (data : Buffer) : Option DropPayload :=
  if metadata.name = dropContentName then readDrop p data else none

/-- The priority of the announcement; an elevated drop takes a slot of the
budget for it, and nothing is announced when there is none. -/
def classify (b : Box) (drop : Option DropPayload) (requested : Option Priority) (now : ℤ) :
    Box × Option Priority :=
  match drop with
  | none => (b, some (requested.getD .content))
  | some d =>
    if d.kind = .info then (b, some (dropKindPriority d.kind))
    else
      match b.tryConsumeElevatedDropBudget now with
      | (b, true) => (b, some (dropKindPriority d.kind))
      | (b, false) => (b, none)

/-- Record the drop that a stored content decodes to. A content that is not in
the store would be fetched from the mesh first. -/
def considerDrop (p : Platform) (b : Box) (metadata : ContentMetadata) (fromPeerId : String)
    (t : Readings) : Box :=
  if metadata.name ≠ dropContentName then b
  else
    match metadata.publisher? with
    | none => b
    | some publisherId =>
      let found := b.contentStore.readLive metadata.contentId t.read
      let b := { b with contentStore := found.1 }
      match found.2.bind fun item => (decodeStoredContent p item.metadata item.data).bind (readDrop p) with
      | none => b
      | some payload =>
        let drop : Drop :=
          { payload with
            dropId := metadata.contentId
            author := publisherId
            expiresAt := metadata.expiresAt
            receivedFrom := if fromPeerId ≠ publisherId then some fromPeerId else none
            observedAt := t.observed }
        { b with drops := b.drops.record b.authorTrust drop }

/-- The checks that come before the elevated-drop budget. -/
def preVerified (p : Platform) (metadata : ContentMetadata) (data : Buffer) (now : ℤ) : Bool :=
  computeContentId p data = metadata.contentId && verifyContentSignature p metadata &&
    !metadata.expired now

/-- Log an accepted content and its announcement. -/
def publish (b : Box) (metadata : ContentMetadata) (data : Buffer) (announcedAt : Option Priority) :
    Box :=
  { b with publications :=
      b.publications ++ [⟨metadata, data, announcedAt, b.elevatedDropWindow.windowStart⟩] }

/-- `putVerified`, and what follows when it stored the content. -/
def storeAndAnnounce (p : Platform) (b : Box) (metadata : ContentMetadata) (data : Buffer)
    (announcedAt : Option Priority) (t : Readings) : Box × IngestSignedContentResult :=
  match b.contentStore.putVerified b.publisherTrust p metadata data t.store with
  | (_, false) => (b, .rejected)
  | (store, true) =>
    let b := ({ b with contentStore := store }).publish metadata data announcedAt
    (b.considerDrop p metadata (metadata.publisherId.getD "") t, .accepted)

def ingestSignedContent (p : Platform) (b : Box) (metadata : ContentMetadata) (data : Buffer)
    (options : IngestOptions) (t : Readings) : Box × IngestSignedContentResult :=
  match b.allowCaller metadata.publisher? t.limiter with
  | (b, false) => (b, .rateLimited)
  | (b, true) =>
    if !preVerified p metadata data t.check then (b, .rejected)
    else
      match b.classify (wireDrop p metadata data) options.priority t.budget with
      | (b, none) => (b, .rateLimited)
      | (b, some priority) =>
        b.storeAndAnnounce p metadata data (if options.announce then some priority else none) t

/-! ### The node's own drops -/

def defaultDropTtlMs : ℚ := 24 * 60 * 60 * 1000

def maxDropTtlMs : ℚ := 72 * 60 * 60 * 1000

structure DropRequest where
  text : String
  lat : JsNumber
  lon : JsNumber
  label : Option String
  kind : DropKind
  expiresInMs : Option JsNumber
  createdAt : Option JsNumber

/-- A finite number within bounds. -/
def finiteWithin? (low high : ℚ) (v : JsNumber) : Option ℚ := within? low high (.num v)

/-- What a request is after its checks. -/
structure CheckedDropRequest where
  text : String
  lat : ℚ
  lon : ℚ
  label : Option String
  kind : DropKind
  expiresInMs : Option ℚ
  createdAt : Option ℚ

/-- The checks of `publishDrop`, in their order, with their messages. -/
def checkDropRequest (r : DropRequest) : Except String CheckedDropRequest := do
  if utf16Length r.text = 0 ∨ maxMessageTextLength < utf16Length r.text then
    throw "drop text must be 1-4000 characters"
  let some lat := finiteWithin? (-90) 90 r.lat
    | throw "publishDrop: 'lat' must be a finite number in [-90, 90]"
  let some lon := finiteWithin? (-180) 180 r.lon
    | throw "publishDrop: 'lon' must be a finite number in [-180, 180]"
  if (r.label.any fun l => utf16Length l = 0 ∨ maxDropLabelLength < utf16Length l) then
    throw "drop label must be 1-100 characters"
  let expiresInMs ← match r.expiresInMs with
    | none => pure none
    | some v =>
      match (JsValue.num v).finite? with
      | some q =>
        if 0 < q then pure (some q)
        else throw "publishDrop: 'expiresInMs' must be a finite positive number"
      | none => throw "publishDrop: 'expiresInMs' must be a finite positive number"
  let createdAt ← match r.createdAt with
    | none => pure none
    | some v =>
      match (JsValue.num v).finite? with
      | some q => pure (some q)
      | none => throw "publishDrop: 'createdAt' must be a finite number"
  return { text := r.text, lat, lon, label := r.label, kind := r.kind, expiresInMs, createdAt }

/-- `a + b` as the program computes it, for sums that stay finite. -/
def roundedSum (a b : ℚ) : ℚ :=
  match JsNumber.round (a + b) with
  | .finite q => q
  | _ => a + b

/-- The payload of a drop: a declared time of writing is clamped to the last day. -/
def dropPayloadOf (r : CheckedDropRequest) (now : ℤ) : DropPayload where
  text := r.text
  lat := r.lat
  lon := r.lon
  label := r.label
  kind := r.kind
  timestamp := match r.createdAt with
    | none => now
    | some createdAt => min (now : ℚ) (max ((now : ℚ) - defaultDropTtlMs) createdAt)

structure PublishOptions where
  ttlMs : Option ℚ := none
  announce : Bool := false
  priority : Option Priority := none

/-- The metadata that `publishContent` signs for the stored bytes. -/
def ownMetadata (p : Platform) (b : Box) (name mimeType : String) (c : CompressedForTransfer)
    (options : PublishOptions) (now : ℤ) : ContentMetadata :=
  let unsigned : ContentMetadata :=
    { contentId := computeContentId p c.data
      name
      mimeType
      size := c.data.length
      createdAt := now
      publisherId := some b.nodeId
      expiresAt := options.ttlMs.map fun ttl => roundedSum now ttl
      encoding := c.encoding
      originalSize := c.originalSize
      priority := (options.priority.map Priority.toJs).getD .undefined }
  { unsigned with signature := some (p.sign b.nodeId (contentSigningPayload p unsigned)) }

def publishContent (p : Platform) (b : Box) (name mimeType : String) (data : Buffer)
    (options : PublishOptions) (t : Readings) : Box × Except String ContentMetadata :=
  let c := compressForTransfer p data
  let metadata := b.ownMetadata p name mimeType c options t.check
  match b.contentStore.putVerified b.publisherTrust p metadata c.data t.store with
  | (_, false) =>
    (b, .error "internal error: freshly signed content failed its own verification (bad signature, or ttlMs too small to survive publishing)")
  | (store, true) =>
    let announcedAt := if options.announce then some (options.priority.getD .content) else none
    (({ b with contentStore := store }).publish metadata c.data announcedAt, .ok metadata)

/-- Take a slot of the budget for an elevated drop. -/
def chargeDrop (b : Box) (kind : DropKind) (now : ℤ) : Box × Bool :=
  if kind = .info then (b, true) else b.tryConsumeElevatedDropBudget now

def publishDrop (p : Platform) (b : Box) (request : DropRequest) (t : Readings) :
    Box × Except String Drop :=
  match checkDropRequest request with
  | .error message => (b, .error message)
  | .ok r =>
    match b.chargeDrop r.kind t.budget with
    | (b, false) => (b, .error "publishDrop: too many high-priority drops, try again later")
    | (b, true) =>
      let payload := dropPayloadOf r t.check
      let options : PublishOptions :=
        { ttlMs := some (min (r.expiresInMs.getD defaultDropTtlMs) maxDropTtlMs)
          announce := true
          priority := some (dropKindPriority r.kind) }
      match b.publishContent p dropContentName "application/json" (p.stringify payload.toJs) options t with
      | (b, .error message) => (b, .error message)
      | (b, .ok metadata) =>
        let drop : Drop :=
          { payload with
            dropId := metadata.contentId
            author := b.nodeId
            expiresAt := metadata.expiresAt
            receivedFrom := none
            observedAt := t.observed }
        ({ b with drops := b.drops.record b.authorTrust drop }, .ok drop)

/-! ### Node appends -/

def ingestSignedNodeAppend (p : Platform) (b : Box) (submission : JsValue) (t : Readings) :
    Box × IngestSignedContentResult :=
  match b.allowCaller (submission.prop "publisherId").string? t.limiter with
  | (b, false) => (b, .rateLimited)
  | (b, true) =>
    match verifySignedNodeAppendSubmission p submission with
    | none => (b, .rejected)
    | some verified =>
      if verified.targetNodeId ≠ b.nodeId then (b, .rejected)
      else if verified.expiresAt ≤ t.check then (b, .rejected)
      else
        match b.tryConsumeHttpIngestedNodeAppendBudget t.budget with
        | (b, false) => (b, .rateLimited)
        | (b, true) =>
          let charged :=
            if verified.kind = .info then (b, true) else b.tryConsumeElevatedNodeAppendBudget t.budget
          match charged with
          | (b, false) => (b, .rateLimited)
          | (b, true) =>
            let append : NodeAppend :=
              { text := verified.text
                label := verified.label
                kind := verified.kind
                timestamp := verified.timestamp
                expiresAt := verified.expiresAt
                appendId := verified.signature
                author := verified.publisherId }
            ({ b with nodeAppends := b.nodeAppends.record b.authorTrust append }, .accepted)

/-! ### Relay commands -/

/-- The timestamp is not newer than the last accepted one of the sender. -/
def isReplay (b : Box) (senderId : String) (timestamp : ℚ) : Bool :=
  (b.lastAcceptedRelayCommandAt.get? senderId).any fun last => timestamp ≤ last

/-- The score that decides which sender is forgotten first. -/
def senderScore (b : Box) : BoundedFifoMap.EvictionScore String ℚ :=
  fun senderId _ => (b.authorTrust senderId : WithTop ℤ)

/-- Remember the command and ask for the reboot. -/
def acceptRelayCommand (b : Box) (senderId : String) (timestamp : ℚ) : Box :=
  { b with
    lastAcceptedRelayCommandAt :=
      b.lastAcceptedRelayCommandAt.set (some b.senderScore) senderId timestamp
    rebootRequests := b.rebootRequests ++ [(senderId, timestamp)] }

/-- The mesh path, from the authenticated sender of a private message. -/
def considerRelayCommand (b : Box) (senderId : String) (command : Option RelayCommandPayload) : Box :=
  match command with
  | none => b
  | some command =>
    if !meetsTrustLevel (b.trust.get senderId) b.minTrustForRelayCommand then b
    else if b.isReplay senderId command.timestamp then b
    else b.acceptRelayCommand senderId command.timestamp

def ingestSignedRelayCommand (p : Platform) (b : Box) (submission : JsValue) (t : Readings) :
    Box × IngestSignedContentResult :=
  match b.allowCaller (submission.prop "publisherId").string? t.limiter with
  | (b, false) => (b, .rateLimited)
  | (b, true) =>
    match verifySignedRelayCommandSubmission p submission with
    | none => (b, .rejected)
    | some verified =>
      if verified.targetNodeId ≠ b.nodeId then (b, .rejected)
      else if b.isReplay verified.publisherId verified.timestamp then (b, .rejected)
      else
        match b.tryConsumeHttpIngestedRelayCommandBudget t.budget with
        | (b, false) => (b, .rateLimited)
        | (b, true) => (b.acceptRelayCommand verified.publisherId verified.timestamp, .accepted)

/-! ### External deliveries -/

def httpIngestPacketId (p : Platform) (d : ExternalDeliveryPayload) : String :=
  "http-ingest:" ++ p.sha256 (utf8 (d.destinationId ++ ":" ++ d.nonce ++ ":" ++ d.ciphertext ++ ":" ++
    d.authTag))

/-- The queue entry of a delivery; `sizeBytes` is the length of the decoded ciphertext. -/
def queuedDelivery (p : Platform) (q : ExternalDeliveryQueue) (d : ExternalDeliveryPayload)
    (url : String) (now : ℤ) : QueuedExternalDelivery where
  packetId := httpIngestPacketId p d
  destinationId := d.destinationId
  url := url
  senderEphemeralPublicKey := d.senderEphemeralPublicKey
  nonce := d.nonce
  ciphertext := d.ciphertext
  authTag := d.authTag
  submittedAt := d.submittedAt
  priority := .content
  sizeBytes := utf16Length d.ciphertext / 2
  expiresAt := now + q.ttlMs

/-- The allowlisted destination of a delivery whose password proof holds. -/
def authorizedDestination? (p : Platform) (b : Box) (d : ExternalDeliveryPayload) :
    Option ExternalDeliveryDestination :=
  (b.externalDeliveryAllowlist.bind fun allowlist => allowlist.get? d.destinationId).filter
    fun destination => verifyExternalDeliveryAuthProof p destination.password d

def ingestExternalDelivery (p : Platform) (b : Box) (payload : JsValue) (t : Readings) :
    Box × IngestSignedContentResult :=
  if b.externalDeliveryAllowlist.isNone then (b, .rejected)
  else
    match extractExternalDeliveryPayload payload (b.maxExternalDeliveryPayloadBytes * 2) with
    | none => (b, .rejected)
    | some parsed =>
      match b.authorizedDestination? p parsed with
      | none => (b, .rejected)
      | some destination =>
        match b.allowCaller (some parsed.destinationId) t.limiter with
        | (b, false) => (b, .rateLimited)
        | (b, true) =>
          match b.tryConsumeHttpIngestedExternalDeliveryBudget t.budget with
          | (b, false) => (b, .rateLimited)
          | (b, true) =>
            let entry := queuedDelivery p b.externalDeliveryQueue parsed destination.url t.observed
            ({ b with externalDeliveryQueue := b.externalDeliveryQueue.enqueue entry }, .accepted)

/-! ### Paths of the mesh that share this state -/

/-- Record what a peer announced, if it is signed, alive and not held already. -/
def acceptCatalogEntry (p : Platform) (b : Box) (metadata : ContentMetadata) (t : Readings) : Box :=
  let found := b.contentStore.readLive metadata.contentId t.read
  let b := { b with contentStore := found.1 }
  if found.2.isSome then b
  else if !verifyContentSignature p metadata then b
  else if metadata.expired t.check then b
  else
    let b := { b with remoteCatalog := b.remoteCatalog.record b.authorTrust metadata t.store }
    match metadata.publisher? with
    | some publisherId => { b with trust := b.trust.markVerified publisherId }
    | none => b

def extractNodeAppendPayload (payload : JsValue) (appendId author : String) : Option NodeAppend := do
  guard payload.isObject
  guard ((payload.prop "type").string? = some "node-append")
  let text ← boundedText? maxMessageTextLength (payload.prop "text")
  let label ← optional? (boundedText? maxNodeAppendLabelLength) (payload.prop "label")
  let kind ← (payload.prop "kind").string? >>= DropKind.ofString?
  let timestamp ← (payload.prop "timestamp").finite?
  let expiresAt ← (payload.prop "expiresAt").finite?
  return { text, label, kind, timestamp, expiresAt, appendId, author }

def considerNodeAppend (b : Box) (senderId : String) (append : Option NodeAppend) : Box :=
  match append with
  | none => b
  | some append =>
    if !meetsTrustLevel (b.trust.get senderId) b.minTrustForNodeAppend then b
    else { b with nodeAppends := b.nodeAppends.record b.authorTrust append }

/-- A private message that decrypted, so that its sender is authentic. -/
def handlePrivateMessage (b : Box) (senderId packetId : String) (payload : JsValue) : Box :=
  let b := b.considerNodeAppend senderId (extractNodeAppendPayload payload packetId senderId)
  b.considerRelayCommand senderId (extractRelayCommand payload)

end Box

/-! ### Runs -/

inductive BoxEvent where
  | ingestSignedContent (metadata : ContentMetadata) (data : Buffer) (options : Box.IngestOptions)
      (t : Readings)
  | ingestSignedNodeAppend (submission : JsValue) (t : Readings)
  | ingestSignedRelayCommand (submission : JsValue) (t : Readings)
  | ingestExternalDelivery (payload : JsValue) (t : Readings)
  | publishDrop (request : Box.DropRequest) (t : Readings)
  | privateMessage (senderId packetId : String) (payload : JsValue)
  | catalogEntry (metadata : ContentMetadata) (t : Readings)
  /-- A peer connected: it is marked as seen. -/
  | peerSeen (peerId : String)
  /-- The operator assigns a trust level. -/
  | setTrust (nodeId : String) (level : TrustLevel)
  /-- An external delivery went out. -/
  | deliverySent (packetId : String)

namespace Box

def step (p : Platform) (b : Box) : BoxEvent → Box
  | .ingestSignedContent metadata data options t => (b.ingestSignedContent p metadata data options t).1
  | .ingestSignedNodeAppend submission t => (b.ingestSignedNodeAppend p submission t).1
  | .ingestSignedRelayCommand submission t => (b.ingestSignedRelayCommand p submission t).1
  | .ingestExternalDelivery payload t => (b.ingestExternalDelivery p payload t).1
  | .publishDrop request t => (b.publishDrop p request t).1
  | .privateMessage senderId packetId payload => b.handlePrivateMessage senderId packetId payload
  | .catalogEntry metadata t => b.acceptCatalogEntry p metadata t
  | .peerSeen peerId => { b with trust := b.trust.markSeen peerId }
  | .setTrust nodeId level => { b with trust := b.trust.set nodeId level }
  | .deliverySent packetId =>
    { b with externalDeliveryQueue := b.externalDeliveryQueue.remove packetId }

/-- The options of the constructor that this part of the node reads. -/
structure BoxOptions where
  maxTrustEntries : WithTop ℤ := (4096 : ℤ)
  minTrustForNodeAppend : TrustLevel := .verified
  minTrustForRelayCommand : TrustLevel := .admin
  maxPacketsPerWindow : ℤ := 200
  rateLimitWindowMs : ℤ := 1000
  maxContentStoreEntries : WithTop ℤ := (256 : ℤ)
  maxRemoteCatalogEntries : WithTop ℤ := (4096 : ℤ)
  maxDrops : WithTop ℤ := (1024 : ℤ)
  maxNodeAppends : WithTop ℤ := (256 : ℤ)
  externalDeliveryAllowlist : Option (OrderedMap String ExternalDeliveryDestination) := none
  maxExternalDeliveryPayloadBytes : ℕ := 1000000
  maxExternalDeliveryEntries : ℕ := 100
  maxExternalDeliveryBytes : ℕ := 50000000
  externalDeliveryTtlMs : ℤ := 24 * 60 * 60 * 1000

def maxTrackedPeers : WithTop ℤ := (4096 : ℤ)

def maxTrackedRelayCommandSenders : WithTop ℤ := (256 : ℤ)

def create (nodeId : String) (o : BoxOptions) : Box where
  nodeId := nodeId
  trust := ⟨.empty, o.maxTrustEntries⟩
  minTrustForNodeAppend := o.minTrustForNodeAppend
  minTrustForRelayCommand := o.minTrustForRelayCommand
  ingestRateLimiter := ⟨.empty maxTrackedPeers, o.maxPacketsPerWindow, o.rateLimitWindowMs⟩
  elevatedDropWindow := {}
  elevatedNodeAppendWindow := {}
  httpIngestedNodeAppendWindow := {}
  httpIngestedRelayCommandWindow := {}
  httpIngestedExternalDeliveryWindow := {}
  lastAcceptedRelayCommandAt := .empty maxTrackedRelayCommandSenders
  contentStore := .create o.maxContentStoreEntries
  remoteCatalog := ⟨.empty o.maxRemoteCatalogEntries⟩
  drops := ⟨.empty o.maxDrops⟩
  nodeAppends := ⟨.empty o.maxNodeAppends⟩
  externalDeliveryAllowlist := o.externalDeliveryAllowlist
  maxExternalDeliveryPayloadBytes := o.maxExternalDeliveryPayloadBytes
  externalDeliveryQueue :=
    { queued := .empty
      maxEntries := o.maxExternalDeliveryEntries
      maxTotalBytes := o.maxExternalDeliveryBytes
      ttlMs := o.externalDeliveryTtlMs
      totalBytes := 0 }
  rebootRequests := []
  publications := []

/-- A freshly constructed node and every event it can meet. -/
def system (p : Platform) : System Box BoxEvent where
  Init b := ∃ nodeId o, b = create nodeId o
  step b e := some (b.step p e)

end Box
end Arald
