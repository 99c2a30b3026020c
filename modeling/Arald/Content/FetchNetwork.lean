import Arald.Content.Effects

/-!
# A requester and its providers

One request for one content, and the nodes that hold the content. Messages
travel in one queue from the requester to each provider and in one queue back;
nothing is lost and no timer goes off. An event takes the oldest message of one
queue and lets its recipient handle it.

`requests` and `answers` log what the requester has sent to whom and what it has
handled from whom.
-/

namespace Arald

open Foundations

structure FetchNetwork where
  requester : ContentNode
  providers : OrderedMap String ContentNode
  toProvider : String → List ContentMessage
  toRequester : String → List ContentMessage
  requests : List (String × ContentMessage)
  answers : List (String × ContentMessage)

inductive FetchEvent where
  /-- The provider handles its oldest message. -/
  | provider (id : String) (now : ℤ)
  /-- The requester handles the oldest message from a provider. -/
  | requester (id : String) (now : ℤ)

def FetchEvent.now : FetchEvent → ℤ
  | .provider _ now => now
  | .requester _ now => now

/-- The messages for a node among what was sent, floods included. -/
def addressedTo (id : String) (outbox : List Outgoing) : List ContentMessage :=
  outbox.filterMap fun o =>
    if o.destination = none ∨ o.destination = some id then some o.message else none

namespace FetchNetwork

/-- Put what the requester sends into the queues. -/
def post (s : FetchNetwork) : FetchNetwork :=
  { s with
    requester := { s.requester with outbox := [] }
    toProvider := fun id =>
      if s.providers.has id then s.toProvider id ++ addressedTo id s.requester.outbox
      else s.toProvider id
    requests := s.requests ++ s.providers.keys.flatMap fun id =>
      (addressedTo id s.requester.outbox).map fun m => (id, m) }

/-- The requester has just been asked for the content. -/
def start (p : Platform) (n : ContentNode) (providers : OrderedMap String ContentNode)
    (contentId : String) (waiter : ℕ) (now : ℤ) : FetchNetwork :=
  post
    { requester := (n.getContent p contentId waiter now).1
      providers
      toProvider := fun _ => []
      toRequester := fun _ => []
      requests := []
      answers := [] }

def step (p : Platform) (s : FetchNetwork) : FetchEvent → Option FetchNetwork
  | .provider id now =>
    match s.providers.get? id, s.toProvider id with
    | some node, message :: rest =>
      let node := node.receive p s.requester.nodeId message now
      some { s with
        providers := s.providers.set id { node with outbox := [] }
        toProvider := Function.update s.toProvider id rest
        toRequester := Function.update s.toRequester id
          (s.toRequester id ++ addressedTo s.requester.nodeId node.outbox) }
    | _, _ => none
  | .requester id now =>
    match s.toRequester id with
    | message :: rest =>
      some (post { s with
        requester := s.requester.receive p id message now
        toRequester := Function.update s.toRequester id rest
        answers := s.answers ++ [(id, message)] })
    | [] => none

/-- Nothing is in flight. -/
def Quiescent (s : FetchNetwork) : Prop := ∀ id, s.toProvider id = [] ∧ s.toRequester id = []

/-- A request for a range with this index was sent. -/
def Requested (contentId : String) (requests : List (String × ContentMessage)) (i : ℤ) : Prop :=
  ∃ id first last, (id, .request contentId (some first) (some last)) ∈ requests ∧ first ≤ i ∧ i ≤ last

/-- A chunk with this index was handled. -/
def Answered (contentId : String) (answers : List (String × ContentMessage)) (i : ℤ) : Prop :=
  ∃ id total data, (id, .chunk contentId (some i) total data) ∈ answers

end FetchNetwork

/-- A node holds some bytes under an id, with metadata that verifies until it expires. -/
structure Holds (p : Platform) (contentId : String) (data : Buffer) (node : ContentNode)
    (metadata : ContentMetadata) : Prop where
  stored : node.contentStore.items.get? contentId = some ⟨metadata, data⟩
  named : metadata.contentId = contentId
  verified : ∀ now, metadata.expired now = false → ContentStore.verifies p metadata data now = true

namespace FetchNetwork

/-- The providers are named, have nothing to send yet and hold the content. -/
def HonestProviders (p : Platform) (contentId : String) (data : Buffer)
    (providers : OrderedMap String ContentNode) : Prop :=
  ∀ id node, providers.get? id = some node →
    id ≠ "" ∧ node.outbox = [] ∧ ∃ metadata, Holds p contentId data node metadata

/-- A requester with nothing of the content: not in the store, not in the
assembler, not asked for and not resolved before. -/
structure Unfetched (contentId : String) (n : ContentNode) (now : ℤ) : Prop where
  store : (n.contentStore.readLive contentId now).2 = none
  assembler : n.requesterAssembler.entries.get? contentId = none
  pending : n.pendingContentRequests.get? contentId = none
  resolutions : ∀ r ∈ n.resolutions, r.contentId ≠ contentId
  outbox : n.outbox = []

/-- Runs of one fetch of the content `data` under the id `contentId`, by a node
that reassembles contents of up to `maxChunks` chunks. -/
def system (p : Platform) (contentId : String) (data : Buffer) (maxChunks : WithTop ℤ) :
    System FetchNetwork FetchEvent where
  Init s := ∃ n providers waiter now, Unfetched contentId n now ∧
    n.requesterAssembler.maxChunksPerEntry = maxChunks ∧ HonestProviders p contentId data providers ∧
    s = start p n providers contentId waiter now
  step := step p

/-- The providers hold the content: it has not expired when the event happens. -/
def unexpired (contentId : String) (s : FetchNetwork) (e : FetchEvent) : Bool :=
  s.providers.values.all fun node =>
    (node.contentStore.items.get? contentId).all fun item => !item.metadata.expired e.now

/-! ### Where a provider is -/

/-- What one provider has got to do with the request. -/
inductive Phase where
  /-- The query is on its way. -/
  | asked
  /-- The reply is on its way. -/
  | replying (metadata : ContentMetadata)
  | idle
  /-- The request for a range is on its way. -/
  | requested (range : ChunkRange)
  /-- The chunks of a range from `next` on are on their way. -/
  | sending (metadata : ContentMetadata) (range : ChunkRange) (next : ℤ)

namespace Phase

variable (contentId : String) (chunks : List Buffer)

/-- The indices that a provider selects for a range. -/
def selected (range : ChunkRange) : ChunkRange :=
  ContentNode.clampRange chunks.length (some range.chunkStart) (some range.chunkEnd)

def toProvider : Phase → List ContentMessage
  | asked => [.query contentId]
  | requested range => [.request contentId (some range.chunkStart) (some range.chunkEnd)]
  | _ => []

def toRequester : Phase → List ContentMessage
  | replying metadata => [.found contentId (some metadata)]
  | sending metadata range next =>
    ContentNode.chunkMessages contentId chunks ⟨next, (selected chunks range).chunkEnd⟩ ++
      [.complete contentId (some metadata)]
  | _ => []

/-- The range that the requester has the provider fetch. -/
def fetch : Phase → Option ChunkRange
  | requested range => some range
  | sending _ range _ => some range
  | _ => none

/-- The metadata of a message on its way. -/
def metadata? : Phase → Option ContentMetadata
  | replying metadata => some metadata
  | sending metadata _ _ => some metadata
  | _ => none

/-- What is no longer on its way was received. -/
def Delivered (received : Finset ℤ) : Phase → Prop
  | sending _ range next =>
    (selected chunks range).chunkStart ≤ next ∧ next ≤ (selected chunks range).chunkEnd + 1 ∧
      ∀ i, (selected chunks range).chunkStart ≤ i → i < next → i ∈ received
  | _ => True

/-- With both queues empty a provider is idle. -/
theorem fetch_of_empty {phase : Phase} (hprovider : phase.toProvider contentId = [])
    (hrequester : phase.toRequester contentId chunks = []) : phase.fetch = none := by
  cases phase with
  | asked => rfl
  | replying metadata => rfl
  | idle => rfl
  | requested range => simp [toProvider] at hprovider
  | sending metadata range next => simp [toRequester] at hrequester

end Phase

/-! ### Chunk messages and clamped ranges -/

section
variable {contentId : String} {chunks : List Buffer} {range : ChunkRange} {i : ℤ}

theorem chunkMessages_cons {first last : ℤ} (h : first ≤ last) :
    ContentNode.chunkMessages contentId chunks ⟨first, last⟩ =
      .chunk contentId (some first) (some chunks.length) (chunks.getD first.toNat []) ::
        ContentNode.chunkMessages contentId chunks ⟨first + 1, last⟩ := by
  unfold ContentNode.chunkMessages
  dsimp only
  obtain ⟨k, hk⟩ : ∃ k : ℕ, (last + 1 - first).toNat = k + 1 := ⟨(last - first).toNat, by omega⟩
  have hk' : (last + 1 - (first + 1)).toNat = k := by omega
  rw [hk, hk', List.range_succ_eq_map, List.map_cons, List.map_map]
  congr 1
  · simp
  · apply List.map_congr_left
    intro j _
    simp only [Function.comp_apply, Nat.cast_succ]
    have hshift : first + ((j : ℤ) + 1) = first + 1 + j := by omega
    rw [hshift]

theorem chunkMessages_nil {first last : ℤ} (h : last < first) :
    ContentNode.chunkMessages contentId chunks ⟨first, last⟩ = [] := by
  unfold ContentNode.chunkMessages
  have hzero : (last + 1 - first).toNat = 0 := by omega
  simp [hzero]

/-- A valid range is cut off at the last index. -/
theorem selected_eq (hvalid : range.Valid) :
    Phase.selected chunks range =
      ⟨min range.chunkStart (chunks.length - 1), min range.chunkEnd (chunks.length - 1)⟩ := by
  obtain ⟨hlow, hhigh⟩ := hvalid
  have hcut : min range.chunkStart ((chunks.length : ℤ) - 1) ≤ range.chunkEnd := by omega
  simp only [Phase.selected, ContentNode.clampRange, if_pos hlow, if_pos hcut]

theorem selected_valid (hvalid : range.Valid) (hpos : 0 < chunks.length) :
    (Phase.selected chunks range).Valid ∧ (Phase.selected chunks range).chunkEnd < chunks.length := by
  rw [selected_eq hvalid]
  obtain ⟨hlow, hhigh⟩ := hvalid
  refine ⟨⟨?_, ?_⟩, ?_⟩
  · dsimp only
    omega
  · dsimp only
    omega
  · dsimp only
    omega

/-- An existing index of the range is among the selected ones. -/
theorem mem_selected (hvalid : range.Valid) (hi : i ∈ range) (hlt : i < chunks.length) :
    i ∈ Phase.selected chunks range := by
  rw [selected_eq hvalid]
  obtain ⟨hlow, hhigh⟩ := hi
  constructor
  · dsimp only
    omega
  · dsimp only
    omega

/-- A selected index lies in the range, unless the range starts beyond the content. -/
theorem mem_of_selected (hvalid : range.Valid) (hi : i ∈ Phase.selected chunks range) :
    i ∈ range ∨ (chunks.length : ℤ) ≤ range.chunkStart := by
  rw [selected_eq hvalid] at hi
  obtain ⟨hlow, hhigh⟩ := hi
  dsimp only at hlow hhigh
  by_cases hstart : (chunks.length : ℤ) ≤ range.chunkStart
  · exact .inr hstart
  · left
    constructor
    · omega
    · omega

end

end FetchNetwork
end Arald
