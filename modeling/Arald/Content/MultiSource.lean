import Arald.Content.Bookkeeping
import Arald.Content.FetchNetwork
import Arald.Content.Integrity
import Arald.Content.RangeCoverage

/-!
# A multi-source fetch completes

While the request is open, every provider is in one phase, the requester has
exactly the providers in a fetching phase as active fetches, and the assembler
holds exactly the received chunks. A completion that leaves nobody fetching
leaves no range unassigned, so by coverage every chunk is in: the request is
resolved then, and nothing is in flight for an open request that is idle.
-/

namespace Arald

open Foundations

namespace FetchNetwork

/-! ### The invariant of an open request -/

/-- The queues are what the phases say, and the phases are about honest providers. -/
structure Queues (p : Platform) (contentId : String) (data : Buffer) (s : FetchNetwork)
    (phase : String → Phase) : Prop where
  toProvider : ∀ id, s.toProvider id = (phase id).toProvider contentId
  toRequester : ∀ id, s.toRequester id = (phase id).toRequester contentId (chunksOf data)
  member : ∀ id, phase id ≠ .idle → s.providers.has id = true
  metadata : ∀ id m, (phase id).metadata? = some m →
    ∃ node, s.providers.get? id = some node ∧ Holds p contentId data node m
  requested : ∀ id range, (phase id).fetch = some range →
    range.Valid ∧ (id, .request contentId (some range.chunkStart) (some range.chunkEnd)) ∈ s.requests

/-- The assignment of ranges, seen against the phases. -/
structure Schedule (contentId : String) (data : Buffer) (s : FetchNetwork) (phase : String → Phase)
    (e : PendingContentEntry) : Prop where
  named : e.contentId = contentId
  wf : e.WellFormed
  fetch : ∀ id, e.activeFetches.get? id = (phase id).fetch
  waiting : ∀ id ∈ e.candidates, phase id = .idle ∧ s.providers.has id = true
  busy : e.sized = true → ∃ id range, e.activeFetches.get? id = some range
  coverage : e.sized = true → ∀ i : ℤ, 0 ≤ i → i < (chunksOf data).length → i ≤ e.rangeHighWaterMark →
    e.Covers i
  beyond : ∀ range, e.HasRange range → ((chunksOf data).length : ℤ) ≤ range.chunkStart →
    ∀ i : ℤ, 0 ≤ i → i < (chunksOf data).length → Requested contentId s.requests i

/-- The received chunks, seen against the assembler and the logs. -/
structure Chunks (contentId : String) (data : Buffer) (s : FetchNetwork) (phase : String → Phase)
    (e : PendingContentEntry) : Prop where
  total : ∀ total, e.totalChunks = some total → total = (chunksOf data).length
  unknown : e.totalChunks = none → s.requester.requesterAssembler.entries.get? contentId = none
  held : e.totalChunks ≠ none → ∃ held,
    s.requester.requesterAssembler.entries.get? contentId = some held ∧
      held.totalChunks = (chunksOf data).length ∧
      ∀ i : ℤ, held.chunks.get? i =
        if i ∈ e.receivedChunks then some ((chunksOf data).getD i.toNat []) else none
  delivered : ∀ id, (phase id).Delivered (chunksOf data) e.receivedChunks
  logged : ∀ i ∈ e.receivedChunks,
    Requested contentId s.requests i ∧ Answered contentId s.answers i

/-- The request is open. -/
structure Opened (p : Platform) (contentId : String) (data : Buffer) (s : FetchNetwork)
    (phase : String → Phase) (e : PendingContentEntry) : Prop where
  pending : s.requester.pendingContentRequests.get? contentId = some e
  outbox : s.requester.outbox = []
  quiet : e.outbox = []
  limit : (((chunksOf data).length : ℤ) : WithTop ℤ) ≤ s.requester.requesterAssembler.maxChunksPerEntry
  honest : HonestProviders p contentId data s.providers
  queues : Queues p contentId data s phase
  schedule : Schedule contentId data s phase e
  chunks : Chunks contentId data s phase e
  metadata : ∀ m, e.metadata = some m → (∃ id, (id, ContentMessage.found contentId (some m)) ∈ s.answers) ∧
    ∃ id node, s.providers.get? id = some node ∧ Holds p contentId data node m
  replied : (∃ id m, (id, ContentMessage.found contentId m) ∈ s.answers) → e.sized = true

/-- The request is resolved with the bytes that the providers hold, decoded as
the metadata of one of the replies says. -/
structure Resolved (p : Platform) (contentId : String) (data : Buffer) (s : FetchNetwork) : Prop where
  closed : s.requester.pendingContentRequests.get? contentId = none
  resolution : ∃ r ∈ s.requester.resolutions, r.contentId = contentId ∧ r.data = data ∧
    r.content = decodeStoredContent p r.metadata data ∧ r.content.isSome = true ∧
    ∃ id, (id, ContentMessage.found contentId (some r.metadata)) ∈ s.answers
  logged : ∀ i : ℤ, 0 ≤ i → i < (chunksOf data).length →
    Requested contentId s.requests i ∧ Answered contentId s.answers i

variable {p : Platform} {contentId : String} {data : Buffer} {s s' : FetchNetwork}
  {phase : String → Phase} {e : PendingContentEntry} {now : ℤ} {id : String}

/-! ### What a provider does -/

theorem readLive_of_holds {node : ContentNode} {metadata : ContentMetadata}
    (h : Holds p contentId data node metadata) (hlive : metadata.expired now = false) :
    node.contentStore.readLive contentId now = (node.contentStore, some ⟨metadata, data⟩) := by
  simp [ContentStore.readLive, h.stored, hlive]

theorem addressedTo_map (messages : List ContentMessage) :
    addressedTo id (messages.map fun m => ⟨some id, m⟩) = messages := by
  induction messages with
  | nil => rfl
  | cons m rest ih =>
    simp only [addressedTo, List.map_cons, List.filterMap_cons, or_true, if_true] at ih ⊢
    rw [ih]

/-- A provider replies to the query with its metadata. -/
theorem provider_replies {node : ContentNode} {metadata : ContentMetadata} (source : String)
    (h : Holds p contentId data node metadata) (hlive : metadata.expired now = false)
    (hquiet : node.outbox = []) :
    node.receive p source (.query contentId) now =
      { node with outbox := [⟨some source, .found contentId (some metadata)⟩] } := by
  simp [ContentNode.receive, ContentNode.handleContentQuery, readLive_of_holds h hlive, ContentNode.send, hquiet]

/-- A provider answers a request with the selected chunks and its completion. -/
theorem provider_serves {node : ContentNode} {metadata : ContentMetadata} (source : String)
    (range : ChunkRange) (h : Holds p contentId data node metadata) (hlive : metadata.expired now = false)
    (hquiet : node.outbox = []) :
    node.receive p source (.request contentId (some range.chunkStart) (some range.chunkEnd)) now =
      { node with
        outbox := ((Phase.sending metadata range (Phase.selected (chunksOf data) range).chunkStart).toRequester
          contentId (chunksOf data)).map fun m => ⟨some source, m⟩ } := by
  have hchunks : node.contentStore.chunksFor contentId now = chunksOf data := by
    simp [ContentStore.chunksFor, readLive_of_holds h hlive]
  simp only [ContentNode.receive, ContentNode.handleContentRequest, readLive_of_holds h hlive, hchunks, hquiet,
    List.nil_append]
  rfl

theorem unexpired_of_holds {e : FetchEvent} (hlive : unexpired contentId s e = true) {node : ContentNode}
    {metadata : ContentMetadata} (hnode : s.providers.get? id = some node)
    (h : Holds p contentId data node metadata) : metadata.expired e.now = false := by
  have hvalue : node ∈ s.providers.values := OrderedMap.mem_values.mpr ⟨id, OrderedMap.get?_eq_some.mp hnode⟩
  have hall := List.all_eq_true.mp hlive node hvalue
  simpa [h.stored] using hall

/-- Sending does not touch what a node holds. -/
theorem holds_flushed {node : ContentNode} {metadata : ContentMetadata}
    (h : Holds p contentId data node metadata) :
    Holds p contentId data { node with outbox := [] } metadata :=
  ⟨h.stored, h.named, h.verified⟩

/-- The provider's side of a step: one provider goes from one phase to the next. -/
theorem Opened.provider_moves (node : ContentNode) {metadata : ContentMetadata} (φ : Phase)
    {messages : List ContentMessage} (h : Opened p contentId data s phase e)
    (hnode : s.providers.get? id = some node) (hholds : Holds p contentId data node metadata)
    (hbusy : phase id ≠ .idle) (hfetch : φ.fetch = (phase id).fetch)
    (hprovider : φ.toProvider contentId = []) (hempty : (phase id).toRequester contentId (chunksOf data) = [])
    (hrequester : φ.toRequester contentId (chunksOf data) = messages)
    (hmetadata : φ.metadata? = some metadata) (hdelivered : φ.Delivered (chunksOf data) e.receivedChunks) :
    Opened p contentId data
      { s with
        providers := s.providers.set id { node with outbox := [] }
        toProvider := Function.update s.toProvider id []
        toRequester := Function.update s.toRequester id (s.toRequester id ++ messages) }
      (Function.update phase id φ) e := by
  have hkeys : (s.providers.set id { node with outbox := [] }).keys = s.providers.keys :=
    OrderedMap.keys_set_of_mem _ (OrderedMap.mem_keys_of_get? hnode)
  have hhas : ∀ other, (s.providers.set id { node with outbox := [] }).has other = s.providers.has other := by
    intro other
    rw [Bool.eq_iff_iff, OrderedMap.has_iff, OrderedMap.has_iff, hkeys]
  -- What a provider held before, the same provider holds after.
  have hkept : ∀ other node' m, s.providers.get? other = some node' → Holds p contentId data node' m →
      ∃ node', (s.providers.set id { node with outbox := [] }).get? other = some node' ∧
        Holds p contentId data node' m := by
    intro other node' m hother hm
    by_cases hid : other = id
    · subst hid
      obtain rfl := Option.some.inj (hnode.symm.trans hother)
      exact ⟨_, OrderedMap.get?_set_self _ _ _, holds_flushed hm⟩
    · exact ⟨node', (OrderedMap.get?_set_of_ne _ _ hid).trans hother, hm⟩
  have hphase : ∀ other, (Function.update phase id φ other).fetch = (phase other).fetch := by
    intro other
    by_cases hid : other = id
    · subst hid
      rw [Function.update_self, hfetch]
    · rw [Function.update_of_ne hid]
  refine
    { pending := h.pending
      outbox := h.outbox
      quiet := h.quiet
      limit := h.limit
      honest := ?_
      queues := ⟨?_, ?_, ?_, ?_, ?_⟩
      schedule :=
        { named := h.schedule.named
          wf := h.schedule.wf
          fetch := fun other => (h.schedule.fetch other).trans (hphase other).symm
          waiting := ?_
          busy := h.schedule.busy
          coverage := h.schedule.coverage
          beyond := h.schedule.beyond }
      chunks :=
        { total := h.chunks.total
          unknown := h.chunks.unknown
          held := h.chunks.held
          delivered := ?_
          logged := h.chunks.logged }
      metadata := ?_
      replied := h.replied }
  · intro other node' hother
    rw [OrderedMap.get?_set] at hother
    split at hother
    · next hid =>
      obtain rfl := Option.some.inj hother
      obtain ⟨hne, -⟩ := h.honest id node hnode
      exact ⟨hid ▸ hne, rfl, metadata, holds_flushed hholds⟩
    · exact h.honest other node' hother
  · intro other
    by_cases hid : other = id
    · subst hid
      simp [hprovider]
    · simp [Function.update_of_ne hid, h.queues.toProvider other]
  · intro other
    by_cases hid : other = id
    · subst hid
      simp [hrequester, h.queues.toRequester other, hempty]
    · simp [Function.update_of_ne hid, h.queues.toRequester other]
  · intro other hother
    rw [hhas]
    by_cases hid : other = id
    · exact hid ▸ h.queues.member id hbusy
    · rw [Function.update_of_ne hid] at hother
      exact h.queues.member other hother
  · intro other m hm
    by_cases hid : other = id
    · subst hid
      rw [Function.update_self, hmetadata] at hm
      obtain rfl := Option.some.inj hm
      exact hkept other node metadata hnode hholds
    · rw [Function.update_of_ne hid] at hm
      obtain ⟨node', hother, hnode'⟩ := h.queues.metadata other m hm
      exact hkept other node' m hother hnode'
  · intro other range hrange
    rw [hphase] at hrange
    exact h.queues.requested other range hrange
  · intro other hother
    obtain ⟨hidle, hmember⟩ := h.schedule.waiting other hother
    have hid : other ≠ id := by
      rintro rfl
      exact hbusy hidle
    rw [Function.update_of_ne hid, hhas]
    exact ⟨hidle, hmember⟩
  · intro other
    by_cases hid : other = id
    · subst hid
      rw [Function.update_self]
      exact hdelivered
    · rw [Function.update_of_ne hid]
      exact h.chunks.delivered other
  · intro m hm
    obtain ⟨hreplied, other, node', hother, hnode'⟩ := h.metadata m hm
    obtain ⟨node'', hget, hnode''⟩ := hkept other node' m hother hnode'
    exact ⟨hreplied, other, node'', hget, hnode''⟩

theorem Opened.provider_step (h : Opened p contentId data s phase e)
    (hlive : unexpired contentId s (.provider id now) = true)
    (hstep : step p s (.provider id now) = some s') : ∃ phase', Opened p contentId data s' phase' e := by
  simp only [step] at hstep
  split at hstep
  · next node message rest hnode hqueue =>
    obtain ⟨-, hquiet, metadata, hholds⟩ := h.honest id node hnode
    have hexpired : metadata.expired now = false := unexpired_of_holds hlive hnode hholds
    have hphase := h.queues.toProvider id
    rw [hqueue] at hphase
    cases hcase : phase id with
    | asked =>
      simp only [hcase, Phase.toProvider, List.cons.injEq] at hphase
      obtain ⟨rfl, rfl⟩ := hphase
      rw [provider_replies _ hholds hexpired hquiet] at hstep
      obtain rfl := Option.some.inj hstep
      refine ⟨_, h.provider_moves node (.replying metadata) hnode hholds ?_ ?_ rfl ?_ ?_ rfl trivial⟩
      · simp [hcase]
      · simp [hcase, Phase.fetch]
      · simp [hcase, Phase.toRequester]
      · simp [Phase.toRequester, addressedTo]
    | requested range =>
      simp only [hcase, Phase.toProvider, List.cons.injEq] at hphase
      obtain ⟨rfl, rfl⟩ := hphase
      rw [provider_serves _ range hholds hexpired hquiet] at hstep
      obtain rfl := Option.some.inj hstep
      obtain ⟨hvalid, -⟩ := h.queues.requested id range (by simp [hcase, Phase.fetch])
      obtain ⟨hselected, -⟩ := selected_valid hvalid (length_chunksOf_pos data)
      refine ⟨_, h.provider_moves node
        (.sending metadata range (Phase.selected (chunksOf data) range).chunkStart) hnode hholds ?_ ?_ rfl ?_ (addressedTo_map _).symm rfl ⟨le_rfl, ?_, ?_⟩⟩
      · simp [hcase]
      · simp [hcase, Phase.fetch]
      · simp [hcase, Phase.toRequester]
      · have hle := hselected.2
        omega
      · intro i hlow hhigh
        omega
    | replying m => simp [hcase, Phase.toProvider] at hphase
    | idle => simp [hcase, Phase.toProvider] at hphase
    | sending m range next => simp [hcase, Phase.toProvider] at hphase
  · simp at hstep

/-! ### What the requester sends -/

/-- The message of a range request. -/
def requestFor (contentId : String) (range : ChunkRange) : ContentMessage :=
  .request contentId (some range.chunkStart) (some range.chunkEnd)

theorem addressedTo_requests (contentId : String) (e : PendingContentEntry) :
    addressedTo id (e.outbox.map fun r => ⟨some r.1, requestFor contentId r.2⟩) =
      (e.requestedFrom id).map (requestFor contentId) := by
  unfold addressedTo PendingContentEntry.requestedFrom
  rw [List.filterMap_map, List.map_filterMap]
  apply List.filterMap_congr
  intro r _
  by_cases h : r.1 = id
  · simp [h]
  · simp [h]

/-- After the requester has handled a message of `id`, which is in the phase `φ`
then, the providers that get a range are those that were idle. -/
def Handed (s : FetchNetwork) (phase : String → Phase) (id : String) (φ : Phase)
    (e' : PendingContentEntry) (phase' : String → Phase) : Prop :=
  ∀ other,
    (phase' other = Function.update phase id φ other ∧ e'.requestedFrom other = []) ∨
      (Function.update phase id φ other = .idle ∧ s.providers.has other = true ∧
        ∃ range, range.Valid ∧ phase' other = .requested range ∧ e'.requestedFrom other = [range])

/-- The phase of the provider after its message was handled: the message is gone,
and nothing else has changed. -/
structure Handled (contentId : String) (chunks : List Buffer) (before after : Phase)
    (rest : List ContentMessage) : Prop where
  toProvider : after.toProvider contentId = before.toProvider contentId
  toRequester : after.toRequester contentId chunks = rest
  metadata : ∀ m, after.metadata? = some m → before.metadata? = some m
  fetch : ∀ range, after.fetch = some range → before.fetch = some range

/-- The state after the requester handled the oldest message of `id`. -/
def afterHandling (s : FetchNetwork) (id : String) (message : ContentMessage)
    (rest : List ContentMessage) (n' : ContentNode) : FetchNetwork :=
  post { s with
    requester := n'
    toRequester := Function.update s.toRequester id rest
    answers := s.answers ++ [(id, message)] }

theorem requests_mono {message : ContentMessage} {rest : List ContentMessage} {n' : ContentNode} :
    s.requests ⊆ (s.afterHandling id message rest n').requests :=
  List.subset_append_left _ _

theorem Opened.queues_after {message : ContentMessage} {rest : List ContentMessage} (n' : ContentNode)
    {e' : PendingContentEntry} (φ : Phase) {phase' : String → Phase}
    (h : Opened p contentId data s phase e) (hqueue : s.toRequester id = message :: rest)
    (hout : n'.outbox = e'.outbox.map fun r => ⟨some r.1, requestFor contentId r.2⟩)
    (hφ : Handled contentId (chunksOf data) (phase id) φ rest) (hhanded : Handed s phase id φ e' phase') :
    Queues p contentId data (s.afterHandling id message rest n') phase' := by
  have hsent : ∀ other, addressedTo other n'.outbox = (e'.requestedFrom other).map (requestFor contentId) := by
    intro other
    rw [hout]
    exact addressedTo_requests contentId e'
  have hbusy : phase id ≠ .idle := by
    intro hidle
    have hempty := h.queues.toRequester id
    rw [hidle, hqueue] at hempty
    simp [Phase.toRequester] at hempty
  have hprovider : ∀ other, (Function.update phase id φ other).toProvider contentId = s.toProvider other := by
    intro other
    rw [h.queues.toProvider other]
    by_cases hid : other = id
    · subst hid
      rw [Function.update_self, hφ.toProvider]
    · rw [Function.update_of_ne hid]
  have hrequester : ∀ other, (Function.update phase id φ other).toRequester contentId (chunksOf data) =
      Function.update s.toRequester id rest other := by
    intro other
    by_cases hid : other = id
    · subst hid
      rw [Function.update_self, Function.update_self, hφ.toRequester]
    · rw [Function.update_of_ne hid, Function.update_of_ne hid, h.queues.toRequester other]
  refine ⟨?_, ?_, ?_, ?_, ?_⟩
  · intro other
    simp only [afterHandling, post, hsent]
    rcases hhanded other with ⟨hphase, hnone⟩ | ⟨hidle, hmember, range, -, hphase, hone⟩
    · rw [hphase, hprovider, hnone, List.map_nil, List.append_nil, ite_self]
    · have hempty := hprovider other
      rw [hidle] at hempty
      rw [if_pos hmember, hphase, hone, ← hempty]
      rfl
  · intro other
    simp only [afterHandling, post]
    rw [← hrequester other]
    rcases hhanded other with ⟨hphase, -⟩ | ⟨hidle, -, range, -, hphase, -⟩
    · rw [hphase]
    · rw [hphase, hidle]
      rfl
  · intro other hother
    simp only [afterHandling, post]
    rcases hhanded other with ⟨hphase, -⟩ | ⟨-, hmember, -⟩
    · by_cases hid : other = id
      · exact hid ▸ h.queues.member id hbusy
      · rw [hphase, Function.update_of_ne hid] at hother
        exact h.queues.member other hother
    · exact hmember
  · intro other m hm
    rcases hhanded other with ⟨hphase, -⟩ | ⟨-, -, range, -, hphase, -⟩
    · rw [hphase] at hm
      by_cases hid : other = id
      · subst hid
        rw [Function.update_self] at hm
        exact h.queues.metadata other m (hφ.metadata m hm)
      · rw [Function.update_of_ne hid] at hm
        exact h.queues.metadata other m hm
    · simp [hphase, Phase.metadata?] at hm
  · intro other range hrange
    rcases hhanded other with ⟨hphase, -⟩ | ⟨-, hmember, range', hvalid, hphase, hone⟩
    · rw [hphase] at hrange
      have hbefore : (phase other).fetch = some range := by
        by_cases hid : other = id
        · subst hid
          rw [Function.update_self] at hrange
          exact hφ.fetch range hrange
        · rwa [Function.update_of_ne hid] at hrange
      obtain ⟨hvalid, hmem⟩ := h.queues.requested other range hbefore
      exact ⟨hvalid, requests_mono hmem⟩
    · rw [hphase] at hrange
      obtain rfl := Option.some.inj hrange
      refine ⟨hvalid, List.mem_append_right _ (List.mem_flatMap.mpr ⟨other, OrderedMap.has_iff.mp hmember, ?_⟩)⟩
      rw [hsent, hone]
      simp [requestFor]

/-- A round of assignments to idle providers, in terms of phases. -/
theorem exists_handed {e₀ e' : PendingContentEntry} {φ : Phase}
    (hfetch : ∀ other, e₀.activeFetches.get? other = (Function.update phase id φ other).fetch)
    (hquiet : e₀.outbox = []) (hdispatches : e₀.Dispatches e') (hranges : e'.RangesValid)
    (hidle : ∀ other, e₀.activeFetches.get? other = none → e'.activeFetches.has other = true →
      Function.update phase id φ other = .idle ∧ s.providers.has other = true) :
    ∃ phase', Handed s phase id φ e' phase' ∧
      ∀ other, e'.activeFetches.get? other = (phase' other).fetch := by
  have hnothing : ∀ other, e₀.requestedFrom other = [] := by
    intro other
    simp [PendingContentEntry.requestedFrom, hquiet]
  have hone : ∀ other, ∃ after : Phase, e'.activeFetches.get? other = after.fetch ∧
      ((after = Function.update phase id φ other ∧ e'.requestedFrom other = []) ∨
        (Function.update phase id φ other = .idle ∧ s.providers.has other = true ∧
          ∃ range, range.Valid ∧ after = .requested range ∧ e'.requestedFrom other = [range])) := by
    intro other
    rcases hdispatches other with ⟨hsame, hrequested⟩ | ⟨hnone, range, hget, hrequested⟩
    · exact ⟨_, hsame.trans (hfetch other), .inl ⟨rfl, hrequested.trans (hnothing other)⟩⟩
    · obtain ⟨hphase, hmember⟩ := hidle other hnone (by simp [OrderedMap.has, hget])
      refine ⟨.requested range, hget, .inr ⟨hphase, hmember, range, hranges.active other range hget, rfl, ?_⟩⟩
      rw [hrequested, hnothing, List.nil_append]
  choose phase' hphase' using hone
  exact ⟨phase', fun other => (hphase' other).2, fun other => (hphase' other).1⟩

/-- A provider that waits afterwards and was idle before is idle. -/
theorem idle_of_waiting {e' : PendingContentEntry} {φ : Phase} {phase' : String → Phase}
    (hhanded : Handed s phase id φ e' phase')
    (hfetch : ∀ other, e'.activeFetches.get? other = (phase' other).fetch)
    (hslots : e'.Slots e'.candidates) {other : String} (hmem : other ∈ e'.candidates)
    (hold : Function.update phase id φ other = .idle) : phase' other = .idle := by
  rcases hhanded other with ⟨hphase, -⟩ | ⟨-, -, range, -, hphase, -⟩
  · exact hphase.trans hold
  · have hidle := hslots.idle other hmem
    simp [OrderedMap.has, hfetch other, hphase, Phase.fetch] at hidle

/-- Handing out ranges does not change what is on its way. -/
theorem delivered_after {e' : PendingContentEntry} {φ : Phase} {phase' : String → Phase}
    {received : Finset ℤ} (hhanded : Handed s phase id φ e' phase')
    (hbefore : ∀ other, (Function.update phase id φ other).Delivered (chunksOf data) received)
    (other : String) : (phase' other).Delivered (chunksOf data) received := by
  rcases hhanded other with ⟨hphase, -⟩ | ⟨-, -, range, -, hphase, -⟩
  · exact hphase ▸ hbefore other
  · rw [hphase]
    trivial

/-! ### A reply arrives -/

section
open PendingContentEntry

/-- A reply gives a range to its sender, or to nobody. -/
theorem found_dispatches (metadata : ContentMetadata) (hunknown : e.knows id = false) :
    e.Dispatches (e.found id (some metadata)) ∧
      ∀ other, (e.found id (some metadata)).activeFetches.has other = true →
        e.activeFetches.has other = true ∨ other = id := by
  have hidle : e.activeFetches.has id = false := by
    simp only [knows, Bool.or_eq_false_iff] at hunknown
    exact hunknown.1
  have hhas : ∀ {e₁ : PendingContentEntry} {range other}, e₁.activeFetches = e.activeFetches →
      (e₁.requestRangeFromProvider id range).activeFetches.has other = true →
        e.activeFetches.has other = true ∨ other = id := by
    intro e₁ range other hsame hbusy
    rw [← hsame]
    have hkeys := OrderedMap.mem_keys_set.mp (OrderedMap.has_iff.mp hbusy)
    rcases hkeys with rfl | hmem
    · exact .inr rfl
    · exact .inl (OrderedMap.has_iff.mpr hmem)
  unfold found
  simp only [hunknown, Bool.false_eq_true, if_false]
  cases hsized : e.sized with
  | false =>
    simp only [Bool.not_false, if_true]
    unfold sizeTransfer
    dsimp only
    split
    · exact ⟨Dispatches.request e (fun _ => .inl ⟨rfl, rfl⟩) hidle, fun other => hhas rfl⟩
    · exact ⟨Dispatches.request e (fun _ => .inl ⟨rfl, rfl⟩) hidle, fun other => hhas rfl⟩
  | true =>
    simp only [Bool.not_true, Bool.false_eq_true, if_false]
    cases hnext : e.tryAssignUnassignedRange id with
    | some e₁ =>
      obtain ⟨-, range, rest, -, rfl⟩ := tryAssign_eq_some.mp hnext
      exact ⟨Dispatches.request (e := { e with unassignedRanges := rest }) e (fun _ => .inl ⟨rfl, rfl⟩) hidle,
        fun other => hhas rfl⟩
    | none =>
      dsimp only
      split
      · exact ⟨fun _ => .inl ⟨rfl, rfl⟩, fun other hbusy => .inl hbusy⟩
      · exact ⟨.refl e, fun other hbusy => .inl hbusy⟩

theorem found_sized (metadata : ContentMetadata) (hunknown : e.knows id = false) :
    (e.found id (some metadata)).sized = true := by
  unfold found
  simp only [hunknown, Bool.false_eq_true, if_false]
  cases hsized : e.sized with
  | false =>
    simp only [Bool.not_false, if_true]
    unfold sizeTransfer
    dsimp only
    split
    · rfl
    · rfl
  | true =>
    simp only [Bool.not_true, Bool.false_eq_true, if_false]
    cases hnext : e.tryAssignUnassignedRange id with
    | some e₁ => exact (tryAssignUnassignedRange_same hnext).sized.trans hsized
    | none =>
      dsimp only
      split
      · rfl
      · exact hsized

theorem found_contentId (metadata? : Option ContentMetadata) :
    (e.found id metadata?).contentId = e.contentId := by
  unfold found
  split
  · rfl
  · split
    · split
      · unfold sizeTransfer
        dsimp only
        split
        · rfl
        · rfl
      · rfl
    · split
      · next e₁ hnext => exact (tryAssignUnassignedRange_same hnext).contentId
      · split
        · rfl
        · rfl

theorem found_candidates (metadata : ContentMetadata) {other : String}
    (h : other ∈ (e.found id (some metadata)).candidates) : other ∈ e.candidates ∨ other = id := by
  unfold found at h
  split at h
  · exact .inl h
  · split at h
    · unfold sizeTransfer at h
      dsimp only at h
      split at h
      · exact .inl h
      · exact .inl h
    · split at h
      · next e₁ hnext =>
        obtain ⟨-, range, rest, -, rfl⟩ := tryAssign_eq_some.mp hnext
        exact .inl h
      · split at h
        · rcases List.mem_append.mp h with hmem | hmem
          · exact .inl hmem
          · exact .inr (List.mem_singleton.mp hmem)
        · exact .inl h

/-- After a reply there is a fetch: the one for it, or one from before. -/
theorem found_busy (metadata : ContentMetadata) (hunknown : e.knows id = false)
    (hbusy : e.sized = true → ∃ other range, e.activeFetches.get? other = some range) :
    ∃ other range, (e.found id (some metadata)).activeFetches.get? other = some range := by
  cases hsized : e.sized with
  | true =>
    obtain ⟨other, range, hget⟩ := hbusy hsized
    rcases (found_dispatches metadata hunknown).1 other with ⟨hsame, -⟩ | ⟨hnone, -⟩
    · exact ⟨other, range, hsame.trans hget⟩
    · simp [hget] at hnone
  | false =>
    unfold found
    simp only [hunknown, hsized, Bool.false_eq_true, if_false, Bool.not_false, if_true]
    unfold sizeTransfer
    dsimp only
    split
    · exact ⟨id, _, OrderedMap.get?_set_self _ _ _⟩
    · exact ⟨id, _, OrderedMap.get?_set_self _ _ _⟩

/-- The ranges after a reply are those from before, unless the reply sized the
transfer: then they begin at the first index, or right after the range that its
sender fetches from the first index on. -/
theorem found_ranges (metadata : ContentMetadata) (hwf : e.WellFormed) (hunknown : e.knows id = false)
    {range : ChunkRange} (h : (e.found id (some metadata)).HasRange range) :
    e.HasRange range ∨ range.chunkStart = 0 ∨
      (e.found id (some metadata)).activeFetches.get? id = some ⟨0, range.chunkStart - 1⟩ := by
  unfold found at h ⊢
  simp only [hunknown, Bool.false_eq_true, if_false] at h ⊢
  cases hsized : e.sized with
  | false =>
    simp only [hsized, Bool.not_false, if_true] at h ⊢
    obtain ⟨-, -, hempty, hunassigned⟩ := hwf.unsized hsized
    have hactive : ∀ {r₀ : ChunkRange} {other},
        (e.activeFetches.set id r₀).get? other = some range → range = r₀ := by
      intro r₀ other hget
      rw [OrderedMap.get?_set, hempty, OrderedMap.get?_empty] at hget
      split at hget
      · exact (Option.some.inj hget).symm
      · simp at hget
    unfold sizeTransfer at h ⊢
    dsimp only at h ⊢
    split at h
    · next hmany =>
      rw [if_pos hmany]
      rcases h with hmem | ⟨other, hget⟩
      · simp only [unassign, requestRangeFromProvider, hunassigned, List.nil_append, List.mem_singleton] at hmem
        subst hmem
        exact .inr (.inr (OrderedMap.get?_set_self _ _ _))
      · have hfront := hactive hget
        exact .inr (.inl (by rw [hfront]))
    · next hone =>
      rw [if_neg hone]
      rcases h with hmem | ⟨other, hget⟩
      · simp [requestRangeFromProvider, hunassigned] at hmem
      · have hfront := hactive hget
        exact .inr (.inl (by rw [hfront]))
  | true =>
    left
    simp only [hsized, Bool.not_true, Bool.false_eq_true, if_false] at h
    cases hnext : e.tryAssignUnassignedRange id with
    | some e₁ =>
      rw [hnext] at h
      obtain ⟨-, r, rest, hranges, rfl⟩ := tryAssign_eq_some.mp hnext
      exact hasRange_assign hranges h
    | none =>
      rw [hnext] at h
      dsimp only at h
      split at h
      · exact h
      · exact h

end

theorem flushed_wellFormed {e' : PendingContentEntry} (h : e'.WellFormed) : e'.flushed.WellFormed :=
  ContentNode.wellFormed_entryInvariant.flushed "" e' h

theorem requested_mono {message : ContentMessage} {rest : List ContentMessage} {n' : ContentNode} {i : ℤ}
    (h : Requested contentId s.requests i) :
    Requested contentId (s.afterHandling id message rest n').requests i := by
  obtain ⟨other, first, last, hmem, hi⟩ := h
  exact ⟨other, first, last, requests_mono hmem, hi⟩

theorem answered_mono {message : ContentMessage} {rest : List ContentMessage} {n' : ContentNode} {i : ℤ}
    (h : Answered contentId s.answers i) :
    Answered contentId (s.afterHandling id message rest n').answers i := by
  obtain ⟨other, total, bytes, hmem⟩ := h
  exact ⟨other, total, bytes, List.mem_append_left _ hmem⟩

theorem replied_mono {message : ContentMessage} {rest : List ContentMessage} {n' : ContentNode}
    {m : ContentMetadata} (h : ∃ other, (other, ContentMessage.found contentId (some m)) ∈ s.answers) :
    ∃ other, (other, ContentMessage.found contentId (some m)) ∈
      (s.afterHandling id message rest n').answers := by
  obtain ⟨other, hmem⟩ := h
  exact ⟨other, List.mem_append_left _ hmem⟩

/-- A provider that replies is not known yet. -/
theorem Opened.unknown_of_replying {metadata : ContentMetadata} (h : Opened p contentId data s phase e)
    (hphase : phase id = .replying metadata) : e.knows id = false := by
  rw [PendingContentEntry.knows, Bool.or_eq_false_iff]
  constructor
  · simp [OrderedMap.has, h.schedule.fetch id, hphase, Phase.fetch]
  · apply eq_false_of_ne_true
    intro hmem
    have hidle := (h.schedule.waiting id (by simpa using hmem)).1
    simp [hphase] at hidle

theorem Opened.found_step {metadata : ContentMetadata} {rest : List ContentMessage}
    (h : Opened p contentId data s phase e) (hphase : phase id = .replying metadata)
    (hqueue : s.toRequester id = .found contentId (some metadata) :: rest) :
    ∃ phase' e', Opened p contentId data
      (s.afterHandling id (.found contentId (some metadata)) rest
        (s.requester.receive p id (.found contentId (some metadata)) now)) phase' e' := by
  have hunknown := h.unknown_of_replying hphase
  have hrest : rest = [] := by
    have hqueue' := h.queues.toRequester id
    rw [hphase, hqueue] at hqueue'
    simpa [Phase.toRequester] using hqueue'
  have hwf : (e.found id (some metadata)).WellFormed := h.schedule.wf.found
  have hmember : s.providers.has id = true := h.queues.member id (by simp [hphase])
  obtain ⟨hdispatches, hbusy⟩ := found_dispatches metadata hunknown
  have hfetch : ∀ other, e.activeFetches.get? other = (Function.update phase id .idle other).fetch := by
    intro other
    by_cases hid : other = id
    · subst hid
      rw [Function.update_self, h.schedule.fetch other, hphase]
      rfl
    · rw [Function.update_of_ne hid, h.schedule.fetch other]
  obtain ⟨phase', hhanded, hfetch'⟩ := exists_handed (s := s) hfetch h.quiet hdispatches hwf.ranges (by
    intro other hnone hactive
    rcases hbusy other hactive with hbefore | rfl
    · simp [OrderedMap.has, hnone] at hbefore
    · exact ⟨Function.update_self .., hmember⟩)
  obtain ⟨htotal, hreceived⟩ := PendingContentEntry.found_received e id (some metadata)
  have hnode : s.requester.receive p id (.found contentId (some metadata)) now =
      s.requester.update contentId (e.found id (some metadata)) := by
    simp [ContentNode.receive, ContentNode.handleContentFound, h.pending]
  have hname : (e.found id (some metadata)).contentId = contentId := by
    rw [found_contentId]
    exact h.schedule.named
  have hqueues := h.queues_after (s.requester.update contentId (e.found id (some metadata))) .idle hqueue (by
      simp only [ContentNode.update, h.outbox, List.nil_append, hname]
      rfl) ⟨by simp [hphase, Phase.toProvider], hrest.symm, by simp [Phase.metadata?], by simp [Phase.fetch]⟩ hhanded
  refine ⟨phase', (e.found id (some metadata)).flushed, ?_⟩
  rw [hnode]
  refine
    { pending := OrderedMap.get?_set_self _ _ _
      outbox := rfl
      quiet := rfl
      limit := h.limit
      honest := h.honest
      queues := hqueues
      schedule :=
        { named := hname
          wf := flushed_wellFormed hwf
          fetch := hfetch'
          waiting := ?_
          busy := fun _ => found_busy metadata hunknown h.schedule.busy
          coverage := ?_
          beyond := ?_ }
      chunks :=
        { total := fun total hknown => h.chunks.total total (htotal ▸ hknown)
          unknown := fun hnone => h.chunks.unknown (htotal ▸ hnone)
          held := ?_
          delivered := ?_
          logged := ?_ }
      metadata := ?_
      replied := fun _ => found_sized metadata hunknown }
  · intro other hmem
    have hold : Function.update phase id .idle other = .idle ∧ s.providers.has other = true := by
      by_cases hid : other = id
      · subst hid
        exact ⟨Function.update_self .., hmember⟩
      · rw [Function.update_of_ne hid]
        rcases found_candidates metadata hmem with hbefore | rfl
        · exact h.schedule.waiting other hbefore
        · exact absurd rfl hid
    exact ⟨idle_of_waiting hhanded hfetch' hwf.slots hmem hold.1, hold.2⟩
  · intro hsized i hlow hlt hmark
    exact PendingContentEntry.covers_found (fun hs h0 hi => h.schedule.coverage hs i h0 hlt hi) hsized hlow hmark
  · intro range hrange hstart i hlow hlt
    rcases found_ranges metadata h.schedule.wf hunknown hrange with hbefore | hzero | hfront
    · exact requested_mono (h.schedule.beyond range hbefore hstart i hlow hlt)
    · omega
    · -- The front half reaches up to the range, so it asks for the whole content.
      have hphase' : (phase' id).fetch = some ⟨0, range.chunkStart - 1⟩ := (hfetch' id).symm.trans hfront
      obtain ⟨-, hlogged⟩ := hqueues.requested id _ hphase'
      exact ⟨id, 0, range.chunkStart - 1, hlogged, hlow, by omega⟩
  · intro hknown
    have hknown' : e.totalChunks ≠ none := htotal ▸ hknown
    obtain ⟨held, hget, hsize, hchunks⟩ := h.chunks.held hknown'
    refine ⟨held, hget, hsize, ?_⟩
    intro i
    exact (hchunks i).trans (by simp [PendingContentEntry.flushed, hreceived])
  · have hbefore : ∀ other, (Function.update phase id Phase.idle other).Delivered (chunksOf data)
        (e.found id (some metadata)).receivedChunks := by
      intro other
      by_cases hid : other = id
      · subst hid
        rw [Function.update_self]
        trivial
      · rw [Function.update_of_ne hid, hreceived]
        exact h.chunks.delivered other
    exact delivered_after hhanded hbefore
  · intro i hi
    have hi' : i ∈ e.receivedChunks := hreceived ▸ hi
    obtain ⟨hrequested, hanswered⟩ := h.chunks.logged i hi'
    exact ⟨requested_mono hrequested, answered_mono hanswered⟩
  · intro m hm
    rcases PendingContentEntry.found_metadata e id (some metadata) with hsame | ⟨-, -, own, hown, hadopted⟩
    · obtain ⟨hreplied, hprovider⟩ := h.metadata m (hsame ▸ hm)
      exact ⟨replied_mono hreplied, hprovider⟩
    · obtain rfl := Option.some.inj hown
      obtain rfl := Option.some.inj (hadopted.symm.trans hm)
      obtain ⟨node, hget, hholds⟩ := h.queues.metadata id metadata (by simp [hphase, Phase.metadata?])
      exact ⟨⟨id, List.mem_append_right _ List.mem_cons_self⟩, id, node, hget, hholds⟩

/-! ### A chunk arrives -/

section
open PendingContentEntry
variable {chunkIndex totalChunks : ℤ}

/-- Recording a chunk leaves the assignment of the providers alone. -/
theorem recordChunk_assignment (e : PendingContentEntry) (chunkIndex totalChunks : ℤ) :
    (e.recordChunk chunkIndex totalChunks).contentId = e.contentId ∧
      (e.recordChunk chunkIndex totalChunks).activeFetches = e.activeFetches ∧
      (e.recordChunk chunkIndex totalChunks).candidates = e.candidates ∧
      (e.recordChunk chunkIndex totalChunks).outbox = e.outbox := by
  unfold recordChunk
  dsimp only
  split
  · exact ⟨rfl, rfl, rfl, rfl⟩
  · exact ⟨rfl, rfl, rfl, rfl⟩

/-- The range that a chunk reveals starts within the content. -/
theorem recordChunk_ranges {range : ChunkRange}
    (h : (e.recordChunk chunkIndex totalChunks).HasRange range) :
    e.HasRange range ∨ range.chunkStart < e.totalChunks.getD totalChunks := by
  unfold recordChunk at h
  dsimp only at h
  split at h
  · next hgap =>
    rcases h with hmem | hactive
    · rcases List.mem_append.mp hmem with hmem | hmem
      · exact .inl (.inl hmem)
      · rw [List.mem_singleton] at hmem
        right
        simp only [Bool.and_eq_true, decide_eq_true_eq] at hgap
        rw [hmem]
        dsimp only
        omega
    · exact .inl (.inr hactive)
  · exact .inl h

theorem delivered_mono {φ : Phase} {received received' : Finset ℤ} (hsub : received ⊆ received')
    (h : φ.Delivered (chunksOf data) received) : φ.Delivered (chunksOf data) received' := by
  cases φ with
  | sending m range next => exact ⟨h.1, h.2.1, fun i hlow hlt => hsub (h.2.2 i hlow hlt)⟩
  | asked => trivial
  | replying m => trivial
  | idle => trivial
  | requested range => trivial

/-- While chunks are on their way, the next one is at the head of the queue. -/
theorem toRequester_sending {metadata : ContentMetadata} {range : ChunkRange} {next : ℤ}
    (hnext : next ≤ (Phase.selected (chunksOf data) range).chunkEnd) :
    (Phase.sending metadata range next).toRequester contentId (chunksOf data) =
      .chunk contentId (some next) (some (chunksOf data).length) ((chunksOf data).getD next.toNat []) ::
        (Phase.sending metadata range (next + 1)).toRequester contentId (chunksOf data) := by
  simp only [Phase.toRequester]
  rw [chunkMessages_cons hnext, List.cons_append]

theorem toRequester_sent {metadata : ContentMetadata} {range : ChunkRange} {next : ℤ}
    (hnext : (Phase.selected (chunksOf data) range).chunkEnd < next) :
    (Phase.sending metadata range next).toRequester contentId (chunksOf data) =
      [.complete contentId (some metadata)] := by
  simp only [Phase.toRequester]
  rw [chunkMessages_nil hnext, List.nil_append]

end

/-- The assembler takes the chunk, and holds what is received then. -/
theorem Opened.held_after {chunkIndex : ℤ} (h : Opened p contentId data s phase e) (bytes : Buffer)
    (hbytes : bytes = (chunksOf data).getD chunkIndex.toNat [])
    (hlt : chunkIndex < (chunksOf data).length) :
    ∃ held, (s.requester.requesterAssembler.place contentId chunkIndex (chunksOf data).length
        bytes).entries.get? contentId = some held ∧
      held.totalChunks = (chunksOf data).length ∧
      ∀ i, held.chunks.get? i = if i ∈ (e.recordChunk chunkIndex (chunksOf data).length).receivedChunks then
        some ((chunksOf data).getD i.toNat []) else none := by
  obtain ⟨-, hreceived⟩ := PendingContentEntry.recordChunk_received (e := e) chunkIndex (chunksOf data).length
  cases htotal : e.totalChunks with
  | none =>
    have hnothing : e.receivedChunks = ∅ := by
      rw [Finset.eq_empty_iff_forall_notMem]
      intro i hi
      obtain ⟨total, hsome, -⟩ := h.schedule.wf.received i hi
      simp [htotal] at hsome
    have hget := ChunkAssembler.get?_place_self_of_none chunkIndex (chunksOf data).length bytes
      (h.chunks.unknown htotal)
    refine ⟨_, hget, rfl, ?_⟩
    intro i
    rw [hreceived, htotal, Option.getD_none, if_pos hlt, hnothing, OrderedMap.get?_set]
    by_cases hi : i = chunkIndex
    · simp [hi, hbytes]
    · simp [hi]
  | some total =>
    obtain ⟨held, hheld, hsize, hchunks⟩ := h.chunks.held (by simp [htotal])
    have hget := ChunkAssembler.get?_place_self_of_some chunkIndex (chunksOf data).length bytes hheld
    refine ⟨_, hget, hsize, ?_⟩
    intro i
    have hknown := h.chunks.total total htotal
    rw [hreceived, htotal, Option.getD_some, hknown, if_pos hlt, OrderedMap.get?_set]
    by_cases hi : i = chunkIndex
    · simp [hi, hbytes]
    · simp [hi, hchunks i]

theorem Opened.chunk_step {metadata : ContentMetadata} {range : ChunkRange} {next : ℤ}
    {message : ContentMessage} {rest : List ContentMessage} (h : Opened p contentId data s phase e)
    (hphase : phase id = .sending metadata range next)
    (hnext : next ≤ (Phase.selected (chunksOf data) range).chunkEnd)
    (hqueue : s.toRequester id = message :: rest) :
    ∃ phase' e', Opened p contentId data
      (s.afterHandling id message rest (s.requester.receive p id message now)) phase' e' := by
  have hfetching : e.activeFetches.get? id = some range := by
    rw [h.schedule.fetch id, hphase]
    rfl
  have hactive : e.activeFetches.has id = true := by simp [OrderedMap.has, hfetching]
  have hsized := h.schedule.wf.sized_of_active hactive
  obtain ⟨hvalid, hlogged⟩ := h.queues.requested id range (by rw [hphase]; rfl)
  obtain ⟨hselected, hlast⟩ := selected_valid hvalid (length_chunksOf_pos data)
  have hdelivered := h.chunks.delivered id
  rw [hphase] at hdelivered
  obtain ⟨hfrom, -, hbefore⟩ := hdelivered
  have hlow : 0 ≤ next := hselected.1.trans hfrom
  have hlt : next < (chunksOf data).length := hnext.trans_lt hlast
  have hhead := h.queues.toRequester id
  rw [hphase, hqueue, toRequester_sending hnext, List.cons.injEq] at hhead
  obtain ⟨rfl, hrest⟩ := hhead
  have hadmits : s.requester.requesterAssembler.admits next (chunksOf data).length = true := by
    rw [ChunkAssembler.admits_iff]
    exact ⟨by omega, h.limit, hlow, hlt⟩
  set bytes := (chunksOf data).getD next.toNat [] with hbytes
  set recorded := e.recordChunk next (chunksOf data).length with hrecorded
  obtain ⟨hname, hfetches, hcandidates, houtbox⟩ := recordChunk_assignment e next (chunksOf data).length
  rw [← hrecorded] at hname hfetches hcandidates houtbox
  obtain ⟨htotal, hreceived⟩ := PendingContentEntry.recordChunk_received (e := e) next (chunksOf data).length
  have htotal' : e.totalChunks.getD ((chunksOf data).length : ℤ) = (chunksOf data).length := by
    cases hknown : e.totalChunks with
    | none => rfl
    | some total => exact h.chunks.total total hknown
  rw [← hrecorded, htotal'] at htotal
  rw [← hrecorded, htotal', if_pos hlt] at hreceived
  have hsub : e.receivedChunks ⊆ recorded.receivedChunks := hreceived ▸ Finset.subset_insert _ _
  set n' : ContentNode := { s.requester with
    requesterAssembler := s.requester.requesterAssembler.place contentId next (chunksOf data).length bytes }
    with hn'
  have hnode : s.requester.receive p id (.chunk contentId (some next) (some (chunksOf data).length) bytes) now =
      n'.update contentId recorded := by
    simp [ContentNode.receive, ContentNode.handleContentChunk, h.pending, hactive,
      ChunkAssembler.addChunk_of_admits hadmits, ContentNode.recordChunk, hn', hrecorded]
  have hnone : ∀ other, recorded.requestedFrom other = [] := by
    intro other
    simp [PendingContentEntry.requestedFrom, houtbox, h.quiet]
  set phase' := Function.update phase id (.sending metadata range (next + 1)) with hphase'
  have hhanded : Handed s phase id (.sending metadata range (next + 1)) recorded phase' :=
    fun other => .inl ⟨rfl, hnone other⟩
  have hsame : ∀ other, (phase' other).fetch = (phase other).fetch := by
    intro other
    by_cases hid : other = id
    · subst hid
      rw [hphase', Function.update_self, hphase]
      rfl
    · rw [hphase', Function.update_of_ne hid]
  have hwf : recorded.WellFormed := h.schedule.wf.recordChunk hsized hlow
  refine ⟨phase', recorded.flushed, ?_⟩
  rw [hnode]
  refine
    { pending := OrderedMap.get?_set_self _ _ _
      outbox := rfl
      quiet := rfl
      limit := by
        simp only [afterHandling, post, ContentNode.update, hn', ChunkAssembler.maxChunksPerEntry_place]
        exact h.limit
      honest := h.honest
      queues := h.queues_after _ _ hqueue (by
        simp only [ContentNode.update, hn', h.outbox, List.nil_append, hname, h.schedule.named]
        rfl) ⟨by rw [hphase]; rfl, hrest.symm, fun m hm => by rw [hphase]; exact hm,
          fun r hr => by rw [hphase]; exact hr⟩ hhanded
      schedule :=
        { named := hname.trans h.schedule.named
          wf := flushed_wellFormed hwf
          fetch := fun other => by
            rw [hsame, ← h.schedule.fetch other]
            exact congrArg (fun m => OrderedMap.get? m other) hfetches
          waiting := ?_
          busy := fun _ => ⟨id, range, by
            exact (congrArg (fun m => OrderedMap.get? m id) hfetches).trans hfetching⟩
          coverage := ?_
          beyond := ?_ }
      chunks :=
        { total := fun total hknown => Option.some.inj (hknown.symm.trans htotal)
          unknown := fun hunknown => absurd (hunknown.symm.trans htotal) (by simp)
          held := fun _ => h.held_after bytes hbytes hlt
          delivered := ?_
          logged := ?_ }
      metadata := ?_
      replied := fun _ => (PendingContentEntry.recordChunk_sized next (chunksOf data).length).trans hsized }
  · intro other hmem
    obtain ⟨hidle, hmember⟩ := h.schedule.waiting other (hcandidates ▸ hmem)
    have hid : other ≠ id := by
      rintro rfl
      simp [hphase] at hidle
    exact ⟨by rw [hphase', Function.update_of_ne hid]; exact hidle, hmember⟩
  · intro _ i hlow' hlt' hmark
    rcases le_or_gt i e.rangeHighWaterMark with hold | hnew
    · exact (h.schedule.coverage hsized i hlow' hlt' hold).recordChunk
    · exact PendingContentEntry.covers_recordChunk_beyond hnew hmark
  · intro r hr hstart i hlow' hlt'
    rcases recordChunk_ranges hr with hold | hwithin
    · exact requested_mono (h.schedule.beyond r hold hstart i hlow' hlt')
    · rw [htotal'] at hwithin
      omega
  · intro other
    by_cases hid : other = id
    · subst hid
      rw [hphase', Function.update_self]
      refine ⟨by omega, by omega, ?_⟩
      intro i hlow' hlt'
      simp only [PendingContentEntry.flushed, hreceived, Finset.mem_insert]
      rcases lt_or_eq_of_le (Int.lt_add_one_iff.mp hlt') with hearlier | rfl
      · exact .inr (hbefore i hlow' hearlier)
      · exact .inl rfl
    · rw [hphase', Function.update_of_ne hid]
      exact delivered_mono hsub (h.chunks.delivered other)
  · intro i hi
    simp only [PendingContentEntry.flushed, hreceived, Finset.mem_insert] at hi
    rcases hi with rfl | hi
    · constructor
      · rcases mem_of_selected hvalid ⟨hfrom, hnext⟩ with hin | hout
        · exact requested_mono ⟨id, range.chunkStart, range.chunkEnd, hlogged, hin.1, hin.2⟩
        · exact requested_mono (h.schedule.beyond range (.inr ⟨id, hfetching⟩) hout i hlow hlt)
      · exact ⟨id, _, _, List.mem_append_right _ List.mem_cons_self⟩
    · obtain ⟨hrequested, hanswered⟩ := h.chunks.logged i hi
      exact ⟨requested_mono hrequested, answered_mono hanswered⟩
  · intro m hm
    have hsame : recorded.metadata = e.metadata :=
      PendingContentEntry.recordChunk_metadata next (chunksOf data).length
    obtain ⟨hreplied, hprovider⟩ := h.metadata m (hsame ▸ hm)
    exact ⟨replied_mono hreplied, hprovider⟩

/-! ### A completion arrives -/

/-- Without all chunks the assembler cannot complete. -/
theorem Opened.incomplete (h : Opened p contentId data s phase e) {i : ℤ} (hlow : 0 ≤ i)
    (hlt : i < (chunksOf data).length) (hmissing : i ∉ e.receivedChunks) (metadata : ContentMetadata) :
    s.requester.requesterAssembler.tryComplete p contentId metadata =
      (s.requester.requesterAssembler, none) := by
  cases htotal : e.totalChunks with
  | none => simp [ChunkAssembler.tryComplete, h.chunks.unknown htotal]
  | some total =>
    obtain ⟨held, hget, hsize, hchunks⟩ := h.chunks.held (by simp [htotal])
    apply ChunkAssembler.tryComplete_keeps hget
    apply eq_false_of_ne_true
    intro hcomplete
    have hhas := AssemblyEntry.has_of_isComplete hcomplete hlow (hsize ▸ hlt)
    simp [OrderedMap.has, hchunks i, hmissing] at hhas

/-- With all chunks the assembler gives the content. -/
theorem Opened.completes (h : Opened p contentId data s phase e)
    (htotal : e.totalChunks ≠ none)
    (hall : ∀ i : ℤ, 0 ≤ i → i < (chunksOf data).length → i ∈ e.receivedChunks)
    {metadata : ContentMetadata} (hid : p.sha256 data = metadata.contentId) :
    (s.requester.requesterAssembler.tryComplete p contentId metadata).2 = some data := by
  obtain ⟨held, hget, hsize, hchunks⟩ := h.chunks.held htotal
  have hcomplete : held.isComplete = true := by
    apply AssemblyEntry.isComplete_of_forall
    intro i hlow hlt
    simp [OrderedMap.has, hchunks i, hall i hlow (hsize ▸ hlt)]
  have hbytes : held.bytes = data := by
    rw [AssemblyEntry.bytes_eq_flatten hsize, flatten_chunksOf]
    intro i hi
    rw [hchunks, if_pos (hall i (by omega) (by omega)), Int.toNat_natCast, List.getD_eq_getElem _ _ hi]
  rw [ChunkAssembler.tryComplete_of_complete hget hcomplete, hbytes, computeContentId, if_pos hid]

/-- The metadata of an open request that is sized verifies. -/
theorem Opened.verifies (h : Opened p contentId data s phase e) (hsized : e.sized = true)
    {event : FetchEvent} (hlive : unexpired contentId s event = true) :
    ∃ m, e.metadata = some m ∧ (∃ id, (id, ContentMessage.found contentId (some m)) ∈ s.answers) ∧
      ContentStore.verifies p m data event.now = true := by
  obtain ⟨m, hm⟩ := Option.isSome_iff_exists.mp (h.schedule.wf.sized hsized)
  obtain ⟨hreplied, id, node, hnode, hholds⟩ := h.metadata m hm
  exact ⟨m, hm, hreplied, hholds.verified _ (unexpired_of_holds hlive hnode hholds)⟩

theorem exists_of_size_ne_zero {m : OrderedMap String ChunkRange} (h : m.size ≠ 0) :
    ∃ id range, m.get? id = some range := by
  cases hentries : m.entries with
  | nil => simp [OrderedMap.size, hentries] at h
  | cons entry rest =>
    exact ⟨entry.1, entry.2, OrderedMap.get?_eq_some.mpr (by simp [hentries])⟩

/-- A provider has sent its range, and chunks are still missing: ranges are
handed out again. -/
theorem Opened.retire_step {metadata : ContentMetadata} {range : ChunkRange} {next i : ℤ}
    (h : Opened p contentId data s phase e) (hphase : phase id = .sending metadata range next)
    (hnext : (Phase.selected (chunksOf data) range).chunkEnd < next)
    (hqueue : s.toRequester id = [.complete contentId (some metadata)])
    (htotal : e.totalChunks ≠ none) (hlow : 0 ≤ i) (hlt : i < (chunksOf data).length)
    (hmissing : i ∉ e.receivedChunks) :
    ∃ phase' e', Opened p contentId data
      (s.afterHandling id (.complete contentId (some metadata)) []
        (s.requester.update contentId (e.retire id))) phase' e' := by
  have hfetching : e.activeFetches.get? id = some range := by
    rw [h.schedule.fetch id, hphase]
    rfl
  have hactive : e.activeFetches.has id = true := by simp [OrderedMap.has, hfetching]
  have hwf := h.schedule.wf
  have hsized := hwf.sized_of_active hactive
  have hwf' : (e.retire id).WellFormed := hwf.retire hactive
  have hmember : s.providers.has id = true := h.queues.member id (by simp [hphase])
  obtain ⟨node, hnode⟩ : ∃ node, s.providers.get? id = some node := by
    simpa [OrderedMap.has, Option.isSome_iff_exists] using hmember
  obtain ⟨hname, -⟩ := h.honest id node hnode
  have hsame : e.SameTransfer (e.retire id) := PendingContentEntry.retire_same e id
  have hreleased : (e.release id).Slots (e.release id).candidates := hwf.slots.release
  have hidle := PendingContentEntry.fallbackIdle_release hwf.slots hactive
  have hdispatches : (e.release id).Dispatches (e.retire id) :=
    PendingContentEntry.tryKeepFetchesGoing_dispatches hreleased hidle
  have hfetch : ∀ other, (e.release id).activeFetches.get? other =
      (Function.update phase id .idle other).fetch := by
    intro other
    simp only [PendingContentEntry.release, OrderedMap.get?_delete]
    by_cases hid : other = id
    · subst hid
      rw [if_pos rfl, Function.update_self]
      rfl
    · rw [if_neg hid, Function.update_of_ne hid, h.schedule.fetch other]
  have hwaiting : ∀ other, other ∈ e.candidates ∨ other = id →
      Function.update phase id .idle other = .idle ∧ s.providers.has other = true := by
    intro other hother
    by_cases hid : other = id
    · subst hid
      exact ⟨Function.update_self .., hmember⟩
    · rw [Function.update_of_ne hid]
      rcases hother with hmem | rfl
      · exact h.schedule.waiting other hmem
      · exact absurd rfl hid
  obtain ⟨phase', hhanded, hfetch'⟩ := exists_handed (s := s) hfetch h.quiet hdispatches hwf'.ranges (by
    intro other hnone hbusy
    apply hwaiting
    rcases PendingContentEntry.tryKeepFetchesGoing_busy hreleased hbusy with hbefore | hmem | hfallback
    · simp [OrderedMap.has, hnone] at hbefore
    · exact .inl hmem
    · exact .inr (Option.some.inj hfallback).symm)
  have hcovers : ∀ k : ℤ, 0 ≤ k → k < (chunksOf data).length → k ≤ e.rangeHighWaterMark →
      (e.retire id).Covers k := by
    intro k hklow hklt hkmark
    apply (h.schedule.coverage hsized k hklow hklt hkmark).retire hwf.slots hactive
    intro r hr hk
    obtain rfl := Option.some.inj (hfetching.symm.trans hr)
    have hdelivered := h.chunks.delivered id
    rw [hphase] at hdelivered
    obtain ⟨hvalid, -⟩ := h.queues.requested id range (by rw [hphase]; rfl)
    obtain ⟨hfirst, hlast⟩ := mem_selected hvalid hk hklt
    exact hdelivered.2.2 k hfirst (hlast.trans_lt hnext)
  refine ⟨phase', (e.retire id).flushed, ?_⟩
  refine
    { pending := OrderedMap.get?_set_self _ _ _
      outbox := rfl
      quiet := rfl
      limit := h.limit
      honest := h.honest
      queues := h.queues_after _ .idle hqueue (by
        simp only [ContentNode.update, h.outbox, List.nil_append, hsame.contentId, h.schedule.named]
        rfl) ⟨by rw [hphase]; rfl, rfl, fun m hm => by simp [Phase.metadata?] at hm,
          fun r hr => by simp [Phase.fetch] at hr⟩ hhanded
      schedule :=
        { named := hsame.contentId.trans h.schedule.named
          wf := flushed_wellFormed hwf'
          fetch := hfetch'
          waiting := ?_
          busy := ?_
          coverage := fun _ k hklow hklt hkmark =>
            hcovers k hklow hklt (by
              rw [← hsame.rangeHighWaterMark]
              exact hkmark)
          beyond := ?_ }
      chunks :=
        { total := fun total hknown => h.chunks.total total (hsame.totalChunks ▸ hknown)
          unknown := fun hnone => absurd (hsame.totalChunks ▸ hnone) htotal
          held := ?_
          delivered := ?_
          logged := ?_ }
      metadata := ?_
      replied := fun _ => hsame.sized.trans hsized }
  · intro other hmem
    have hround : other ∈ ((e.release id).tryKeepFetchesGoing (some id)).candidates := hmem
    have hbefore : other ∈ (e.release id).candidates :=
      PendingContentEntry.tryKeepFetchesGoing_candidates hreleased hround
    obtain ⟨hold, hthere⟩ := hwaiting other (.inl hbefore)
    exact ⟨idle_of_waiting hhanded hfetch' hwf'.slots hmem hold, hthere⟩
  · intro _
    apply exists_of_size_ne_zero
    intro hnobody
    -- Nobody fetches and nothing is unassigned: the missing chunk would not be covered.
    have hnothing : (e.retire id).unassignedRanges = [] :=
      PendingContentEntry.unassigned_of_no_fetch hname hnobody
    obtain ⟨total, htotal'⟩ := Option.ne_none_iff_exists'.mp htotal
    have hmark : i ≤ e.rangeHighWaterMark := by
      have hbound := hwf.known total htotal'
      have hlength := h.chunks.total total htotal'
      omega
    rcases hcovers i hlow hlt hmark with hreceived | ⟨other, r, hget, -⟩ | ⟨r, hmem, -⟩
    · exact hmissing (hsame.receivedChunks ▸ hreceived)
    · have hmem := OrderedMap.mem_keys_of_get? hget
      have hlen : (e.retire id).activeFetches.keys.length = 0 := (OrderedMap.length_keys _).trans hnobody
      rw [List.length_eq_zero_iff.mp hlen] at hmem
      simp at hmem
    · simp [hnothing] at hmem
  · intro r hr hstart k hklow hklt
    have hreleased' : (e.release id).HasRange r :=
      PendingContentEntry.hasRange_keepGoing hreleased hidle hr
    apply requested_mono
    apply h.schedule.beyond r ?_ hstart k hklow hklt
    rcases hreleased' with hmem | ⟨other, hget⟩
    · exact .inl hmem
    · right
      simp only [PendingContentEntry.release, OrderedMap.get?_delete] at hget
      split at hget
      · simp at hget
      · exact ⟨other, hget⟩
  · intro _
    obtain ⟨held, hget, hsize, hchunks⟩ := h.chunks.held htotal
    refine ⟨held, hget, hsize, ?_⟩
    intro k
    exact (hchunks k).trans (by simp [PendingContentEntry.flushed, hsame.receivedChunks])
  · apply delivered_after hhanded
    intro other
    by_cases hid : other = id
    · subst hid
      rw [Function.update_self]
      trivial
    · rw [Function.update_of_ne hid]
      simp only [PendingContentEntry.flushed, hsame.receivedChunks]
      exact h.chunks.delivered other
  · intro k hk
    obtain ⟨hrequested, hanswered⟩ := h.chunks.logged k (hsame.receivedChunks ▸ hk)
    exact ⟨requested_mono hrequested, answered_mono hanswered⟩
  · intro m hm
    obtain ⟨hreplied, hprovider⟩ := h.metadata m (hsame.metadata ▸ hm)
    exact ⟨replied_mono hreplied, hprovider⟩

/-- The last message of a range: the request is resolved, or goes on. -/
theorem Opened.complete_step {metadata : ContentMetadata} {range : ChunkRange} {next : ℤ}
    {message : ContentMessage} {rest : List ContentMessage} (h : Opened p contentId data s phase e)
    (hlive : unexpired contentId s (.requester id now) = true)
    (hphase : phase id = .sending metadata range next)
    (hnext : (Phase.selected (chunksOf data) range).chunkEnd < next)
    (hqueue : s.toRequester id = message :: rest) :
    (∃ phase' e', Opened p contentId data
      (s.afterHandling id message rest (s.requester.receive p id message now)) phase' e') ∨
    Resolved p contentId data
      (s.afterHandling id message rest (s.requester.receive p id message now)) := by
  have hfetching : e.activeFetches.get? id = some range := by
    rw [h.schedule.fetch id, hphase]
    rfl
  have hactive : e.activeFetches.has id = true := by simp [OrderedMap.has, hfetching]
  have hwf := h.schedule.wf
  have hsized := hwf.sized_of_active hactive
  obtain ⟨hvalid, -⟩ := h.queues.requested id range (by rw [hphase]; rfl)
  obtain ⟨hselected, hlast⟩ := selected_valid hvalid (length_chunksOf_pos data)
  have hdelivered := h.chunks.delivered id
  rw [hphase] at hdelivered
  obtain ⟨-, -, hbefore⟩ := hdelivered
  -- The range is not empty, so a chunk of it has told the total.
  obtain ⟨total, htotal, -⟩ := hwf.received _ (hbefore _ le_rfl (hselected.2.trans_lt hnext))
  have hlength := h.chunks.total total htotal
  have hhead := h.queues.toRequester id
  rw [hphase, hqueue, toRequester_sent hnext, List.cons.injEq] at hhead
  obtain ⟨rfl, rfl⟩ := hhead
  obtain ⟨own, hown, hreplied, hverifies⟩ := h.verifies hsized hlive
  have hsame : e.SameTransfer (e.retire id).flushed :=
    (PendingContentEntry.retire_same e id).trans PendingContentEntry.flushed_same
  have hget : (s.requester.update contentId (e.retire id)).pendingContentRequests.get? contentId =
      some (e.retire id).flushed := OrderedMap.get?_set_self _ _ _
  have hnode : s.requester.receive p id (.complete contentId (some metadata)) now =
      (s.requester.update contentId (e.retire id)).tryAssembleAndResolve p contentId metadata now := by
    simp [ContentNode.receive, ContentNode.handleContentComplete, h.pending, hactive]
  rw [hnode]
  unfold ContentNode.tryAssembleAndResolve
  rw [hget]
  dsimp only
  rw [hsame.totalChunks, hsame.metadata, htotal, hown]
  simp only [Option.isNone_some, Bool.false_eq_true, if_false, Option.getD_some]
  have hassembler : (s.requester.update contentId (e.retire id)).requesterAssembler =
      s.requester.requesterAssembler := rfl
  rw [hassembler]
  by_cases hall : ∀ i : ℤ, 0 ≤ i → i < (chunksOf data).length → i ∈ e.receivedChunks
  · right
    have hdata := h.completes (by simp [htotal]) hall (ContentStore.sha256_of_verifies hverifies)
    rw [hdata]
    dsimp only
    have hverifies' : ContentStore.verifies p own data now = true := hverifies
    rw [ContentStore.putVerified_of_verifies hverifies']
    obtain ⟨content, hcontent⟩ := ContentStore.decodes_of_verifies hverifies
    refine ⟨OrderedMap.get?_delete_self _ _, ⟨_, List.mem_append_right _ List.mem_cons_self, rfl, rfl, rfl, ?_,
      replied_mono hreplied⟩, ?_⟩
    · simp [hcontent]
    · intro i hlow hlt
      obtain ⟨hrequested, hanswered⟩ := h.chunks.logged i (hall i hlow hlt)
      exact ⟨requested_mono hrequested, answered_mono hanswered⟩
  · left
    push Not at hall
    obtain ⟨i, hlow, hlt, hmissing⟩ := hall
    rw [h.incomplete hlow hlt hmissing]
    dsimp only
    have hnotAll : (e.retire id).flushed.haveAll = false := by
      apply eq_false_of_ne_true
      intro hhave
      simp only [PendingContentEntry.haveAll, hsame.totalChunks, hsame.receivedChunks, htotal, Option.any_some,
        decide_eq_true_eq] at hhave
      exact hmissing (hwf.mem_of_all htotal hhave i hlow (hlength ▸ hlt))
    have hrejected : ∀ n : ContentNode, ∀ error,
        n.rejectIfAll contentId (e.retire id).flushed error = n := by
      intro n error
      simp [ContentNode.rejectIfAll, hnotAll]
    rw [hrejected]
    exact h.retire_step hphase hnext hqueue (by simp [htotal]) hlow hlt hmissing

/-! ### Runs -/

/-- The oldest message is the one that the provider's phase says. -/
theorem Opened.requester_step (h : Opened p contentId data s phase e)
    (hlive : unexpired contentId s (.requester id now) = true)
    (hstep : step p s (.requester id now) = some s') :
    (∃ phase' e', Opened p contentId data s' phase' e') ∨ Resolved p contentId data s' := by
  simp only [step] at hstep
  split at hstep
  · next message rest hqueue =>
    obtain rfl := Option.some.inj hstep
    have hhead := h.queues.toRequester id
    rw [hqueue] at hhead
    cases hphase : phase id with
    | replying metadata =>
      rw [hphase] at hhead
      simp only [Phase.toRequester, List.cons.injEq] at hhead
      obtain ⟨rfl, rfl⟩ := hhead
      exact .inl (h.found_step hphase hqueue)
    | sending metadata range next =>
      by_cases hnext : next ≤ (Phase.selected (chunksOf data) range).chunkEnd
      · exact .inl (h.chunk_step hphase hnext hqueue)
      · exact h.complete_step hlive hphase (not_le.mp hnext) hqueue
    | asked => simp [hphase, Phase.toRequester] at hhead
    | idle => simp [hphase, Phase.toRequester] at hhead
    | requested range => simp [hphase, Phase.toRequester] at hhead
  · simp at hstep

/-- Whatever the requester still gets, a closed request stays closed. -/
theorem receive_closed (p : Platform) {n : ContentNode} (now : ℤ) (message : ContentMessage) (source : String)
    (h : n.pendingContentRequests.get? contentId = none) :
    (n.receive p source message now).pendingContentRequests.get? contentId = none ∧
      n.resolutions ⊆ (n.receive p source message now).resolutions := by
  have heffect := ContentNode.effect_of_step p n (.receive source message now)
  have hne : ∀ {key entry}, n.pendingContentRequests.get? key = some entry → contentId ≠ key := by
    rintro key entry hget rfl
    simp [h] at hget
  have hset : ∀ {key entry entry' assembler} {n' : ContentNode},
      n.pendingContentRequests.get? key = some entry →
      n'.HasCore (n.pendingContentRequests.set key entry') assembler n.resolutions →
      n'.pendingContentRequests.get? contentId = none ∧ n.resolutions ⊆ n'.resolutions := by
    intro key entry entry' assembler n' hget hcore
    rw [hcore.pending, hcore.resolutions, OrderedMap.get?_set_of_ne _ _ (hne hget)]
    exact ⟨h, List.Subset.refl _⟩
  have hdelete : ∀ {key assembler resolutions} {n' : ContentNode}, n.resolutions ⊆ resolutions →
      n'.HasCore (n.pendingContentRequests.delete key) assembler resolutions →
      n'.pendingContentRequests.get? contentId = none ∧ n.resolutions ⊆ n'.resolutions := by
    intro key assembler resolutions n' hsub hcore
    rw [hcore.pending, hcore.resolutions, OrderedMap.get?_delete, h, ite_self]
    exact ⟨rfl, hsub⟩
  have hsame : ∀ {assembler} {n' : ContentNode},
      n'.HasCore n.pendingContentRequests assembler n.resolutions →
      n'.pendingContentRequests.get? contentId = none ∧ n.resolutions ⊆ n'.resolutions := by
    intro assembler n' hcore
    rw [hcore.pending, hcore.resolutions]
    exact ⟨h, List.Subset.refl _⟩
  revert heffect
  generalize hn' : n.receive p source message now = n'
  have hstep : n.step p (.receive source message now) = n' := hn'
  rw [hstep]
  intro heffect
  cases heffect with
  | none e hcore => exact hsame hcore
  | found source key metadata now entry hget hcore => exact hset hget hcore
  | abandoned e key providerId entry hget hcore => exact hset hget hcore
  | strayChunk source key chunkIndex totalChunks bytes now hget hadmits hcore => exact hsame hcore
  | chunk source key chunkIndex totalChunks bytes now entry hget hactive hadmits hcore =>
    exact hset hget hcore
  | retired source key metadata now entry assembler hget hactive _ hcore => exact hset hget hcore
  | rejected source key metadata now entry hget hactive hcore =>
    exact hdelete (List.Subset.refl _) hcore
  | resolved source key metadata now entry bytes hget hactive _ _ _ hcore =>
    exact hdelete (List.subset_append_left _ _) hcore

/-- A resolved request stays resolved. -/
theorem Resolved.step {event : FetchEvent} (h : Resolved p contentId data s)
    (hstep : FetchNetwork.step p s event = some s') : Resolved p contentId data s' := by
  cases event with
  | provider id now =>
    simp only [FetchNetwork.step] at hstep
    split at hstep
    · obtain rfl := Option.some.inj hstep
      exact ⟨h.closed, h.resolution, h.logged⟩
    · simp at hstep
  | requester id now =>
    simp only [FetchNetwork.step] at hstep
    split at hstep
    · next message rest hqueue =>
      obtain rfl := Option.some.inj hstep
      obtain ⟨hclosed, hsub⟩ := receive_closed p now message id h.closed
      obtain ⟨r, hr, hid, hdata, hcontent, hsome, hreplied⟩ := h.resolution
      refine ⟨hclosed, ⟨r, hsub hr, hid, hdata, hcontent, hsome, replied_mono hreplied⟩, ?_⟩
      intro i hlow hlt
      obtain ⟨hrequested, hanswered⟩ := h.logged i hlow hlt
      exact ⟨requested_mono hrequested, answered_mono hanswered⟩
    · simp at hstep

/-- Asking for the content opens the request and sends the query to every provider. -/
theorem opened_start {n : ContentNode} {providers : OrderedMap String ContentNode} {waiter : ℕ}
    (hnew : Unfetched contentId n now) (hhonest : HonestProviders p contentId data providers)
    (hlimit : (((chunksOf data).length : ℤ) : WithTop ℤ) ≤ n.requesterAssembler.maxChunksPerEntry) :
    ∃ phase e, Opened p contentId data (start p n providers contentId waiter now) phase e := by
  let entry : PendingContentEntry := { contentId, waiters := [waiter], queried := true }
  have hnode : (n.getContent p contentId waiter now).1 =
      { n with
        contentStore := (n.contentStore.readLive contentId now).1
        pendingContentRequests := n.pendingContentRequests.set contentId entry
        outbox := [⟨none, .query contentId⟩] } := by
    simp [ContentNode.getContent, hnew.store, hnew.pending, hnew.outbox, PendingContentEntry.join,
      ContentNode.update, ContentNode.send, PendingContentEntry.flushed, entry]
  have hwf : entry.WellFormed :=
    ContentNode.wellFormed_entryInvariant.join contentId _ waiter (PendingContentEntry.wellFormed_fresh contentId)
  refine ⟨fun id => if providers.has id then .asked else .idle, entry, ?_⟩
  unfold start
  rw [hnode]
  refine
    { pending := OrderedMap.get?_set_self _ _ _
      outbox := rfl
      quiet := rfl
      limit := hlimit
      honest := hhonest
      queues := ⟨?_, ?_, ?_, ?_, ?_⟩
      schedule :=
        { named := rfl
          wf := hwf
          fetch := ?_
          waiting := fun id hmem => by simp [entry] at hmem
          busy := fun hsized => by simp [entry] at hsized
          coverage := fun hsized => by simp [entry] at hsized
          beyond := fun range hrange => by simp [entry, PendingContentEntry.HasRange] at hrange }
      chunks :=
        { total := fun total htotal => by simp [entry] at htotal
          unknown := fun _ => hnew.assembler
          held := fun hknown => absurd rfl hknown
          delivered := ?_
          logged := fun i hi => by simp [entry] at hi }
      metadata := fun m hm => by simp [entry] at hm
      replied := fun hreplied => by simp [post] at hreplied }
  · intro id
    simp only [post]
    split
    · simp [addressedTo, Phase.toProvider]
    · rfl
  · intro id
    simp only [post]
    split
    · rfl
    · rfl
  · intro id hbusy
    by_contra hnot
    simp only [post] at hnot
    simp [hnot] at hbusy
  · intro id m hm
    split at hm
    · simp [Phase.metadata?] at hm
    · simp [Phase.metadata?] at hm
  · intro id range hrange
    split at hrange
    · simp [Phase.fetch] at hrange
    · simp [Phase.fetch] at hrange
  · intro id
    split
    · rfl
    · rfl
  · intro id
    split
    · trivial
    · trivial

/-- What the run of a fetch keeps. -/
theorem opened_or_resolved {maxChunks : WithTop ℤ}
    (hsize : (((chunksOf data).length : ℤ) : WithTop ℤ) ≤ maxChunks)
    (h : (system p contentId data maxChunks).ReachableUnder
      (fun s event => unexpired contentId s event = true) s) :
    (∃ phase e, Opened p contentId data s phase e) ∨ Resolved p contentId data s := by
  apply h.invariant
  · rintro s ⟨n, providers, waiter, now, hnew, hmax, hhonest, rfl⟩
    exact .inl (opened_start hnew hhonest (hmax ▸ hsize))
  · rintro s event s' (⟨phase, e, hopen⟩ | hresolved) hlive hstep
    · cases event with
      | provider id now =>
        obtain ⟨phase', hopen'⟩ := hopen.provider_step hlive hstep
        exact .inl ⟨phase', e, hopen'⟩
      | requester id now => exact hopen.requester_step hlive hstep
    · exact .inr (hresolved.step hstep)

/-- At most two fetches are active at any time, and when nothing is in flight
after a reply was handled, the request is resolved with the providers' bytes,
every chunk of which was requested and answered. -/
theorem multi_source_fetch_completes {maxChunks : WithTop ℤ}
    (hsize : (((chunksOf data).length : ℤ) : WithTop ℤ) ≤ maxChunks)
    (h : (system p contentId data maxChunks).ReachableUnder
      (fun s event => unexpired contentId s event = true) s) :
    (∀ e, s.requester.pendingContentRequests.get? contentId = some e → e.activeFetches.size ≤ 2) ∧
      (s.Quiescent → (∃ id m, (id, ContentMessage.found contentId m) ∈ s.answers) →
        Resolved p contentId data s) := by
  rcases opened_or_resolved hsize h with ⟨phase, e, hopen⟩ | hresolved
  · constructor
    · intro e' he'
      obtain rfl := Option.some.inj (hopen.pending.symm.trans he')
      exact hopen.schedule.wf.slots.limit
    · intro hquiet hreplied
      obtain ⟨id, range, hget⟩ := hopen.schedule.busy (hopen.replied hreplied)
      obtain ⟨hprovider, hrequester⟩ := hquiet id
      rw [hopen.queues.toProvider id] at hprovider
      rw [hopen.queues.toRequester id] at hrequester
      have hnone := Phase.fetch_of_empty contentId (chunksOf data) hprovider hrequester
      rw [← hopen.schedule.fetch id, hget] at hnone
      simp at hnone
  · constructor
    · intro e he
      simp [hresolved.closed] at he
    · exact fun _ _ => hresolved

/-! ### Concrete runs -/

/-- The providers stay the same nodes by name, and only they have queues. -/
theorem queues_of_members {maxChunks : WithTop ℤ}
    (h : (system p contentId data maxChunks).Reachable s) (id : String) (hid : s.providers.has id = false) :
    s.toProvider id = [] ∧ s.toRequester id = [] := by
  revert hid
  apply h.invariant (I := fun s => s.providers.has id = false → s.toProvider id = [] ∧ s.toRequester id = [])
  · rintro s ⟨n, providers, waiter, now, -, -, -, rfl⟩ hid
    have hid' : providers.has id = false := hid
    simp [start, post, hid']
  · rintro s event s' hqueues - hstep hid
    have hne : ∀ {other : String}, s.providers.has other = true → s.providers.has id = false → id ≠ other := by
      rintro other htrue hfalse rfl
      simp [htrue] at hfalse
    cases event with
    | provider other now =>
      simp only [system, step] at hstep
      split at hstep
      · next node message rest hnode hqueue =>
        obtain rfl := Option.some.inj hstep
        have hother : s.providers.has other = true := by simp [OrderedMap.has, hnode]
        have hid' : s.providers.has id = false := by
          apply eq_false_of_ne_true
          intro htrue
          simp [OrderedMap.has_set_of_has htrue] at hid
        obtain ⟨hprovider, hrequester⟩ := hqueues hid'
        have hne' := hne hother hid'
        simp [Function.update_of_ne hne', hprovider, hrequester]
      · simp at hstep
    | requester other now =>
      simp only [system, step] at hstep
      split at hstep
      · next message rest hqueue =>
        obtain rfl := Option.some.inj hstep
        have hid' : s.providers.has id = false := hid
        obtain ⟨hprovider, hrequester⟩ := hqueues hid'
        have hne' : id ≠ other := by
          rintro rfl
          simp [hrequester] at hqueue
        simp [post, hid', Function.update_of_ne hne', hprovider, hrequester]
      · simp at hstep

def isFound (contentId : String) : ContentMessage → Bool
  | .found key _ => key = contentId
  | _ => false

/-- The queues of the providers are empty, and a reply for the content was handled. -/
def settled (contentId : String) (s : FetchNetwork) : Bool :=
  (s.providers.keys.all fun id => (s.toProvider id).isEmpty && (s.toRequester id).isEmpty) &&
    s.answers.any fun a => isFound contentId a.2

theorem quiescent_of_settled {maxChunks : WithTop ℤ}
    (h : (system p contentId data maxChunks).Reachable s) (hsettled : s.settled contentId = true) :
    s.Quiescent ∧ ∃ id m, (id, ContentMessage.found contentId m) ∈ s.answers := by
  rw [settled, Bool.and_eq_true, List.all_eq_true, List.any_eq_true] at hsettled
  obtain ⟨hempty, ⟨id, message⟩, hmem, hfound⟩ := hsettled
  constructor
  · intro other
    cases hother : s.providers.has other with
    | false => exact queues_of_members h other hother
    | true =>
      have hboth := hempty other (OrderedMap.has_iff.mp hother)
      simpa [List.isEmpty_iff] using hboth
  · cases message with
    | found key m =>
      obtain rfl : key = contentId := of_decide_eq_true hfound
      exact ⟨id, m, hmem⟩
    | query key => simp [isFound] at hfound
    | notFound key => simp [isFound] at hfound
    | request key first last => simp [isFound] at hfound
    | chunk key index total bytes => simp [isFound] at hfound
    | complete key m => simp [isFound] at hfound

def mapRuntime : Platform := samplePlatform []

/-- Two chunks. -/
def mapBytes : Buffer := List.replicate (chunkSize + 1) 65

def mapMetadata : ContentMetadata := publishedMetadata mapRuntime "author" mapBytes

/-- A node that holds the two chunks. -/
def mapProvider (id : String) : ContentNode :=
  let n := ContentNode.create id {}
  { n with contentStore := n.contentStore.insert n.publisherTrust mapMetadata mapBytes }

def mapProviders : OrderedMap String ContentNode :=
  (OrderedMap.empty.set "p" (mapProvider "p")).set "q" (mapProvider "q")

theorem mapProviders_honest : HonestProviders mapRuntime mapMetadata.contentId mapBytes mapProviders := by
  have hholds : ∀ id, Holds mapRuntime mapMetadata.contentId mapBytes (mapProvider id) mapMetadata := by
    intro id
    have hroom : (0 : WithTop ℤ) < (256 : ℤ) := by decide
    refine ⟨BoundedFifoMap.get?_set_self _ _ _ hroom, rfl, ?_⟩
    intro now hlive
    have hsigned : verifyContentSignature mapRuntime mapMetadata = true := by decide +kernel
    have hid : computeContentId mapRuntime mapBytes = mapMetadata.contentId := rfl
    have hplain : mapMetadata.encoding = none := rfl
    simp [ContentStore.verifies, hsigned, hlive, hid, hplain]
  unfold HonestProviders
  apply OrderedMap.forall_get?_set
  · apply OrderedMap.forall_get?_set
    · intro id node hnode
      simp at hnode
    · exact ⟨by decide, rfl, mapMetadata, hholds "p"⟩
  · exact ⟨by decide, rfl, mapMetadata, hholds "q"⟩

/-- The start of a fetch by a node that reassembles up to `maxChunks` chunks. -/
def mapStart (maxChunks : WithTop ℤ) : FetchNetwork :=
  start mapRuntime (ContentNode.create "me" { maxChunksPerContent := maxChunks }) mapProviders
    mapMetadata.contentId 0 1

theorem mapStart_init (maxChunks : WithTop ℤ) :
    (system mapRuntime mapMetadata.contentId mapBytes maxChunks).Init (mapStart maxChunks) :=
  ⟨_, mapProviders, 0, 1, ⟨rfl, rfl, rfl, by simp [ContentNode.create], rfl⟩, rfl, mapProviders_honest, rfl⟩

/-- Both providers reply before either is asked for a range; they share the content. -/
theorem multi_source_fetch_completes_shared :
    ∃ s, (system mapRuntime mapMetadata.contentId mapBytes ChunkAssembler.defaultMaxChunksPerEntry).ReachableUnder
        (fun s event => unexpired mapMetadata.contentId s event = true) s ∧
      s.Quiescent ∧ Resolved mapRuntime mapMetadata.contentId mapBytes s := by
  have hrun : (((system mapRuntime mapMetadata.contentId mapBytes
      ChunkAssembler.defaultMaxChunksPerEntry).runUnder
      (fun s event => unexpired mapMetadata.contentId s event) (mapStart ChunkAssembler.defaultMaxChunksPerEntry)
      [.provider "p" 2, .provider "q" 2, .requester "p" 3, .requester "q" 3, .provider "p" 4,
        .provider "q" 4, .requester "q" 5, .requester "p" 5, .requester "q" 6, .requester "p" 6]).map
      (settled mapMetadata.contentId)) = some true := by
    decide +kernel
  obtain ⟨s, hs, hsettled⟩ := Option.map_eq_some_iff.mp hrun
  have hreach := System.reachableUnder_of_runUnder (mapStart_init _) hs
  obtain ⟨hquiet, hreplied⟩ := quiescent_of_settled hreach.reachable hsettled
  have hsize : (((chunksOf mapBytes).length : ℤ) : WithTop ℤ) ≤ ChunkAssembler.defaultMaxChunksPerEntry := by
    decide +kernel
  exact ⟨s, hreach, hquiet, (multi_source_fetch_completes hsize hreach).2 hquiet hreplied⟩

/-- A node that reassembles one chunk only refuses every chunk of the content:
nothing is in flight any more, and the request is still open. -/
theorem fetch_beyond_limit_stalls :
    ¬∀ (p : Platform) (contentId : String) (data : Buffer) (maxChunks : WithTop ℤ) (s : FetchNetwork),
      (system p contentId data maxChunks).ReachableUnder
        (fun s event => unexpired contentId s event = true) s →
      s.Quiescent → (∃ id m, (id, ContentMessage.found contentId m) ∈ s.answers) →
        Resolved p contentId data s := by
  intro hclaim
  have hrun : (((system mapRuntime mapMetadata.contentId mapBytes (1 : ℤ)).runUnder
      (fun s event => unexpired mapMetadata.contentId s event) (mapStart (1 : ℤ))
      [.provider "p" 2, .requester "p" 3, .provider "p" 4, .requester "p" 5, .requester "p" 5,
        .provider "p" 6, .requester "p" 7, .requester "p" 7, .provider "q" 8, .requester "q" 9]).map fun s =>
      (s.settled mapMetadata.contentId, s.requester.pendingContentRequests.has mapMetadata.contentId)) =
        some (true, true) := by
    decide +kernel
  obtain ⟨s, hs, hlook⟩ := Option.map_eq_some_iff.mp hrun
  obtain ⟨hsettled, hopen⟩ := Prod.ext_iff.mp hlook
  have hreach := System.reachableUnder_of_runUnder (mapStart_init _) hs
  obtain ⟨hquiet, hreplied⟩ := quiescent_of_settled hreach.reachable hsettled
  have hclosed := (hclaim _ _ _ _ s hreach hquiet hreplied).closed
  simp [OrderedMap.has, hclosed] at hopen

end FetchNetwork
end Arald
