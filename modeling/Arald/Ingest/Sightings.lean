import Arald.Ingest.Arrivals

/-!
# Which beacons are sighted

A node considers a beacon when it accepts its announcement. An announcement of
bytes that it already holds is not accepted, and bytes that arrive on the side,
while they are forwarded to others, are never considered: whether the beacon is
sighted depends on which of the two comes first.

The run logs the beacons whose announcement was handled and the sightings that
the registry held at any time; the registry itself is bounded.
-/

namespace Arald

open Foundations

/-- The content is a signed beacon. -/
def ContentMetadata.isBeacon (metadata : ContentMetadata) : Bool :=
  metadata.name = emergencyBeaconContentName && metadata.publisher?.isSome

namespace BeaconNode

/-! ### Fetches that end -/

/-- The promise of the fetch has not been settled. -/
def waits (n : BeaconNode) (f : BeaconFetch) : Bool :=
  (n.node.pendingContentRequests.get? f.contentId).any fun entry => entry.waiters.contains f.waiter

section
variable (p : Platform)

/-- A request was fulfilled; a beacon that was fetched with it is read. -/
def resolved (n : BeaconNode) (observedAt : ℤ) (r : Resolution) : BeaconNode :=
  match n.pendingBeaconFetches.find? (fun f => f.contentId = r.contentId ∧ f.waiter ∈ r.waiters), r.content with
  | some fetch, some data => n.fetched p fetch data observedAt
  | _, _ => n

/-- Read what was fetched, and forget the fetches whose promise is settled. -/
def settle (n : BeaconNode) (resolutions : List Resolution) (observedAt : ℤ) : BeaconNode :=
  let n := resolutions.foldl (fun n r => n.resolved p observedAt r) n
  { n with pendingBeaconFetches := n.pendingBeaconFetches.filter n.waits }

/-- A step of the node, and the promises that it settles. -/
def storeStep (n : BeaconNode) (e : StoreNodeEvent) (observedAt : ℤ) : BeaconNode :=
  let node := n.node.step p e
  ({ n with node }).settle p (node.resolutions.drop n.node.resolutions.length) observedAt

/-- The entries of a catalog reply, each with a name for the promise of its fetch. -/
def handleSyncResponse (n : BeaconNode) (entries : List (ContentMetadata × ℕ)) (fromPeerId : String)
    (t : Readings) : BeaconNode :=
  entries.foldl (fun n entry => n.handleContentAnnounce p entry.1 none fromPeerId entry.2 t) n

/-- The stored bytes are those of a beacon that this node can read. -/
def readable (n : BeaconNode) (item : StoredContent) : Bool :=
  ((decodeStoredContent p item.metadata item.data).bind (n.readBeacon p)).isSome

end

/-- A fetch can be started for the beacon. -/
def hasFetchSlot (n : BeaconNode) (contentId : String) : Bool :=
  !(n.pendingBeaconFetches.any fun f => f.contentId = contentId) &&
    decide (n.pendingBeaconFetches.length < maxConcurrentBeaconFetches)

end BeaconNode

/-! ### Runs -/

/-- The step considers beacons too, and so is an event of its own. -/
def StoreNodeEvent.considers : StoreNodeEvent → Bool
  | .announce .. => true
  | .box (.catalogEntry ..) => true
  | _ => false

inductive BeaconEvent where
  | announce (metadata : ContentMetadata) (inline? : Option Buffer) (fromPeerId : String) (waiter : ℕ)
      (t : Readings)
  | syncResponse (entries : List (ContentMetadata × ℕ)) (fromPeerId : String) (t : Readings)
  /-- Anything else; what it fulfils is observed at a time. -/
  | other (e : StoreNodeEvent) (observedAt : ℤ)

/-- A node, the beacons that were announced to it, and those it has sighted. -/
structure SightingRun where
  node : BeaconNode
  announced : List String
  sighted : List String

namespace SightingRun

section
variable (p : Platform)

/-- The announcement of a beacon, valid and not expired. -/
def announces (metadata : ContentMetadata) (t : Readings) : Bool :=
  metadata.isBeacon && verifyContentSignature p metadata && !metadata.expired t.check

/-- The run goes on with a node that may have sighted more. -/
def goOn (s : SightingRun) (announced : List String) (node : BeaconNode) : SightingRun where
  node := node
  announced := s.announced ++ announced
  sighted := s.sighted ++ node.emergencyBeacons.sightings.keys

def step (s : SightingRun) : BeaconEvent → Option SightingRun
  | .announce metadata inline? fromPeerId waiter t =>
    some (s.goOn (if announces p metadata t then [metadata.contentId] else [])
      (s.node.handleContentAnnounce p metadata inline? fromPeerId waiter t))
  | .syncResponse entries fromPeerId t => some (s.goOn [] (s.node.handleSyncResponse p entries fromPeerId t))
  | .other e observedAt => if e.considers then none else some (s.goOn [] (s.node.storeStep p e observedAt))

/-- A freshly constructed node, with or without a beacon key. -/
def system : System SightingRun BeaconEvent where
  Init s := ∃ nodeId o c emergencyBeaconKey maxSightings,
    s = ⟨⟨.create nodeId o c, emergencyBeaconKey, {}, [], ⟨.empty maxSightings⟩⟩, [], []⟩
  step := step p

/-- Every announced beacon whose bytes are stored was sighted, if the node can read it. -/
def AllSighted (s : SightingRun) : Prop :=
  ∀ contentId ∈ s.announced, ∀ item, s.node.node.contentStore.items.get? contentId = some item →
    s.node.readable p item = true → contentId ∈ s.sighted

/-- The announced beacon has not been sighted yet. -/
def awaited (s : SightingRun) (contentId : String) : Bool :=
  s.announced.contains contentId && !s.sighted.contains contentId

/-- The bytes that come with the announcement are stored, and can be read. -/
def takesInline (s : SightingRun) (metadata : ContentMetadata) (inline? : Option Buffer) (t : Readings) : Bool :=
  s.node.node.acceptsCatalogEntry p metadata t && inline?.any fun data =>
    ContentStore.verifies p metadata data t.store && s.node.readable p ⟨metadata, data⟩

/-- No readable bytes of the beacon are found when it is announced. -/
def findsNone (s : SightingRun) (metadata : ContentMetadata) (t : Readings) : Bool :=
  (s.node.node.contentStore.readLive metadata.contentId t.read).2.all fun item => !s.node.readable p item

/-- The transfer is the node's own fetch of the beacon, or does not complete. -/
def fetchesItself (s : SightingRun) (contentId : String) : StoreNodeEvent → Bool
  | .content (.receive source (.complete key (some metadata)) now) =>
    !s.node.node.completes p source key metadata now ||
      (key = contentId && s.node.pendingBeaconFetches.any fun f => f.contentId = contentId)
  | _ => false

/-- The bytes of a beacon do not come first, and not on the side: when it is
announced they are not there yet, bytes that come along find a free slot, and
later ones are those that the node fetches for it. -/
def inOrder (s : SightingRun) : BeaconEvent → Bool
  | .announce metadata inline? _ _ t =>
    !s.node.emergencyBeacons.sightings.refuses &&
      (s.sighted.contains metadata.contentId ||
        ((!announces p metadata t || s.findsNone p metadata t) &&
          (!s.takesInline p metadata inline? t ||
            if metadata.isBeacon then s.node.hasFetchSlot metadata.contentId
            else !s.awaited metadata.contentId)))
  | .syncResponse .. => true
  | .other e _ =>
    !s.node.emergencyBeacons.sightings.refuses &&
      (s.node.node.arrival? p e).all fun a =>
        !s.awaited a.1 || (a.2.bind (s.node.readBeacon p)).isNone || s.fetchesItself p a.1 e

end
end SightingRun

/-! ### Reading a beacon -/

theorem EmergencyBeacons.mem_keys_record {b : EmergencyBeacons} (sighting : EmergencyBeaconSighting)
    (hpos : 0 < b.sightings.maxSize) : sighting.beaconContentId ∈ (b.record sighting).sightings.keys := by
  unfold record
  split_ifs with hknown
  · exact BoundedFifoMap.has_iff.mp hknown
  · rw [← BoundedFifoMap.has_iff, BoundedFifoMap.has, OrderedMap.has]
    have hget := BoundedFifoMap.get?_set_self none sighting.beaconContentId sighting hpos
    rw [BoundedFifoMap.get?] at hget
    rw [hget]
    rfl

/-- Looking up a content that is found, or asking the mesh for it. -/
theorem ContentNode.getContent_of_found {p : Platform} {n : ContentNode} {contentId : String}
    {item : StoredContent} (waiter : ℕ) {now : ℤ} (h : (n.contentStore.readLive contentId now).2 = some item) :
    n.getContent p contentId waiter now =
      ({ n with contentStore := (n.contentStore.readLive contentId now).1 },
        .stored (decodeStoredContent p item.metadata item.data)) := by
  rw [getContent, h]

theorem ContentNode.getContent_of_not_found {p : Platform} {n : ContentNode} {contentId : String}
    (waiter : ℕ) {now : ℤ} (h : (n.contentStore.readLive contentId now).2 = none) :
    ∃ entry, (n.getContent p contentId waiter now).1.pendingContentRequests =
        n.pendingContentRequests.set contentId entry ∧
      entry.waiters = ((n.pendingContentRequests.get? contentId).getD { contentId }).waiters ++ [waiter] ∧
      (n.getContent p contentId waiter now).2 = .pending := by
  rw [getContent, h]
  dsimp only
  split
  · exact ⟨_, rfl, rfl, rfl⟩
  · exact ⟨_, rfl, rfl, rfl⟩

namespace BeaconNode

variable {p : Platform} {n : BeaconNode}

/-- What a node reads in some bytes depends on its key alone. -/
theorem readBeacon_congr {n' : BeaconNode} (h : n'.emergencyBeaconKey = n.emergencyBeaconKey) :
    n'.readBeacon p = n.readBeacon p := by
  funext data
  unfold readBeacon decodeEmergencyBeaconPayload
  rw [h]

theorem readable_congr {n' : BeaconNode} (h : n'.emergencyBeaconKey = n.emergencyBeaconKey)
    (item : StoredContent) : n'.readable p item = n.readable p item := by
  rw [readable, readBeacon_congr h, readable]

/-- Reading a fetched beacon touches nothing but the registry. -/
theorem fetched_frame (fetch : BeaconFetch) (data : Buffer) (observedAt : ℤ) :
    ∃ beacons, n.fetched p fetch data observedAt = { n with emergencyBeacons := beacons } := by
  unfold fetched
  split
  · exact ⟨_, rfl⟩
  · exact ⟨_, rfl⟩

theorem mem_keys_fetched (fetch : BeaconFetch) {data : Buffer} (observedAt : ℤ)
    (hreads : (n.readBeacon p data).isSome = true) (hpos : 0 < n.emergencyBeacons.sightings.maxSize) :
    fetch.contentId ∈ (n.fetched p fetch data observedAt).emergencyBeacons.sightings.keys := by
  obtain ⟨payload, hpayload⟩ := Option.isSome_iff_exists.mp hreads
  rw [fetched, hpayload]
  exact EmergencyBeacons.mem_keys_record _ hpos

/-! ### Settled promises -/

theorem resolved_frame (observedAt : ℤ) (r : Resolution) :
    ∃ beacons, n.resolved p observedAt r = { n with emergencyBeacons := beacons } := by
  unfold resolved
  split
  · exact fetched_frame _ _ _
  · exact ⟨_, rfl⟩

theorem foldl_resolved_frame (observedAt : ℤ) (resolutions : List Resolution) :
    ∃ beacons, resolutions.foldl (fun n r => n.resolved p observedAt r) n =
      { n with emergencyBeacons := beacons } := by
  induction resolutions generalizing n with
  | nil => exact ⟨_, rfl⟩
  | cons r rest ih =>
    obtain ⟨beacons, hr⟩ := resolved_frame (p := p) (n := n) observedAt r
    rw [List.foldl_cons, hr]
    obtain ⟨beacons', hrest⟩ := ih (n := { n with emergencyBeacons := beacons })
    exact ⟨beacons', hrest⟩

theorem settle_frame (resolutions : List Resolution) (observedAt : ℤ) :
    ∃ beacons, n.settle p resolutions observedAt =
      { n with emergencyBeacons := beacons, pendingBeaconFetches := n.pendingBeaconFetches.filter n.waits } := by
  obtain ⟨beacons, hfold⟩ := foldl_resolved_frame (p := p) (n := n) observedAt resolutions
  rw [settle, hfold]
  exact ⟨beacons, rfl⟩

/-- A fetch of a readable beacon that is fulfilled is sighted. -/
theorem mem_keys_settle {r : Resolution} {f : BeaconFetch} {data : Buffer} (observedAt : ℤ)
    (hf : f ∈ n.pendingBeaconFetches) (hid : f.contentId = r.contentId) (hwaiter : f.waiter ∈ r.waiters)
    (hcontent : r.content = some data) (hreads : (n.readBeacon p data).isSome = true)
    (hpos : 0 < n.emergencyBeacons.sightings.maxSize) :
    r.contentId ∈ (n.settle p [r] observedAt).emergencyBeacons.sightings.keys := by
  have hsome : (n.pendingBeaconFetches.find?
      fun f => f.contentId = r.contentId ∧ f.waiter ∈ r.waiters).isSome = true := by
    rw [List.find?_isSome]
    exact ⟨f, hf, decide_eq_true ⟨hid, hwaiter⟩⟩
  obtain ⟨found, hfound⟩ := Option.isSome_iff_exists.mp hsome
  have hmatches := List.find?_some hfound
  have hsame : found.contentId = r.contentId := (of_decide_eq_true hmatches).1
  change r.contentId ∈ (n.resolved p observedAt r).emergencyBeacons.sightings.keys
  rw [resolved, hfound, hcontent, ← hsame]
  exact mem_keys_fetched found observedAt hreads hpos

/-! ### Considering a beacon -/

/-- What becomes of a node that considers a content: nothing, the stored bytes are
read, or they are asked for. -/
inductive Considered (p : Platform) (n : BeaconNode) (metadata : ContentMetadata) (t : Readings) :
    BeaconNode → Prop
  | skipped (hskipped : (metadata.isBeacon && n.hasFetchSlot metadata.contentId) = false) :
    Considered p n metadata t n
  | read (item : StoredContent) (beacons : EmergencyBeacons)
    (hfound : (n.node.contentStore.readLive metadata.contentId t.read).2 = some item)
    (hsighted : n.readable p item = true → 0 < n.emergencyBeacons.sightings.maxSize →
      metadata.contentId ∈ beacons.sightings.keys) :
    Considered p n metadata t
      { n with
        node := n.node.withStore (n.node.contentStore.readLive metadata.contentId t.read).1
        emergencyBeacons := beacons }
  | asked (node : StoreNode) (fetch : BeaconFetch)
    (hnone : (n.node.contentStore.readLive metadata.contentId t.read).2 = none)
    (hstore : node.contentStore = (n.node.contentStore.readLive metadata.contentId t.read).1)
    (hwaits : ∀ f, f = fetch ∨ n.waits f = true → ({ n with node } : BeaconNode).waits f = true) :
    Considered p n metadata t
      { n with node := node, pendingBeaconFetches := n.pendingBeaconFetches ++ [fetch] }

theorem considered (n : BeaconNode) (metadata : ContentMetadata) (fromPeerId : String) (waiter : ℕ)
    (t : Readings) :
    Considered p n metadata t (n.considerEmergencyBeacon p metadata fromPeerId waiter t) := by
  unfold considerEmergencyBeacon
  by_cases hname : metadata.name ≠ emergencyBeaconContentName
  · rw [if_pos hname]
    exact .skipped (by simp [ContentMetadata.isBeacon, hname])
  rw [if_neg hname]
  cases hpublisher : metadata.publisher? with
  | none => exact .skipped (by simp [ContentMetadata.isBeacon, hpublisher])
  | some publisherId =>
    dsimp only
    by_cases hslot : (n.pendingBeaconFetches.any fun f => f.contentId = metadata.contentId) ∨
        maxConcurrentBeaconFetches ≤ n.pendingBeaconFetches.length
    · rw [if_pos hslot]
      refine .skipped ?_
      have hnone : n.hasFetchSlot metadata.contentId = false := by
        unfold hasFetchSlot
        rcases hslot with hpending | hfull
        · rw [hpending]
          rfl
        · rw [decide_eq_false (not_lt.mpr hfull), Bool.and_false]
      rw [hnone, Bool.and_false]
    · rw [if_neg hslot]
      cases hfound : (n.node.contentStore.readLive metadata.contentId t.read).2 with
      | some item =>
        have hfound' : (n.node.fetching.contentStore.readLive metadata.contentId t.read).2 = some item := hfound
        rw [ContentNode.getContent_of_found waiter hfound']
        dsimp only
        cases hdecoded : decodeStoredContent p item.metadata item.data with
        | none =>
          refine .read item n.emergencyBeacons hfound fun hreads => ?_
          simp [readable, hdecoded] at hreads
        | some data =>
          obtain ⟨beacons, hfetched⟩ := fetched_frame (p := p)
            (n := { n with node := n.node.withStore (n.node.contentStore.readLive metadata.contentId t.read).1 })
            ⟨metadata.contentId, publisherId, fromPeerId, waiter⟩ data t.observed
          have hsighted : n.readable p item = true → 0 < n.emergencyBeacons.sightings.maxSize →
              metadata.contentId ∈ beacons.sightings.keys := by
            intro hreads hpos
            have hread : (n.readBeacon p data).isSome = true := by
              simpa [readable, hdecoded] using hreads
            have hmem := mem_keys_fetched (p := p)
              (n := { n with node := n.node.withStore (n.node.contentStore.readLive metadata.contentId t.read).1 })
              ⟨metadata.contentId, publisherId, fromPeerId, waiter⟩ t.observed hread hpos
            rw [hfetched] at hmem
            exact hmem
          have hresult : Considered p n metadata t
              { n with
                node := n.node.withStore (n.node.contentStore.readLive metadata.contentId t.read).1
                emergencyBeacons := beacons } := .read item beacons hfound hsighted
          rw [← hfetched] at hresult
          exact hresult
      | none =>
        have hnone : (n.node.fetching.contentStore.readLive metadata.contentId t.read).2 = none := hfound
        obtain ⟨entry, hrequests, hwaiters, hpending⟩ :=
          ContentNode.getContent_of_not_found (p := p) waiter hnone
        have hstore := ContentNode.contentStore_getContent p n.node.fetching metadata.contentId waiter t.read
        generalize n.node.fetching.getContent p metadata.contentId waiter t.read = asked at *
        obtain ⟨c, result⟩ := asked
        obtain rfl : result = .pending := hpending
        refine .asked (n.node.withFetching c) ⟨metadata.contentId, publisherId, fromPeerId, waiter⟩ hfound hstore ?_
        intro f hf
        have hget : (n.node.withFetching c).pendingContentRequests.get? f.contentId =
            if f.contentId = metadata.contentId then some entry
            else n.node.pendingContentRequests.get? f.contentId := by
          change c.pendingContentRequests.get? f.contentId = _
          rw [hrequests, OrderedMap.get?_set]
          rfl
        unfold waits
        rw [hget]
        rcases hf with rfl | hf
        · rw [if_pos rfl]
          simp [hwaiters]
        · unfold waits at hf
          split_ifs with hkey
          · rw [hkey] at hf
            rw [Option.any_eq_true] at hf
            obtain ⟨before, hbefore, hmem⟩ := hf
            have hbefore' : n.node.fetching.pendingContentRequests.get? metadata.contentId = some before := hbefore
            rw [Option.any_some, hwaiters, hbefore', Option.getD_some]
            simpa using Or.inl (by simpa using hmem)
          · exact hf

/-- Every pending fetch waits for its promise. -/
def AllWaiting (n : BeaconNode) : Prop := ∀ f ∈ n.pendingBeaconFetches, n.waits f = true

theorem Considered.key {metadata : ContentMetadata} {t : Readings} {n' : BeaconNode}
    (h : Considered p n metadata t n') : n'.emergencyBeaconKey = n.emergencyBeaconKey := by
  cases h <;> rfl

theorem Considered.allWaiting {metadata : ContentMetadata} {t : Readings} {n' : BeaconNode}
    (h : Considered p n metadata t n') (hwaiting : n.AllWaiting) : n'.AllWaiting := by
  cases h with
  | skipped => exact hwaiting
  | read item beacons hfound hsighted => exact hwaiting
  | asked node fetch hnone hstore hwaits =>
    intro f hf
    rcases List.mem_append.mp hf with hold | hnew
    · exact hwaits f (.inr (hwaiting f hold))
    · exact hwaits f (.inl (List.mem_singleton.mp hnew))

theorem Considered.get? {metadata : ContentMetadata} {t : Readings} {n' : BeaconNode} {contentId : String}
    {item : StoredContent} (h : Considered p n metadata t n')
    (hget : n'.node.contentStore.items.get? contentId = some item) :
    n.node.contentStore.items.get? contentId = some item := by
  cases h with
  | skipped => exact hget
  | read item beacons hfound hsighted => exact ContentStore.get?_of_readLive hget
  | asked node fetch hnone hstore hwaits =>
    rw [hstore] at hget
    exact ContentStore.get?_of_readLive hget

/-- A beacon that is considered, with a free slot, is sighted if its bytes are still
stored afterwards. -/
theorem Considered.sighted {metadata : ContentMetadata} {t : Readings} {n' : BeaconNode}
    {item : StoredContent} (h : Considered p n metadata t n') (hbeacon : metadata.isBeacon = true)
    (hslot : n.hasFetchSlot metadata.contentId = true)
    (hget : n'.node.contentStore.items.get? metadata.contentId = some item)
    (hreads : n.readable p item = true) (hpos : 0 < n.emergencyBeacons.sightings.maxSize) :
    metadata.contentId ∈ n'.emergencyBeacons.sightings.keys := by
  cases h with
  | skipped hskipped => simp [hbeacon, hslot] at hskipped
  | read found beacons hfound hsighted =>
    have hlooked := congrArg Prod.snd (ContentStore.readLive_of_get?_readLive hget)
    obtain rfl := Option.some.inj (hfound.symm.trans hlooked)
    exact hsighted hreads hpos
  | asked node fetch hnone hstore hwaits =>
    rw [hstore] at hget
    have hlooked := congrArg Prod.snd (ContentStore.readLive_of_get?_readLive hget)
    cases hnone.symm.trans hlooked

/-! ### Announcements -/

theorem requests_handleContentAnnounce (node : StoreNode) (metadata : ContentMetadata)
    (inline? : Option Buffer) (fromPeerId : String) (t : Readings) :
    (node.handleContentAnnounce p metadata inline? fromPeerId t).pendingContentRequests =
      node.pendingContentRequests := by
  unfold StoreNode.handleContentAnnounce
  dsimp only
  split
  · rfl
  · cases inline? <;> rfl

/-- The node before it considers the announced content. -/
def announcedTo (p : Platform) (n : BeaconNode) (metadata : ContentMetadata) (inline? : Option Buffer)
    (fromPeerId : String) (t : Readings) : BeaconNode :=
  { n with node := n.node.handleContentAnnounce p metadata inline? fromPeerId t }

theorem handleContentAnnounce_cases (n : BeaconNode) (metadata : ContentMetadata) (inline? : Option Buffer)
    (fromPeerId : String) (waiter : ℕ) (t : Readings) :
    (n.node.acceptsCatalogEntry p metadata t = false ∧
        n.handleContentAnnounce p metadata inline? fromPeerId waiter t =
          n.announcedTo p metadata inline? fromPeerId t) ∨
      (n.node.acceptsCatalogEntry p metadata t = true ∧
        Considered p (n.announcedTo p metadata inline? fromPeerId t) metadata t
          (n.handleContentAnnounce p metadata inline? fromPeerId waiter t)) := by
  rw [handleContentAnnounce]
  cases haccepts : n.node.acceptsCatalogEntry p metadata t with
  | false => exact .inl ⟨rfl, rfl⟩
  | true => exact .inr ⟨rfl, considered _ metadata fromPeerId waiter t⟩

section
variable {metadata : ContentMetadata} {inline? : Option Buffer} {fromPeerId : String} {waiter : ℕ}
  {t : Readings}

theorem key_handleContentAnnounce (n : BeaconNode) (metadata : ContentMetadata) (inline? : Option Buffer)
    (fromPeerId : String) (waiter : ℕ) (t : Readings) :
    (n.handleContentAnnounce p metadata inline? fromPeerId waiter t).emergencyBeaconKey =
      n.emergencyBeaconKey := by
  rcases n.handleContentAnnounce_cases (p := p) metadata inline? fromPeerId waiter t with ⟨-, h⟩ | ⟨-, h⟩
  · rw [h]
    rfl
  · exact h.key

theorem AllWaiting.handleContentAnnounce (hwaiting : n.AllWaiting) :
    (n.handleContentAnnounce p metadata inline? fromPeerId waiter t).AllWaiting := by
  have hbefore : (n.announcedTo p metadata inline? fromPeerId t).AllWaiting := by
    intro f hf
    unfold waits
    rw [announcedTo, requests_handleContentAnnounce]
    exact hwaiting f hf
  rcases n.handleContentAnnounce_cases (p := p) metadata inline? fromPeerId waiter t with ⟨-, h⟩ | ⟨-, h⟩
  · rw [h]
    exact hbefore
  · exact h.allWaiting hbefore

theorem get?_of_handleContentAnnounce {contentId : String} {item : StoredContent}
    (hget : (n.handleContentAnnounce p metadata inline? fromPeerId waiter t).node.contentStore.items.get?
      contentId = some item) :
    (n.node.contentStore.items.get? contentId = some item ∧
        (contentId = metadata.contentId → (n.node.contentStore.readLive contentId t.read).2 = some item)) ∨
      (n.node.acceptsCatalogEntry p metadata t = true ∧ ∃ data, inline? = some data ∧
        ContentStore.Submitted p contentId item metadata data t.store) := by
  rcases n.handleContentAnnounce_cases (p := p) metadata inline? fromPeerId waiter t with ⟨-, h⟩ | ⟨-, h⟩
  · rw [h] at hget
    exact StoreNode.get?_of_announce hget
  · exact StoreNode.get?_of_announce (h.get? hget)

theorem sighted_of_announce {item : StoredContent}
    (haccepts : n.node.acceptsCatalogEntry p metadata t = true) (hbeacon : metadata.isBeacon = true)
    (hslot : n.hasFetchSlot metadata.contentId = true)
    (hget : (n.handleContentAnnounce p metadata inline? fromPeerId waiter t).node.contentStore.items.get?
      metadata.contentId = some item)
    (hreads : n.readable p item = true) (hpos : 0 < n.emergencyBeacons.sightings.maxSize) :
    metadata.contentId ∈
      (n.handleContentAnnounce p metadata inline? fromPeerId waiter t).emergencyBeacons.sightings.keys := by
  rcases n.handleContentAnnounce_cases (p := p) metadata inline? fromPeerId waiter t with ⟨hnot, -⟩ | ⟨-, h⟩
  · cases hnot.symm.trans haccepts
  · exact h.sighted hbeacon hslot hget hreads hpos

end

/-- A catalog reply brings no bytes. -/
theorem handleSyncResponse_frame (entries : List (ContentMetadata × ℕ)) (fromPeerId : String) (t : Readings)
    (hwaiting : n.AllWaiting) :
    (n.handleSyncResponse p entries fromPeerId t).emergencyBeaconKey = n.emergencyBeaconKey ∧
      (n.handleSyncResponse p entries fromPeerId t).AllWaiting ∧
      ∀ contentId item,
        (n.handleSyncResponse p entries fromPeerId t).node.contentStore.items.get? contentId = some item →
          n.node.contentStore.items.get? contentId = some item := by
  induction entries generalizing n with
  | nil => exact ⟨rfl, hwaiting, fun _ _ h => h⟩
  | cons entry rest ih =>
    obtain ⟨hkey, hrest, hstore⟩ := ih (n := n.handleContentAnnounce p entry.1 none fromPeerId entry.2 t)
      hwaiting.handleContentAnnounce
    refine ⟨hkey.trans (key_handleContentAnnounce _ _ _ _ _ _), hrest, fun contentId item hget => ?_⟩
    rcases get?_of_handleContentAnnounce (hstore contentId item hget) with ⟨hold, -⟩ | ⟨-, data, hnone, -⟩
    · exact hold
    · cases hnone

/-! ### Everything else -/

theorem storeStep_frame (n : BeaconNode) (e : StoreNodeEvent) (observedAt : ℤ) :
    (n.storeStep p e observedAt).node = n.node.step p e ∧
      (n.storeStep p e observedAt).emergencyBeaconKey = n.emergencyBeaconKey ∧
      (n.storeStep p e observedAt).AllWaiting := by
  obtain ⟨beacons, hsettle⟩ := settle_frame (p := p) (n := { n with node := n.node.step p e })
    ((n.node.step p e).resolutions.drop n.node.resolutions.length) observedAt
  rw [storeStep]
  rw [hsettle]
  refine ⟨rfl, rfl, fun f hf => ?_⟩
  exact (List.mem_filter.mp hf).2

/-- The node's own fetch of a readable beacon is sighted when it completes. -/
theorem sighted_of_completes {source contentId : String} {metadata : ContentMetadata} {now : ℤ} (observedAt : ℤ)
    {f : BeaconFetch} {item : StoredContent} (hwaiting : n.AllWaiting) (hf : f ∈ n.pendingBeaconFetches)
    (hid : f.contentId = contentId) (hcompletes : n.node.completes p source contentId metadata now = true)
    (hget : (n.node.step p (.content (.receive source (.complete contentId (some metadata)) now))).contentStore.items.get?
      contentId = some item)
    (hreads : n.readable p item = true) (hpos : 0 < n.emergencyBeacons.sightings.maxSize) :
    n.node.contentStore.items.get? contentId = some item ∨ contentId ∈
      (n.storeStep p (.content (.receive source (.complete contentId (some metadata)) now))
        observedAt).emergencyBeacons.sightings.keys := by
  obtain ⟨entry, data, hentry, -, -, hstore, hresolutions⟩ :=
    StoreNode.handleContentComplete_of_completes hcompletes
  have hinsert : (n.node.contentStore.insert n.node.box.publisherTrust (entry.metadata.getD metadata)
      data).items.get? contentId = some item := by
    rw [← hstore]
    exact hget
  rcases ContentStore.get?_of_insert hinsert with hold | ⟨-, rfl⟩
  · exact .inl hold
  · right
    have hwaits := hwaiting f hf
    rw [waits, hid, hentry, Option.any_some] at hwaits
    have hwaiter : f.waiter ∈ entry.waiters := by simpa using hwaits
    obtain ⟨content, hcontent, hread⟩ : ∃ content,
        decodeStoredContent p (entry.metadata.getD metadata) data = some content ∧
          (n.readBeacon p content).isSome = true := by
      rw [readable] at hreads
      cases hdecoded : decodeStoredContent p (entry.metadata.getD metadata) data with
      | none => simp [hdecoded] at hreads
      | some content => exact ⟨content, rfl, by simpa [hdecoded] using hreads⟩
    have hdrop : (n.node.step p (.content (.receive source (.complete contentId (some metadata))
        now))).resolutions.drop n.node.resolutions.length =
          [⟨contentId, entry.metadata.getD metadata, data,
            decodeStoredContent p (entry.metadata.getD metadata) data, entry.waiters⟩] := by
      change ((n.node.fetching.handleContentComplete p source contentId (some metadata) now).resolutions.drop _) = _
      rw [hresolutions]
      exact List.drop_left
    rw [storeStep]
    rw [hdrop]
    exact mem_keys_settle (n := { n with node := n.node.step p (.content (.receive source
      (.complete contentId (some metadata)) now)) }) observedAt hf hid hwaiter hcontent hread hpos

end BeaconNode

/-! ### Runs in order -/

namespace SightingRun

variable {p : Platform} {s s' : SightingRun}

/-- What holds along a run in order. -/
structure Sound (p : Platform) (s : SightingRun) : Prop where
  allSighted : s.AllSighted p
  allWaiting : s.node.AllWaiting

theorem pos_of_not_refuses {b : EmergencyBeacons} (h : b.sightings.refuses = false) :
    0 < b.sightings.maxSize := by
  simpa [BoundedFifoMap.refuses] using h

theorem Sound.announce (h : Sound p s) {metadata : ContentMetadata} {inline? : Option Buffer}
    {fromPeerId : String} {waiter : ℕ} {t : Readings}
    (horder : s.inOrder p (.announce metadata inline? fromPeerId waiter t) = true) :
    Sound p (s.goOn (if announces p metadata t then [metadata.contentId] else [])
      (s.node.handleContentAnnounce p metadata inline? fromPeerId waiter t)) := by
  refine ⟨?_, h.allWaiting.handleContentAnnounce⟩
  intro contentId hannounced item hget hreads
  have hreads' : s.node.readable p item = true := by
    rw [← BeaconNode.readable_congr
      (s.node.key_handleContentAnnounce (p := p) metadata inline? fromPeerId waiter t)]
    exact hreads
  by_cases hsighted : contentId ∈ s.sighted
  · exact List.mem_append_left _ hsighted
  simp only [inOrder, Bool.and_eq_true, Bool.or_eq_true, Bool.not_eq_true', List.contains_eq_mem,
    decide_eq_true_eq] at horder
  obtain ⟨hroom, horder⟩ := horder
  have hpos := pos_of_not_refuses hroom
  have hmember : contentId ∈ s.announced ∨ announces p metadata t = true ∧ contentId = metadata.contentId := by
    rcases List.mem_append.mp hannounced with hold | hnew
    · exact .inl hold
    · split_ifs at hnew with hannounces
      · exact .inr ⟨hannounces, List.mem_singleton.mp hnew⟩
      · cases hnew
  rcases BeaconNode.get?_of_handleContentAnnounce hget with ⟨hold, hfound⟩ | ⟨haccepts, data, rfl, hnew⟩
  · -- The bytes were there before: then they were sighted, or unreadable when they were announced.
    rcases hmember with hmember | ⟨hannounces, rfl⟩
    · exact absurd (h.allSighted contentId hmember item hold hreads') hsighted
    · rcases horder with hknown | ⟨hnone | hnone, -⟩
      · exact absurd hknown hsighted
      · rw [hannounces] at hnone
        cases hnone
      · rw [findsNone, hfound rfl, Option.all_some, hreads'] at hnone
        cases hnone
  · -- The bytes came along.
    obtain ⟨hverifies, rfl, rfl⟩ := hnew
    rcases horder with hknown | ⟨-, hinline⟩
    · exact absurd hknown hsighted
    · have htakes : s.takesInline p metadata (some data) t = true := by
        simp [takesInline, haccepts, hverifies, hreads']
      rw [htakes] at hinline
      rcases hinline with hfalse | hinline
      · cases hfalse
      · split_ifs at hinline with hbeacon
        · exact List.mem_append_right _
            (BeaconNode.sighted_of_announce haccepts hbeacon hinline hget hreads' hpos)
        · rcases hmember with hmember | ⟨hannounces, -⟩
          · simp [awaited, hmember, hsighted] at hinline
          · simp [announces, hbeacon] at hannounces

theorem Sound.syncResponse (h : Sound p s) (entries : List (ContentMetadata × ℕ)) (fromPeerId : String)
    (t : Readings) : Sound p (s.goOn [] (s.node.handleSyncResponse p entries fromPeerId t)) := by
  obtain ⟨hkey, hwaiting, hstore⟩ :=
    BeaconNode.handleSyncResponse_frame (p := p) entries fromPeerId t h.allWaiting
  refine ⟨?_, hwaiting⟩
  intro contentId hannounced item hget hreads
  have hmember : contentId ∈ s.announced := by simpa [goOn] using hannounced
  refine List.mem_append_left _ (h.allSighted contentId hmember item (hstore contentId item hget) ?_)
  rw [← BeaconNode.readable_congr hkey]
  exact hreads

theorem Sound.other (h : Sound p s) {e : StoreNodeEvent} {observedAt : ℤ}
    (horder : s.inOrder p (.other e observedAt) = true) :
    Sound p (s.goOn [] (s.node.storeStep p e observedAt)) := by
  obtain ⟨hnode, hkey, hwaiting⟩ := BeaconNode.storeStep_frame (p := p) s.node e observedAt
  refine ⟨?_, hwaiting⟩
  intro contentId hannounced item hget hreads
  have hmember : contentId ∈ s.announced := by simpa [goOn] using hannounced
  have hreads' : s.node.readable p item = true := by
    rw [← BeaconNode.readable_congr hkey]
    exact hreads
  by_cases hsighted : contentId ∈ s.sighted
  · exact List.mem_append_left _ hsighted
  have hold : s.node.node.contentStore.items.get? contentId ≠ some item :=
    fun hold => hsighted (h.allSighted contentId hmember item hold hreads')
  have hget' : (s.node.node.step p e).contentStore.items.get? contentId = some item := by
    rw [← hnode]
    exact hget
  have harrival := (StoreNode.get?_of_step hget').resolve_left hold
  rw [inOrder, harrival, Option.all_some, Bool.and_eq_true, Bool.not_eq_true'] at horder
  obtain ⟨hroom, horder⟩ := horder
  have hawaited : s.awaited contentId = true := by simp [awaited, hmember, hsighted]
  have hread : (((decodeStoredContent p item.metadata item.data).bind (s.node.readBeacon p)).isNone) = false := by
    rw [Option.isNone_eq_false_iff]
    exact hreads'
  dsimp only at horder
  rw [hawaited, hread, Bool.not_true, Bool.false_or, Bool.false_or] at horder
  unfold fetchesItself at horder
  split at horder
  · next source key metadata now =>
    cases hcompletes : s.node.node.completes p source key metadata now with
    | false =>
      have hsame : (s.node.node.step p (.content (.receive source (.complete key (some metadata))
          now))).contentStore = s.node.node.contentStore :=
        StoreNode.contentStore_of_not_completes hcompletes
      rw [hsame] at hget'
      exact absurd hget' hold
    | true =>
      rw [hcompletes, Bool.not_true, Bool.false_or, Bool.and_eq_true, decide_eq_true_eq] at horder
      obtain ⟨rfl, hpending⟩ := horder
      obtain ⟨f, hf, hid⟩ := List.any_eq_true.mp hpending
      have hsighting := BeaconNode.sighted_of_completes observedAt h.allWaiting hf
        (of_decide_eq_true hid) hcompletes hget' hreads' (pos_of_not_refuses hroom)
      exact List.mem_append_right _ (hsighting.resolve_left hold)
  · cases horder

/-- A call for help that a phone sent. -/
def callPacket : AnnouncePacket := phoneBeacon sosRuntime "phone" callForHelp.checked 1

def hut : SightingRun := ⟨hutNode, [], []⟩

theorem init_hut : (system sosRuntime).Init hut := ⟨"hut", {}, {}, none, (512 : ℤ), rfl⟩

/-- The bytes are forwarded to somebody else, in one chunk. -/
def forwarded : List BeaconEvent :=
  [.other (.relayedChunk callPacket.metadata.contentId (some 0) (some 1) callPacket.data 2) 2,
    .other (.relayedComplete callPacket.metadata.contentId callPacket.metadata 3) 3]

/-- The bytes are fetched from the card that announced the beacon. -/
def fetchedFromCard : List BeaconEvent :=
  [.other (.content (.receive "card" (.found callPacket.metadata.contentId (some callPacket.metadata)) 3)) 3,
    .other (.content (.receive "card" (.chunk callPacket.metadata.contentId (some 0) (some 1)
      callPacket.data) 4)) 4,
    .other (.content (.receive "card" (.complete callPacket.metadata.contentId (some callPacket.metadata)) 5)) 5]

/-- Whether the call was announced, is stored so that the node can read it, and was sighted. -/
def report (s : SightingRun) : Bool × Bool × Bool :=
  (s.announced.contains callPacket.metadata.contentId,
    (s.node.node.contentStore.items.get? callPacket.metadata.contentId).any (s.node.readable sosRuntime),
    s.sighted.contains callPacket.metadata.contentId)

end SightingRun

end Arald
