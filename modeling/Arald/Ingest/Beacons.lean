import Arald.Ingest.ContentPaths

/-!
# Emergency beacons

A node that learns of a content named as an emergency beacon reads its bytes,
from its store or from the mesh, and records a sighting. The registry of
sightings never expires one and never overwrites one. A node with the key of
its deployment also reads encrypted beacons.

A fetch settles with the promise of its waiter: the sighting is recorded when
the bytes come, and given up when the fetch fails.
-/

namespace Arald

open Foundations

def maxBeaconMessageLength : ℕ := 4000

def emergencyBeaconContentName : String := "emergency-beacon"

structure EmergencyBeaconPayload where
  message : Option String
  lat : Option ℚ
  lon : Option ℚ
  timestamp : ℚ
  deriving DecidableEq

def extractEmergencyBeaconPayload (payload : JsValue) : Option EmergencyBeaconPayload := do
  guard payload.isObject
  let message ← optional? (boundedText? maxBeaconMessageLength) (payload.prop "message")
  let lat ← optional? (within? (-90) 90) (payload.prop "lat")
  let lon ← optional? (within? (-180) 180) (payload.prop "lon")
  let timestamp ← (payload.prop "timestamp").finite?
  return { message, lat, lon, timestamp }

/-- The object that is serialised for a beacon. -/
def EmergencyBeaconPayload.toJs (b : EmergencyBeaconPayload) : JsValue :=
  .obj [
    ("message", .ofString b.message),
    ("lat", .ofRat b.lat),
    ("lon", .ofRat b.lon),
    ("timestamp", .num (.finite b.timestamp))]

/-- The object that is serialised for an encrypted beacon. -/
def beaconEnvelope (sealed : EncryptedPayload) : JsValue :=
  .obj [
    ("encrypted", .bool true),
    ("nonce", .str sealed.nonce),
    ("ciphertext", .str sealed.ciphertext),
    ("authTag", .str sealed.authTag)]

def extractEmergencyBeaconEnvelope (payload : JsValue) : Option EncryptedPayload := do
  guard payload.isObject
  guard (payload.prop "encrypted").isTrue
  let nonce ← (payload.prop "nonce").string?
  let ciphertext ← (payload.prop "ciphertext").string?
  let authTag ← (payload.prop "authTag").string?
  return { nonce, ciphertext, authTag }

structure EmergencyBeaconSighting extends EmergencyBeaconPayload where
  beaconContentId : String
  deviceId : String
  observedAt : ℤ
  receivedFrom : Option String

/-- The sightings of a node, without expiry and without a ranking by trust. -/
structure EmergencyBeacons where
  sightings : BoundedFifoMap String EmergencyBeaconSighting

/-- Record a sighting that is not known yet. -/
def EmergencyBeacons.record (b : EmergencyBeacons) (sighting : EmergencyBeaconSighting) :
    EmergencyBeacons :=
  if b.sightings.has sighting.beaconContentId then b
  else { b with sightings := b.sightings.set none sighting.beaconContentId sighting }

/-- A fetch that was started for a beacon. -/
structure BeaconFetch where
  contentId : String
  publisherId : String
  fromPeerId : String
  /-- The promise of `getContent`. -/
  waiter : ℕ

/-- The cipher under the pre-shared key of a deployment. -/
structure EmergencyBeaconKey where
  /-- `encryptForPeer`, under a nonce that it draws. -/
  encrypt : (nonce : Buffer) → Buffer → EncryptedPayload
  /-- `decryptFromPeer`, `none` when it throws. -/
  decrypt : EncryptedPayload → Option Buffer

structure BeaconNode where
  node : StoreNode
  emergencyBeaconKey : Option EmergencyBeaconKey
  emergencyBeaconWindow : BudgetWindow
  pendingBeaconFetches : List BeaconFetch
  emergencyBeacons : EmergencyBeacons

namespace BeaconNode

def maxConcurrentBeaconFetches : ℕ := 16

section
variable (p : Platform)

def decodeEmergencyBeaconPayload (n : BeaconNode) (parsed : JsValue) : Option EmergencyBeaconPayload :=
  match extractEmergencyBeaconEnvelope parsed with
  | some envelope => do
    let key ← n.emergencyBeaconKey
    let plaintext ← key.decrypt envelope
    p.parseJson plaintext >>= extractEmergencyBeaconPayload
  | none => extractEmergencyBeaconPayload parsed

/-- What the bytes of a beacon say to this node. -/
def readBeacon (n : BeaconNode) (data : Buffer) : Option EmergencyBeaconPayload :=
  p.parseJson data >>= n.decodeEmergencyBeaconPayload p

/-- The promise of a fetch was fulfilled with the bytes of the beacon. -/
def fetched (n : BeaconNode) (fetch : BeaconFetch) (data : Buffer) (observedAt : ℤ) : BeaconNode :=
  match n.readBeacon p data with
  | none => n
  | some payload =>
    let sighting : EmergencyBeaconSighting :=
      { payload with
        beaconContentId := fetch.contentId
        deviceId := fetch.publisherId
        observedAt := observedAt
        receivedFrom := if fetch.fromPeerId ≠ fetch.publisherId then some fetch.fromPeerId else none }
    { n with emergencyBeacons := n.emergencyBeacons.record sighting }

def considerEmergencyBeacon (n : BeaconNode) (metadata : ContentMetadata) (fromPeerId : String)
    (waiter : ℕ) (t : Readings) : BeaconNode :=
  if metadata.name ≠ emergencyBeaconContentName then n
  else
    match metadata.publisher? with
    | none => n
    | some publisherId =>
      if (n.pendingBeaconFetches.any fun f => f.contentId = metadata.contentId) ∨
          maxConcurrentBeaconFetches ≤ n.pendingBeaconFetches.length then n
      else
        let fetch : BeaconFetch := ⟨metadata.contentId, publisherId, fromPeerId, waiter⟩
        match n.node.fetching.getContent p metadata.contentId waiter t.read with
        | (c, .stored content) =>
          let n := { n with node := n.node.withFetching c }
          match content with
          | some data => n.fetched p fetch data t.observed
          | none => n
        | (c, .pending) =>
          { n with
            node := n.node.withFetching c
            pendingBeaconFetches := n.pendingBeaconFetches ++ [fetch] }

def handleContentAnnounce (n : BeaconNode) (metadata : ContentMetadata) (inline? : Option Buffer)
    (fromPeerId : String) (waiter : ℕ) (t : Readings) : BeaconNode :=
  let accepted := n.node.acceptsCatalogEntry p metadata t
  let n := { n with node := n.node.handleContentAnnounce p metadata inline? fromPeerId t }
  if accepted then n.considerEmergencyBeacon p metadata fromPeerId waiter t else n

end
end BeaconNode
end Arald
