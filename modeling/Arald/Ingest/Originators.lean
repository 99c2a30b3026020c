import Arald.Ingest.Beacons

/-!
# The three originators of drops and beacons

A node publishes its own drops and beacons. The phone builds the packet of a
beacon, and the portal of the operators builds the submission of a drop; both
keep their own copy of the node's format and sign it with their own keys. This
file compares what a node makes of a copy with what it makes of the original.

The copies sign no priority. A store ranks what has none like routine content.
-/

namespace Arald

open Foundations

/-! ### What the codec and the keys of the runtime do -/

/-- `JSON.stringify` skips what is undefined. -/
def Platform.SkipsUndefined (p : Platform) : Prop :=
  ∀ fields, p.stringify (.obj fields) = p.stringify (.obj (fields.filter fun f => !f.2.isUndefined))

/-- The text of an object is short, and parses to an object with the same properties. -/
def Platform.ReadsBack (p : Platform) (v : JsValue) : Prop :=
  (p.stringify v).length ≤ maxDecompressedContentBytes ∧
    ∃ w, p.parseJson (p.stringify v) = some w ∧ w.isObject = true ∧ ∀ name, w.prop name = v.prop name

/-- A signature is not empty, and the key that made it verifies it. -/
def Platform.SignsFor (p : Platform) (nodeId : String) : Prop :=
  nodeId ≠ "" ∧ ∀ data, p.sign nodeId data ≠ "" ∧
    p.verifyWithNodeId nodeId data (p.sign nodeId data) = true

/-! ### The copies of the format -/

/-- The fields that the phone and the portal sign. -/
structure SignableContentFields where
  contentId : String
  name : String
  mimeType : String
  size : ℚ
  publisherId : String
  expiresAt : ℚ

def SignableContentFields.toJs (f : SignableContentFields) : JsValue :=
  .obj [
    ("contentId", .str f.contentId),
    ("name", .str f.name),
    ("mimeType", .str f.mimeType),
    ("size", .num (.finite f.size)),
    ("publisherId", .str f.publisherId),
    ("expiresAt", .num (.finite f.expiresAt))]

/-- The metadata of bytes, signed over the six fields. -/
def signedFields (p : Platform) (f : SignableContentFields) (createdAt : ℤ) : ContentMetadata where
  contentId := f.contentId
  name := f.name
  mimeType := f.mimeType
  size := f.size
  createdAt := createdAt
  publisherId := some f.publisherId
  signature := some (p.sign f.publisherId (p.stringify f.toJs))
  expiresAt := some f.expiresAt

/-- The moment at which a content of a lifetime expires. -/
def expiryOf (ttlMs : Option ℚ) (defaultTtlMs maxTtlMs : ℚ) (now : ℤ) : ℚ :=
  Box.roundedSum now (min (ttlMs.getD defaultTtlMs) maxTtlMs)

/-! ### Drops of the portal -/

/-- A drop as the portal passes it on: its numbers are finite. -/
structure PortalDrop where
  text : String
  lat : ℚ
  lon : ℚ
  label : Option String
  kind : DropKind
  expiresInMs : Option ℚ

/-- The same fields, as a node's own request. -/
def PortalDrop.request (d : PortalDrop) : Box.DropRequest where
  text := d.text
  lat := .finite d.lat
  lon := .finite d.lon
  label := d.label
  kind := d.kind
  expiresInMs := d.expiresInMs.map .finite
  createdAt := none

def PortalDrop.payload (d : PortalDrop) (now : ℤ) : DropPayload where
  text := d.text
  lat := d.lat
  lon := d.lon
  label := d.label
  kind := d.kind
  timestamp := now

def PortalDrop.expiresAt (d : PortalDrop) (now : ℤ) : ℚ :=
  expiryOf d.expiresInMs Box.defaultDropTtlMs Box.maxDropTtlMs now

structure SignedDrop where
  metadata : ContentMetadata
  data : Buffer
  priority : Priority

def signDrop (p : Platform) (nodeId : String) (drop : PortalDrop) (now : ℤ) : SignedDrop :=
  let data := p.stringify (drop.payload now).toJs
  let fields : SignableContentFields :=
    { contentId := computeContentId p data
      name := dropContentName
      mimeType := "application/json"
      size := data.length
      publisherId := nodeId
      expiresAt := drop.expiresAt now }
  { metadata := signedFields p fields now
    data
    priority := dropKindPriority drop.kind }

/-! ### Beacons of the phone and of a node -/

/-- What a caller passes; the phone takes the first four fields. -/
structure BeaconInput where
  message : Option String
  lat : Option JsNumber
  lon : Option JsNumber
  ttlMs : Option JsNumber

structure CheckedBeacon where
  message : Option String
  lat : Option ℚ
  lon : Option ℚ
  ttlMs : Option ℚ

/-- The fields of an input, where they are finite. -/
def BeaconInput.checked (input : BeaconInput) : CheckedBeacon where
  message := input.message
  lat := input.lat.bind fun v => (JsValue.num v).finite?
  lon := input.lon.bind fun v => (JsValue.num v).finite?
  ttlMs := input.ttlMs.bind fun v => (JsValue.num v).finite?

/-- An optional number that must be finite and pass a test. -/
def optionalNumber (v : Option JsNumber) (test : ℚ → Bool) (message : String) :
    Except String (Option ℚ) :=
  match v with
  | none => pure none
  | some v =>
    match (JsValue.num v).finite? with
    | some q => if test q then pure (some q) else throw message
    | none => throw message

/-- The checks of a beacon, in their order; `subject` and `origin` begin the
messages of the caller. -/
def checkBeacon (subject origin : String) (b : BeaconInput) : Except String CheckedBeacon := do
  if (b.message.any fun m => utf16Length m = 0 ∨ maxBeaconMessageLength < utf16Length m) then
    throw (subject ++ " message must be 1-4000 characters")
  let lat ← optionalNumber b.lat (fun q => -90 ≤ q ∧ q ≤ 90)
    (origin ++ " 'lat' must be a finite number in [-90, 90]")
  let lon ← optionalNumber b.lon (fun q => -180 ≤ q ∧ q ≤ 180)
    (origin ++ " 'lon' must be a finite number in [-180, 180]")
  let ttlMs ← optionalNumber b.ttlMs (fun q => 0 < q)
    (origin ++ " 'ttlMs' must be a finite positive number")
  return { message := b.message, lat, lon, ttlMs }

def CheckedBeacon.payload (b : CheckedBeacon) (now : ℤ) : EmergencyBeaconPayload where
  message := b.message
  lat := b.lat
  lon := b.lon
  timestamp := now

def defaultBeaconTtlMs : ℚ := 24 * 60 * 60 * 1000

def maxBeaconTtlMs : ℚ := 72 * 60 * 60 * 1000

def CheckedBeacon.expiresAt (b : CheckedBeacon) (now : ℤ) : ℚ :=
  expiryOf b.ttlMs defaultBeaconTtlMs maxBeaconTtlMs now

/-- A CONTENT_ANNOUNCE with the bytes inline. -/
structure AnnouncePacket where
  source : String
  ttl : JsNumber
  timestamp : ℤ
  priority : Priority
  metadata : ContentMetadata
  data : Buffer

/-- The packet of a beacon that passed the phone's checks. -/
def phoneBeacon (p : Platform) (nodeId : String) (b : CheckedBeacon) (now : ℤ) : AnnouncePacket :=
  let data := p.stringify (b.payload now).toJs
  let fields : SignableContentFields :=
    { contentId := computeContentId p data
      name := emergencyBeaconContentName
      mimeType := "application/json"
      size := data.length
      publisherId := nodeId
      expiresAt := b.expiresAt now }
  { source := nodeId
    ttl := defaultTtl
    timestamp := now
    priority := .emergency
    metadata := signedFields p fields now
    data }

def buildEmergencyBeaconPacket (p : Platform) (nodeId : String) (input : BeaconInput) (now : ℤ) :
    Except String AnnouncePacket := do
  let b ← checkBeacon "SOS" "SOS" input
  return phoneBeacon p nodeId b now

namespace BeaconNode

variable (p : Platform)

def maxEmergencyBeaconPerWindow : ℕ := 3

def emergencyBeaconRateLimitWindowMs : ℤ := 5 * 60 * 1000

/-- The bytes that a node publishes for a beacon, sealed if it has a key. -/
def beaconData (n : BeaconNode) (payload : EmergencyBeaconPayload) (nonce : Buffer) : Buffer :=
  match n.emergencyBeaconKey with
  | some key => p.stringify (beaconEnvelope (key.encrypt nonce (p.stringify payload.toJs)))
  | none => p.stringify payload.toJs

/-- The sighting that is returned, and the packet that is flooded. -/
def sendEmergencyBeacon (n : BeaconNode) (input : BeaconInput) (nonce : Buffer) (t : Readings) :
    BeaconNode × Except String (EmergencyBeaconSighting × AnnouncePacket) :=
  match checkBeacon "emergency beacon" "sendEmergencyBeacon:" input with
  | .error message => (n, .error message)
  | .ok b =>
    match n.emergencyBeaconWindow.tryConsume maxEmergencyBeaconPerWindow
        emergencyBeaconRateLimitWindowMs t.budget with
    | (window, false) =>
      ({ n with emergencyBeaconWindow := window },
        .error "sendEmergencyBeacon: too many emergency beacons, try again later")
    | (window, true) =>
      let n := { n with emergencyBeaconWindow := window }
      let payload := b.payload t.check
      let data := n.beaconData p payload nonce
      let options : Box.PublishOptions :=
        { ttlMs := some (min (b.ttlMs.getD defaultBeaconTtlMs) maxBeaconTtlMs)
          priority := some .emergency }
      match n.node.box.publishContent p emergencyBeaconContentName "application/json" data options t with
      | (_, .error message) => (n, .error message)
      | (box, .ok metadata) =>
        let found := box.contentStore.readLive metadata.contentId t.read
        let stored := (found.2.map StoredContent.data).getD data
        let packet : AnnouncePacket :=
          { source := box.nodeId
            ttl := defaultTtl
            timestamp := t.check
            priority := .emergency
            metadata
            data := stored }
        let sighting : EmergencyBeaconSighting :=
          { payload with
            beaconContentId := metadata.contentId
            deviceId := box.nodeId
            observedAt := t.observed
            receivedFrom := none }
        ({ n with
            node := { n.node with box := { box with contentStore := found.1 } }
            emergencyBeacons := n.emergencyBeacons.record sighting },
          .ok (sighting, packet))

end BeaconNode

/-! ### Standing -/

/-- A store scores two contents alike whenever it trusts their publishers alike
and counts both, or neither, among the unvetted urgent entries. -/
def RankedAlike (a b : StoredContent) : Prop :=
  ∀ (rank : String → ℤ) (s : ContentStore),
    rank (a.metadata.publisherId.getD "") = rank (b.metadata.publisherId.getD "") →
    s.unvettedElevatedContentIds.contains a.metadata.contentId =
      s.unvettedElevatedContentIds.contains b.metadata.contentId →
    s.pickEvictionScore rank a.metadata.contentId a = s.pickEvictionScore rank b.metadata.contentId b

inductive Origin where
  | drop (d : PortalDrop)
  | beacon (input : BeaconInput)

/-- How a packet or a submission arrives, and the nonce of the node's own beacon. -/
structure Receipt where
  fromPeerId : String
  waiter : ℕ
  nonce : Buffer
  t : Readings

section
variable (p : Platform) (nodeId : String) (now : ℤ)

/-- The portal's submission of a drop, against the node's own drop with the same
fields and at the same moment. -/
def SameDropStanding (b : Box) (d : PortalDrop) (t : Readings) : Prop :=
  let submission := signDrop p nodeId d now
  let received := b.ingestSignedContent p submission.metadata submission.data
    { announce := true, priority := some submission.priority } t
  let own := b.publishDrop p d.request (.const now)
  ∃ (record : Drop) (mine theirs : Publication),
    own.2 = .ok record ∧ own.1.publications = b.publications ++ [mine] ∧
    received.2 = .accepted ∧ received.1.publications = b.publications ++ [theirs] ∧
    received.1.drops = b.drops.record b.authorTrust
      { record with
        dropId := submission.metadata.contentId
        author := nodeId
        observedAt := t.observed } ∧
    theirs.announcedAt = mine.announcedAt ∧
    received.1.contentStore.items.get? submission.metadata.contentId =
      some ⟨theirs.metadata, theirs.data⟩ ∧
    RankedAlike ⟨theirs.metadata, theirs.data⟩ ⟨mine.metadata, mine.data⟩

/-- The node stores the packet of a beacon, records the sighting it would record
of its own beacon, and forwards it as urgently. -/
def SameBeaconReceipt (n : BeaconNode) (a : Receipt) (packet : AnnouncePacket)
    (sighting : EmergencyBeaconSighting) (own : AnnouncePacket) : Prop :=
  let received := n.handleContentAnnounce p packet.metadata (some packet.data) a.fromPeerId a.waiter a.t
  received.node.contentStore.items.get? packet.metadata.contentId =
      some ⟨packet.metadata, packet.data⟩ ∧
    received.emergencyBeacons = n.emergencyBeacons.record
      { sighting with
        beaconContentId := packet.metadata.contentId
        deviceId := nodeId
        observedAt := a.t.observed
        receivedFrom := if a.fromPeerId ≠ nodeId then some a.fromPeerId else none } ∧
    packet.priority = own.priority

/-- The phone's packet of a beacon, against the node's own beacon with the same
fields and at the same moment. -/
def SameBeaconStanding (n : BeaconNode) (input : BeaconInput) (a : Receipt) : Prop :=
  ∃ packet sighting own,
    buildEmergencyBeaconPacket p nodeId input now = .ok packet ∧
    (n.sendEmergencyBeacon p input a.nonce (.const now)).2 = .ok (sighting, own) ∧
    SameBeaconReceipt p nodeId n a packet sighting own ∧
    RankedAlike ⟨packet.metadata, packet.data⟩ ⟨own.metadata, own.data⟩

def SameStanding (n : BeaconNode) (a : Receipt) : Origin → Prop
  | .drop d => SameDropStanding p nodeId now n.node.box d a.t
  | .beacon input => SameBeaconStanding p nodeId now n input a

/-- The object whose text an originator publishes. -/
def Origin.toJs : Origin → JsValue
  | .drop d => (d.payload now).toJs
  | .beacon input => (input.checked.payload now).toJs

/-- The input passes the checks of its originator. -/
def Origin.Accepted : Origin → Prop
  | .drop d => ∃ r, Box.checkDropRequest d.request = .ok r
  | .beacon input => ∃ packet, buildEmergencyBeaconPacket p nodeId input now = .ok packet

/-- A content arrives, and is built, before it expires. -/
def arrivesAlive (expiresAt : ℚ) (t : Readings) : Prop :=
  now < expiresAt ∧ t.check < expiresAt ∧ t.store < expiresAt ∧ t.read < expiresAt

/-- The input is an informational drop, and the node has room for it. -/
def Origin.routine (n : BeaconNode) (t : Readings) : Origin → Prop
  | .drop d =>
    d.kind = .info ∧ (n.node.box.allowCaller (some nodeId) t.limiter).2 = true ∧
      arrivesAlive now (d.expiresAt now) t ∧ 0 < n.node.box.contentStore.items.maxSize
  | .beacon _ => False

end

/-! ### Ranks -/

/-- Contents rank alike exactly when they claim the same urgency. -/
theorem rankedAlike_iff {a b : StoredContent} :
    RankedAlike a b ↔ a.metadata.urgency = b.metadata.urgency := by
  constructor
  · intro h
    -- Under a vetted publisher the score is the urgency.
    have hscore := h (fun _ => 4) (.create 0) rfl rfl
    simp only [ContentStore.pickEvictionScore, ContentStore.isUnvettedTrust,
      ContentStore.unvettedTrustCeiling, ContentStore.priorityTierSpread] at hscore
    have hnat : a.metadata.urgency.toNat = b.metadata.urgency.toNat := by
      have := WithTop.coe_injective hscore
      simp at this
      omega
    exact Priority.toNat_injective hnat
  · intro h rank s htrust hbudget
    simp only [ContentStore.pickEvictionScore, ContentStore.isElevated, h, htrust, hbudget]
    rfl

/-! ### The signatures of the copies -/

section
variable {p : Platform} {f : SignableContentFields} {createdAt : ℤ}

/-- What is undefined in the node's format is missing in the copies. -/
theorem contentSigningPayload_signedFields (hskip : p.SkipsUndefined) :
    contentSigningPayload p (signedFields p f createdAt) = p.stringify f.toJs := by
  rw [contentSigningPayload, SignableContentFields.toJs, hskip, hskip [_, _, _, _, _, _]]
  rfl

theorem verifyContentSignature_signedFields (hskip : p.SkipsUndefined)
    (hsign : p.SignsFor f.publisherId) :
    verifyContentSignature p (signedFields p f createdAt) = true := by
  obtain ⟨hid, hkey⟩ := hsign
  obtain ⟨hne, hverify⟩ := hkey (p.stringify f.toJs)
  rw [verifyContentSignature]
  simp only [contentSigningPayload_signedFields hskip]
  simp [signedFields, hid, hne, hverify]

@[simp] theorem urgency_signedFields : (signedFields p f createdAt).urgency = .content := rfl

@[simp] theorem expired_signedFields {now : ℤ} :
    (signedFields p f createdAt).expired now = decide (f.expiresAt ≤ now) := rfl

theorem verifies_signedFields (hskip : p.SkipsUndefined) (hsign : p.SignsFor f.publisherId)
    {data : Buffer} (hid : f.contentId = computeContentId p data) (now : ℤ) :
    ContentStore.verifies p (signedFields p f createdAt) data now = decide (now < f.expiresAt) := by
  have hcontent : (signedFields p f createdAt).contentId = computeContentId p data := hid
  have hplain : (signedFields p f createdAt).encoding = none := rfl
  rw [Bool.eq_iff_iff]
  simp [ContentStore.verifies, verifyContentSignature_signedFields hskip hsign, hcontent, hplain]

end

/-! ### What the bytes of a copy say -/

def DropPayload.WithinBounds (d : DropPayload) : Prop :=
  (0 < utf16Length d.text ∧ utf16Length d.text ≤ maxMessageTextLength) ∧
    (-90 ≤ d.lat ∧ d.lat ≤ 90) ∧ (-180 ≤ d.lon ∧ d.lon ≤ 180) ∧
    ∀ l, d.label = some l → 0 < utf16Length l ∧ utf16Length l ≤ maxDropLabelLength

theorem DropPayload.extract_toJs {d : DropPayload} (h : d.WithinBounds) :
    extractDropPayload d.toJs = some d := by
  obtain ⟨htext, hlat, hlon, hlabel⟩ := h
  obtain ⟨text, lat, lon, label, kind, timestamp⟩ := d
  cases label with
  | none =>
    simp_all [extractDropPayload, DropPayload.toJs, JsValue.prop, JsValue.isObject, boundedText?, within?,
      optional?, JsValue.string?, JsValue.finite?, JsValue.ofString, JsValue.isUndefined, Option.filter]
  | some l =>
    simp_all [extractDropPayload, DropPayload.toJs, JsValue.prop, JsValue.isObject, boundedText?, within?,
      optional?, JsValue.string?, JsValue.finite?, JsValue.ofString, JsValue.isUndefined, Option.filter]

theorem extractDropPayload_congr {v w : JsValue} (hobj : w.isObject = v.isObject)
    (hprop : ∀ name, w.prop name = v.prop name) : extractDropPayload w = extractDropPayload v := by
  simp only [extractDropPayload, hobj, hprop]

def PortalDrop.checked (d : PortalDrop) : Box.CheckedDropRequest where
  text := d.text
  lat := d.lat
  lon := d.lon
  label := d.label
  kind := d.kind
  expiresInMs := d.expiresInMs
  createdAt := none

theorem Box.finiteWithin?_finite (low high q : ℚ) :
    Box.finiteWithin? low high (.finite q) = if low ≤ q ∧ q ≤ high then some q else none := by
  simp [Box.finiteWithin?, within?, JsValue.finite?, Option.filter]

/-- The node's checks are the bounds, and change nothing. -/
theorem PortalDrop.checkDropRequest_request {d : PortalDrop} {r : Box.CheckedDropRequest}
    (h : Box.checkDropRequest d.request = .ok r) (now : ℤ) :
    r = d.checked ∧ (d.payload now).WithinBounds := by
  have hlatitude : Box.finiteWithin? (-90) 90 d.request.lat = _ := Box.finiteWithin?_finite _ _ d.lat
  have hlongitude : Box.finiteWithin? (-180) 180 d.request.lon = _ := Box.finiteWithin?_finite _ _ d.lon
  unfold Box.checkDropRequest at h
  rw [hlatitude, hlongitude] at h
  by_cases htext : utf16Length d.request.text = 0 ∨ maxMessageTextLength < utf16Length d.request.text
  · rw [if_pos htext] at h
    cases h
  rw [if_neg htext] at h
  by_cases hlat : -90 ≤ d.lat ∧ d.lat ≤ 90
  swap
  · rw [if_neg hlat] at h
    cases h
  rw [if_pos hlat] at h
  by_cases hlon : -180 ≤ d.lon ∧ d.lon ≤ 180
  swap
  · rw [if_neg hlon] at h
    cases h
  rw [if_pos hlon] at h
  dsimp only at h
  by_cases hlabel : (d.request.label.any fun l =>
      utf16Length l = 0 ∨ maxDropLabelLength < utf16Length l) = true
  · rw [if_pos hlabel] at h
    cases h
  rw [if_neg hlabel] at h
  have hlength : 0 < utf16Length d.text ∧ utf16Length d.text ≤ maxMessageTextLength := by
    simp only [PortalDrop.request] at htext
    omega
  have hlabels : ∀ l, d.label = some l → 0 < utf16Length l ∧ utf16Length l ≤ maxDropLabelLength := by
    intro l hl
    simp only [PortalDrop.request, hl, Option.any_some, decide_eq_true_eq] at hlabel
    omega
  refine ⟨?_, hlength, hlat, hlon, hlabels⟩
  obtain ⟨text, lat, lon, label, kind, expiresInMs⟩ := d
  cases expiresInMs with
  | none =>
    cases h
    rfl
  | some q =>
    by_cases hpos : 0 < q
    · simp only [PortalDrop.request, Option.map_some, JsValue.finite?, if_pos hpos] at h
      cases h
      rfl
    · simp only [PortalDrop.request, Option.map_some, JsValue.finite?, if_neg hpos] at h
      cases h

section
variable {p : Platform} {nodeId : String} {now : ℤ} {d : PortalDrop}

theorem readDrop_signDrop (hback : p.ReadsBack (d.payload now).toJs)
    (hbounds : (d.payload now).WithinBounds) :
    readDrop p (signDrop p nodeId d now).data = some (d.payload now) := by
  obtain ⟨-, w, hparse, hobject, hprop⟩ := hback
  have hextract : extractDropPayload w = some (d.payload now) := by
    rw [extractDropPayload_congr (v := (d.payload now).toJs) hobject hprop,
      DropPayload.extract_toJs hbounds]
  rw [readDrop, signDrop]
  dsimp only
  rw [hparse]
  exact hextract

theorem publisher?_signDrop (hid : nodeId ≠ "") :
    (signDrop p nodeId d now).metadata.publisher? = some nodeId := by
  simp [signDrop, signedFields, ContentMetadata.publisher?, Option.filter, hid]

theorem verifies_signDrop (hskip : p.SkipsUndefined) (hsign : p.SignsFor nodeId) (at' : ℤ) :
    ContentStore.verifies p (signDrop p nodeId d now).metadata (signDrop p nodeId d now).data at' =
      decide (at' < d.expiresAt now) :=
  verifies_signedFields hskip hsign rfl at'

theorem preVerified_signDrop (hskip : p.SkipsUndefined) (hsign : p.SignsFor nodeId) (at' : ℤ) :
    Box.preVerified p (signDrop p nodeId d now).metadata (signDrop p nodeId d now).data at' =
      decide (at' < d.expiresAt now) := by
  rw [← verifies_signDrop hskip hsign at', ContentStore.verifies]
  simp [Box.preVerified, signDrop, signedFields]

end

theorem ContentStore.maxSize_readLive (s : ContentStore) (contentId : String) (now : ℤ) :
    (s.readLive contentId now).1.items.maxSize = s.items.maxSize := by
  unfold ContentStore.readLive
  split
  · split_ifs <;> rfl
  · rfl

/-! ### What a node does with a submission -/

namespace Box

variable {p : Platform} {b : Box} {metadata : ContentMetadata} {data : Buffer} {t : Readings}

/-- A drop of a publisher is looked up in the store once. -/
theorem contentStore_considerDrop {publisherId : String} (fromPeerId : String)
    (hname : metadata.name = dropContentName) (hpublisher : metadata.publisher? = some publisherId) :
    (b.considerDrop p metadata fromPeerId t).contentStore =
      (b.contentStore.readLive metadata.contentId t.read).1 := by
  rw [considerDrop, if_neg (by simpa using hname), hpublisher]
  dsimp only
  split <;> rfl

/-- A stored drop of a publisher is recorded. -/
theorem considerDrop_of_stored {publisherId fromPeerId : String} {item : StoredContent} {payload : DropPayload}
    (hname : metadata.name = dropContentName) (hpublisher : metadata.publisher? = some publisherId)
    (hread : b.contentStore.readLive metadata.contentId t.read = (b.contentStore, some item))
    (hpayload : (decodeStoredContent p item.metadata item.data).bind (readDrop p) = some payload) :
    b.considerDrop p metadata fromPeerId t =
      { b with
        drops := b.drops.record b.authorTrust
          { payload with
            dropId := metadata.contentId
            author := publisherId
            expiresAt := metadata.expiresAt
            receivedFrom := if fromPeerId ≠ publisherId then some fromPeerId else none
            observedAt := t.observed } } := by
  rw [considerDrop, if_neg (by simpa using hname), hpublisher]
  dsimp only
  rw [hread]
  dsimp only
  rw [Option.bind_some, hpayload]

/-- A submission that is accepted passed every check, and reached the store. -/
theorem ingestSignedContent_accepted {options : IngestOptions}
    (h : (b.ingestSignedContent p metadata data options t).2 = .accepted) :
    (b.allowCaller metadata.publisher? t.limiter).2 = true ∧
      preVerified p metadata data t.check = true ∧
      ContentStore.verifies p metadata data t.store = true ∧
      ∃ limiter window announcedAt, b.ingestSignedContent p metadata data options t =
        ({ b with ingestRateLimiter := limiter, elevatedDropWindow := window } : Box).storeAndAnnounce
          p metadata data announcedAt t := by
  unfold ingestSignedContent at h ⊢
  cases hallow : b.allowCaller metadata.publisher? t.limiter with
  | mk b₁ ok =>
    obtain ⟨limiter, rfl⟩ := allowCaller_frame hallow
    rw [hallow] at h
    cases ok with
    | false => cases h
    | true =>
      dsimp only at h ⊢
      cases hpre : preVerified p metadata data t.check with
      | false =>
        rw [hpre] at h
        cases h
      | true =>
        rw [hpre, Bool.not_true, if_neg Bool.false_ne_true] at h
        rw [Bool.not_true, if_neg Bool.false_ne_true]
        cases hclassify : ({ b with ingestRateLimiter := limiter } : Box).classify
            (wireDrop p metadata data) options.priority t.budget with
        | mk b₂ announced =>
          obtain ⟨window, rfl⟩ := classify_frame hclassify
          rw [hclassify] at h
          cases announced with
          | none => cases h
          | some priority =>
            dsimp only at h ⊢
            cases hverifies : ContentStore.verifies p metadata data t.store with
            | false =>
              rw [storeAndAnnounce_of_not_verifies _ hverifies] at h
              cases h
            | true => exact ⟨rfl, rfl, rfl, limiter, window, _, rfl⟩

/-- A submission without an elevated drop that passes the checks is stored. -/
theorem ingestSignedContent_of_not_elevated (options : IngestOptions)
    (hallow : (b.allowCaller metadata.publisher? t.limiter).2 = true)
    (hpre : preVerified p metadata data t.check = true)
    (hplain : isElevated (wireDrop p metadata data) = false) :
    ∃ limiter, b.ingestSignedContent p metadata data options t =
      ({ b with ingestRateLimiter := limiter } : Box).storeAndAnnounce p metadata data
        (if options.announce then
          some (announcePriority (wireDrop p metadata data) options.priority) else none) t := by
  unfold ingestSignedContent
  cases hcall : b.allowCaller metadata.publisher? t.limiter with
  | mk b₁ ok =>
    obtain ⟨limiter, rfl⟩ := allowCaller_frame hcall
    rw [hcall] at hallow
    dsimp only at hallow
    subst hallow
    refine ⟨limiter, ?_⟩
    dsimp only
    rw [hpre, Bool.not_true, if_neg Bool.false_ne_true, classify_of_not_elevated _ _ hplain]

/-- What the store-and-announce step leaves of a verified drop. -/
theorem storeAndAnnounce_drop {publisherId : String} {payload : DropPayload} (announcedAt : Option Priority)
    (hverifies : ContentStore.verifies p metadata data t.store = true)
    (hname : metadata.name = dropContentName) (hpublisher : metadata.publisher? = some publisherId)
    (hlive : metadata.expired t.read = false) (hroom : 0 < b.contentStore.items.maxSize)
    (hpayload : (decodeStoredContent p metadata data).bind (readDrop p) = some payload) :
    b.storeAndAnnounce p metadata data announcedAt t =
      ({ b with
          contentStore := b.contentStore.insert b.publisherTrust metadata data
          publications :=
            b.publications ++ [⟨metadata, data, announcedAt, b.elevatedDropWindow.windowStart⟩]
          drops := b.drops.record b.authorTrust
            { payload with
              dropId := metadata.contentId
              author := publisherId
              expiresAt := metadata.expiresAt
              receivedFrom := none
              observedAt := t.observed } }, .accepted) := by
  have hget : (b.contentStore.insert b.publisherTrust metadata data).items.get? metadata.contentId =
      some ⟨metadata, data⟩ := BoundedFifoMap.get?_set_self _ _ _ hroom
  have hread : (b.contentStore.insert b.publisherTrust metadata data).readLive metadata.contentId t.read =
      _ := ContentStore.readLive_of_live hget hlive
  have hid : metadata.publisherId.getD "" = publisherId := by
    have hsome := (Option.filter_eq_some_iff.mp hpublisher).1
    rw [hsome, Option.getD_some]
  unfold storeAndAnnounce
  rw [ContentStore.putVerified_of_verifies hverifies]
  dsimp only
  rw [hid, considerDrop_of_stored hname hpublisher hread hpayload, if_neg (not_not.mpr rfl)]
  rfl

/-! ### The node's own content -/

theorem verifyContentSignature_ownMetadata (hsign : p.SignsFor b.nodeId) (name mimeType : String)
    (c : CompressedForTransfer) (options : PublishOptions) (now : ℤ) :
    verifyContentSignature p (b.ownMetadata p name mimeType c options now) = true := by
  obtain ⟨hid, hkey⟩ := hsign
  obtain ⟨hne, hverify⟩ := hkey (contentSigningPayload p (b.ownMetadata p name mimeType c options now))
  simp only [verifyContentSignature, ownMetadata, Bool.and_eq_true, decide_eq_true_eq]
  exact ⟨⟨hid, hne⟩, hverify⟩

/-- What a node has just signed passes the checks of its store until it expires,
unless it cannot be decoded any more. -/
theorem verifies_ownMetadata_eq (hsign : p.SignsFor b.nodeId) (hzstd : p.ZstdInverts)
    (name mimeType : String) (options : PublishOptions) (now at' : ℤ) :
    ContentStore.verifies p (b.ownMetadata p name mimeType (compressForTransfer p data) options now)
      (compressForTransfer p data).data at' =
        (!(b.ownMetadata p name mimeType (compressForTransfer p data) options now).expired at' &&
          !beyondCeiling p data) := by
  have hdecodes : ((b.ownMetadata p name mimeType (compressForTransfer p data) options now).encoding.isNone ||
      (decodeStoredContent p (b.ownMetadata p name mimeType (compressForTransfer p data) options now)
        (compressForTransfer p data).data).isSome) = !beyondCeiling p data := by
    rw [decode_compressForTransfer_eq hzstd rfl rfl]
    cases hlong : beyondCeiling p data with
    | false => simp
    | true =>
      have hzip : (compressForTransfer p data).encoding.isSome = true := (Bool.and_eq_true_iff.mp hlong).1
      rw [ownMetadata, ← Option.not_isSome, hzip]
      rfl
  rw [ContentStore.verifies, hdecodes, verifyContentSignature_ownMetadata hsign, Bool.and_true]
  simp [ownMetadata]

theorem verifies_ownMetadata (hsign : p.SignsFor b.nodeId) (hzstd : p.ZstdInverts)
    (hshort : (data.length : ℚ) ≤ maxDecompressedContentBytes) (name mimeType : String)
    (options : PublishOptions) (now at' : ℤ) :
    ContentStore.verifies p (b.ownMetadata p name mimeType (compressForTransfer p data) options now)
      (compressForTransfer p data).data at' =
        !(b.ownMetadata p name mimeType (compressForTransfer p data) options now).expired at' := by
  have hwithin : beyondCeiling p data = false := by simp [beyondCeiling, not_lt.mpr hshort]
  rw [verifies_ownMetadata_eq hsign hzstd, hwithin, Bool.not_false, Bool.and_true]

theorem publishContent_of_verifies {name mimeType : String} {options : PublishOptions}
    (h : ContentStore.verifies p (b.ownMetadata p name mimeType (compressForTransfer p data) options t.check)
      (compressForTransfer p data).data t.store = true) :
    b.publishContent p name mimeType data options t =
      (({ b with
            contentStore := b.contentStore.insert b.publisherTrust
              (b.ownMetadata p name mimeType (compressForTransfer p data) options t.check)
              (compressForTransfer p data).data } : Box).publish
          (b.ownMetadata p name mimeType (compressForTransfer p data) options t.check)
          (compressForTransfer p data).data
          (if options.announce then some (options.priority.getD .content) else none),
        .ok (b.ownMetadata p name mimeType (compressForTransfer p data) options t.check)) := by
  unfold publishContent
  dsimp only
  rw [ContentStore.putVerified_of_verifies h]

theorem verifies_of_publishContent {name mimeType : String} {options : PublishOptions}
    {metadata : ContentMetadata}
    (h : (b.publishContent p name mimeType data options t).2 = .ok metadata) :
    ContentStore.verifies p (b.ownMetadata p name mimeType (compressForTransfer p data) options t.check)
      (compressForTransfer p data).data t.store = true := by
  by_contra hnot
  unfold publishContent at h
  dsimp only at h
  rw [ContentStore.putVerified_of_not_verifies (Bool.eq_false_of_not_eq_true hnot)] at h
  cases h

theorem publishContent_ok {name mimeType : String} {options : PublishOptions} {b' : Box}
    (h : b.publishContent p name mimeType data options t = (b', .ok metadata)) :
    metadata = b.ownMetadata p name mimeType (compressForTransfer p data) options t.check ∧
      b'.nodeId = b.nodeId := by
  rw [publishContent_of_verifies (verifies_of_publishContent (congrArg Prod.snd h))] at h
  obtain ⟨rfl, hok⟩ := Prod.ext_iff.mp h
  exact ⟨(Except.ok.inj hok).symm, rfl⟩

section
variable {d : PortalDrop} {now : ℤ} {record : Drop}

/-- The options under which a node publishes a drop. -/
def dropOptions (d : PortalDrop) : PublishOptions where
  ttlMs := some (min (d.expiresInMs.getD defaultDropTtlMs) maxDropTtlMs)
  announce := true
  priority := some (dropKindPriority d.kind)

/-- The metadata of the node's own drop with the same fields. -/
def ownDrop (p : Platform) (b : Box) (d : PortalDrop) (now : ℤ) : ContentMetadata :=
  b.ownMetadata p dropContentName "application/json"
    (compressForTransfer p (p.stringify (d.payload now).toJs)) (dropOptions d) now

theorem urgency_ownDrop : (b.ownDrop p d now).urgency = dropKindPriority d.kind := by
  simp only [ownDrop, ownMetadata, dropOptions, ContentMetadata.urgency]
  cases d.kind <;> rfl

theorem verifies_ownDrop (hsign : p.SignsFor b.nodeId) (hzstd : p.ZstdInverts)
    (hback : p.ReadsBack (d.payload now).toJs) (at' : ℤ) :
    ContentStore.verifies p (b.ownDrop p d now)
      (compressForTransfer p (p.stringify (d.payload now).toJs)).data at' =
        decide (at' < d.expiresAt now) := by
  have hexpired : (b.ownDrop p d now).expired at' = decide (d.expiresAt now ≤ at') := rfl
  rw [ownDrop, verifies_ownMetadata hsign hzstd hback.1, ← ownDrop, hexpired, Bool.eq_iff_iff]
  simp

/-- What `publishDrop` does with a drop that passes the checks. -/
theorem publishDrop_request (hcheck : checkDropRequest d.request = .ok d.checked) :
    b.publishDrop p d.request (.const now) =
      match b.chargeDrop d.kind now with
      | (b, false) => (b, .error "publishDrop: too many high-priority drops, try again later")
      | (b, true) =>
        match b.publishContent p dropContentName "application/json"
            (p.stringify (d.payload now).toJs) (dropOptions d) (.const now) with
        | (b, .error message) => (b, .error message)
        | (b, .ok metadata) =>
          let drop : Drop :=
            { d.payload now with
              dropId := metadata.contentId
              author := b.nodeId
              expiresAt := metadata.expiresAt
              receivedFrom := none
              observedAt := now }
          ({ b with drops := b.drops.record b.authorTrust drop }, .ok drop) := by
  rw [publishDrop, hcheck]
  rfl

theorem publishContent_ownDrop {b' : Box} {metadata : ContentMetadata}
    (h : b.publishContent p dropContentName "application/json" (p.stringify (d.payload now).toJs)
      (dropOptions d) (.const now) = (b', .ok metadata)) :
    ContentStore.verifies p (b.ownDrop p d now)
        (compressForTransfer p (p.stringify (d.payload now).toJs)).data now = true ∧
      b'.publications = b.publications ++
        [⟨b.ownDrop p d now, (compressForTransfer p (p.stringify (d.payload now).toJs)).data,
          some (dropKindPriority d.kind), b.elevatedDropWindow.windowStart⟩] := by
  have hverifies := verifies_of_publishContent (congrArg Prod.snd h)
  rw [publishContent_of_verifies hverifies] at h
  obtain rfl := congrArg Prod.fst h
  exact ⟨hverifies, rfl⟩

/-- A drop that was published is announced at the priority of its kind. -/
theorem publishDrop_ok (hcheck : checkDropRequest d.request = .ok d.checked)
    (h : (b.publishDrop p d.request (.const now)).2 = .ok record) :
    ContentStore.verifies p (b.ownDrop p d now)
        (compressForTransfer p (p.stringify (d.payload now).toJs)).data now = true ∧
      ∃ start, (b.publishDrop p d.request (.const now)).1.publications = b.publications ++
        [⟨b.ownDrop p d now, (compressForTransfer p (p.stringify (d.payload now).toJs)).data,
          some (dropKindPriority d.kind), start⟩] := by
  rw [publishDrop_request hcheck] at h ⊢
  cases hcharge : b.chargeDrop d.kind now with
  | mk b₁ ok =>
    have hsame : b₁.ownDrop p d now = b.ownDrop p d now ∧ b₁.publications = b.publications := by
      obtain ⟨window, rfl⟩ := chargeDrop_frame hcharge
      exact ⟨rfl, rfl⟩
    rw [hcharge] at h
    cases ok with
    | false => cases h
    | true =>
      cases hpublish : b₁.publishContent p dropContentName "application/json"
          (p.stringify (d.payload now).toJs) (dropOptions d) (.const now) with
      | mk b₂ result =>
        dsimp only at h ⊢
        rw [hpublish] at h
        cases result with
        | error message => cases h
        | ok metadata =>
          obtain ⟨hverifies, hpubs⟩ := publishContent_ownDrop hpublish
          rw [hsame.1] at hverifies
          rw [hsame.1, hsame.2] at hpubs
          rw [hpublish]
          exact ⟨hverifies, _, hpubs⟩

theorem publishContent_of_verifies_ownDrop
    (h : ContentStore.verifies p (b.ownDrop p d now)
      (compressForTransfer p (p.stringify (d.payload now).toJs)).data now = true) :
    ∃ b', b.publishContent p dropContentName "application/json" (p.stringify (d.payload now).toJs)
        (dropOptions d) (.const now) = (b', .ok (b.ownDrop p d now)) ∧ b'.nodeId = b.nodeId :=
  ⟨_, publishContent_of_verifies h, rfl⟩

/-- An informational drop is published, and recorded, whenever it verifies. -/
theorem publishDrop_info (hcheck : checkDropRequest d.request = .ok d.checked) (hinfo : d.kind = .info)
    (hverifies : ContentStore.verifies p (b.ownDrop p d now)
      (compressForTransfer p (p.stringify (d.payload now).toJs)).data now = true) :
    (b.publishDrop p d.request (.const now)).2 = .ok
      { d.payload now with
        dropId := (b.ownDrop p d now).contentId
        author := b.nodeId
        expiresAt := (b.ownDrop p d now).expiresAt
        receivedFrom := none
        observedAt := now } := by
  obtain ⟨b', hpublish⟩ := publishContent_of_verifies_ownDrop hverifies
  rw [publishDrop_request hcheck, chargeDrop_of_info now hinfo]
  dsimp only
  rw [hpublish.1]
  dsimp only
  rw [hpublish.2]

end

/-- A drop that is in the store after its submission did not expire before it was read. -/
theorem live_of_stored {publisherId : String} {item : StoredContent} (announcedAt : Option Priority)
    (hverifies : ContentStore.verifies p metadata data t.store = true)
    (hname : metadata.name = dropContentName) (hpublisher : metadata.publisher? = some publisherId)
    (h : (b.storeAndAnnounce p metadata data announcedAt t).1.contentStore.items.get?
      metadata.contentId = some item) :
    metadata.expired t.read = false ∧ 0 < b.contentStore.items.maxSize := by
  unfold storeAndAnnounce at h
  rw [ContentStore.putVerified_of_verifies hverifies] at h
  dsimp only at h
  rw [contentStore_considerDrop _ hname hpublisher] at h
  change (((b.contentStore.insert b.publisherTrust metadata data).readLive metadata.contentId
    t.read).1.items.get? metadata.contentId) = some item at h
  have hroom : 0 < b.contentStore.items.maxSize := by
    have hpos := BoundedFifoMap.maxSize_pos_of_get? h
    rwa [ContentStore.maxSize_readLive, ContentStore.insert, BoundedFifoMap.maxSize_set] at hpos
  refine ⟨Bool.eq_false_iff.mpr fun hexpired => ?_, hroom⟩
  have hget : (b.contentStore.insert b.publisherTrust metadata data).items.get? metadata.contentId =
      some ⟨metadata, data⟩ := BoundedFifoMap.get?_set_self _ _ _ hroom
  rw [ContentStore.readLive, hget] at h
  dsimp only at h
  rw [if_pos hexpired, BoundedFifoMap.get?_delete, if_pos rfl] at h
  cases h

end Box

section
variable {p : Platform} {nodeId : String} {now : ℤ} {b : Box} {d : PortalDrop} {t : Readings}

/-- Exactly the informational drops keep the standing of the node's own. -/
theorem sameDropStanding_iff (hskip : p.SkipsUndefined) (hzstd : p.ZstdInverts)
    (hsign : p.SignsFor nodeId) (hown : p.SignsFor b.nodeId)
    (hback : p.ReadsBack (d.payload now).toJs) {r : Box.CheckedDropRequest}
    (hcheck : Box.checkDropRequest d.request = .ok r) :
    SameDropStanding p nodeId now b d t ↔
      d.kind = .info ∧ (b.allowCaller (some nodeId) t.limiter).2 = true ∧
        arrivesAlive now (d.expiresAt now) t ∧ 0 < b.contentStore.items.maxSize := by
  obtain ⟨rfl, hbounds⟩ := PortalDrop.checkDropRequest_request hcheck now
  have hpublisher : (signDrop p nodeId d now).metadata.publisher? = some nodeId :=
    publisher?_signDrop hsign.1
  have hname : (signDrop p nodeId d now).metadata.name = dropContentName := rfl
  have hexpired : (signDrop p nodeId d now).metadata.expired t.read =
      decide (d.expiresAt now ≤ t.read) := rfl
  constructor
  · rintro ⟨record, mine, theirs, hok, hmine, haccepted, htheirs, -, -, hstored, hrank⟩
    obtain ⟨halive, start, hpubs⟩ := Box.publishDrop_ok hcheck hok
    obtain ⟨hallow, hpre, hverifies, limiter, window, announcedAt, heq⟩ :=
      Box.ingestSignedContent_accepted haccepted
    have hmine' := List.singleton_inj.mp (List.append_cancel_left (hmine.symm.trans hpubs))
    rw [heq] at htheirs hstored
    have htheirs' := List.singleton_inj.mp (List.append_cancel_left
      (htheirs.symm.trans (Box.storeAndAnnounce_of_verifies announcedAt hverifies).2.2))
    have hurgency : Priority.content = dropKindPriority d.kind := by
      have hsame := rankedAlike_iff.mp hrank
      rw [htheirs', hmine'] at hsame
      exact hsame.trans Box.urgency_ownDrop
    have hinfo : d.kind = .info := dropKindPriority_injective hurgency.symm
    obtain ⟨hlive, hroom⟩ := Box.live_of_stored announcedAt hverifies hname hpublisher hstored
    rw [hpublisher] at hallow
    rw [Box.verifies_ownDrop hown hzstd hback] at halive
    rw [preVerified_signDrop hskip hsign] at hpre
    rw [verifies_signDrop hskip hsign] at hverifies
    rw [hexpired] at hlive
    exact ⟨hinfo, hallow, ⟨of_decide_eq_true halive, of_decide_eq_true hpre,
      of_decide_eq_true hverifies, not_le.mp (of_decide_eq_false hlive)⟩, hroom⟩
  · rintro ⟨hinfo, hallow, ⟨hnow, hchecked, hstore, hread⟩, hroom⟩
    have hown' : ContentStore.verifies p (b.ownDrop p d now)
        (compressForTransfer p (p.stringify (d.payload now).toJs)).data now = true := by
      rw [Box.verifies_ownDrop hown hzstd hback]
      exact decide_eq_true hnow
    have hok := Box.publishDrop_info hcheck hinfo hown'
    obtain ⟨-, start, hpubs⟩ := Box.publishDrop_ok hcheck hok
    have hwire : Box.wireDrop p (signDrop p nodeId d now).metadata (signDrop p nodeId d now).data =
        some (d.payload now) := by
      rw [Box.wireDrop, if_pos hname, readDrop_signDrop hback hbounds]
    have hplain : Box.isElevated (Box.wireDrop p (signDrop p nodeId d now).metadata
        (signDrop p nodeId d now).data) = false := by
      simp [hwire, Box.isElevated, PortalDrop.payload, hinfo]
    have hallow' : (b.allowCaller (signDrop p nodeId d now).metadata.publisher? t.limiter).2 = true := by
      rwa [hpublisher]
    have hpre := (preVerified_signDrop hskip hsign t.check).trans (decide_eq_true hchecked)
    have hverifies := (verifies_signDrop hskip hsign t.store).trans (decide_eq_true hstore)
    have hlive := hexpired.trans (decide_eq_false (not_le.mpr hread))
    have hpayload : (decodeStoredContent p (signDrop p nodeId d now).metadata
        (signDrop p nodeId d now).data).bind (readDrop p) = some (d.payload now) := by
      rw [decodeStoredContent_of_plain p _ rfl]
      exact readDrop_signDrop hback hbounds
    obtain ⟨limiter, heq⟩ := Box.ingestSignedContent_of_not_elevated
      { announce := true, priority := some (signDrop p nodeId d now).priority } hallow' hpre hplain
    have hfinal := heq.trans
      (Box.storeAndAnnounce_drop _ hverifies hname hpublisher hlive (by exact hroom) hpayload)
    rw [hwire] at hfinal
    unfold SameDropStanding
    dsimp only
    rw [hfinal]
    refine ⟨_, _, _, hok, hpubs, rfl, rfl, rfl, ?_, ?_, ?_⟩
    · rfl
    · exact BoundedFifoMap.get?_set_self _ _ _ hroom
    · rw [rankedAlike_iff]
      exact (Box.urgency_ownDrop.trans (congrArg dropKindPriority hinfo)).symm

end

/-! ### Beacons -/

def EmergencyBeaconPayload.WithinBounds (b : EmergencyBeaconPayload) : Prop :=
  (∀ m, b.message = some m → 0 < utf16Length m ∧ utf16Length m ≤ maxBeaconMessageLength) ∧
    (∀ q, b.lat = some q → -90 ≤ q ∧ q ≤ 90) ∧ ∀ q, b.lon = some q → -180 ≤ q ∧ q ≤ 180

theorem optional?_ofString {m : Option String} {max : ℕ}
    (h : ∀ s, m = some s → 0 < utf16Length s ∧ utf16Length s ≤ max) :
    optional? (boundedText? max) (.ofString m) = some m := by
  cases m with
  | none => rfl
  | some s => simp [optional?, boundedText?, JsValue.ofString, JsValue.isUndefined, JsValue.string?,
      Option.filter, h s rfl]

theorem optional?_ofRat {q : Option ℚ} {low high : ℚ} (h : ∀ r, q = some r → low ≤ r ∧ r ≤ high) :
    optional? (within? low high) (.ofRat q) = some q := by
  cases q with
  | none => rfl
  | some r => simp [optional?, within?, JsValue.ofRat, JsValue.isUndefined, JsValue.finite?,
      Option.filter, h r rfl]

theorem EmergencyBeaconPayload.extract_toJs {b : EmergencyBeaconPayload} (h : b.WithinBounds) :
    extractEmergencyBeaconPayload b.toJs = some b := by
  obtain ⟨hmessage, hlat, hlon⟩ := h
  have hprops : b.toJs.prop "message" = .ofString b.message ∧ b.toJs.prop "lat" = .ofRat b.lat ∧
      b.toJs.prop "lon" = .ofRat b.lon ∧ b.toJs.prop "timestamp" = .num (.finite b.timestamp) := by
    simp [EmergencyBeaconPayload.toJs, JsValue.prop]
  obtain ⟨hm, ha, ho, ht⟩ := hprops
  have hobject : b.toJs.isObject = true := rfl
  simp [extractEmergencyBeaconPayload, hobject, hm, ha, ho, ht, optional?_ofString hmessage,
    optional?_ofRat hlat, optional?_ofRat hlon, JsValue.finite?]

theorem extractEmergencyBeaconPayload_congr {v w : JsValue} (hobject : w.isObject = v.isObject)
    (hprop : ∀ name, w.prop name = v.prop name) :
    extractEmergencyBeaconPayload w = extractEmergencyBeaconPayload v := by
  simp only [extractEmergencyBeaconPayload, hobject, hprop]

/-- A plain payload is no envelope. -/
theorem extractEmergencyBeaconEnvelope_toJs {b : EmergencyBeaconPayload} {w : JsValue}
    (hprop : ∀ name, w.prop name = b.toJs.prop name) : extractEmergencyBeaconEnvelope w = none := by
  have hencrypted : (w.prop "encrypted").isTrue = false := by
    rw [hprop]
    simp [EmergencyBeaconPayload.toJs, JsValue.prop, JsValue.isTrue]
  unfold extractEmergencyBeaconEnvelope
  simp [hencrypted]

theorem optionalNumber_ok {v : Option JsNumber} {test : ℚ → Bool} {message : String} {q : Option ℚ}
    (h : optionalNumber v test message = .ok q) :
    q = (v.bind fun v => (JsValue.num v).finite?) ∧ ∀ r, q = some r → test r = true := by
  unfold optionalNumber at h
  split at h
  · cases h
    exact ⟨rfl, by simp⟩
  · next v =>
    split at h
    · next r hr =>
      split_ifs at h with htest
      · cases h
        exact ⟨hr.symm, by simpa using htest⟩
    · cases h

theorem exists_of_bind_ok {ε α β : Type} {x : Except ε α} {f : α → Except ε β} {b : β}
    (h : x >>= f = .ok b) : ∃ a, x = .ok a ∧ f a = .ok b := by
  cases x with
  | error e => cases h
  | ok a => exact ⟨a, rfl, h⟩

/-- The checks of a beacon are its bounds, and change nothing. -/
theorem checkBeacon_ok {subject origin : String} {input : BeaconInput} {b : CheckedBeacon}
    (h : checkBeacon subject origin input = .ok b) (now : ℤ) :
    b = input.checked ∧ (b.payload now).WithinBounds := by
  unfold checkBeacon at h
  by_cases hmessage : (input.message.any fun m =>
      utf16Length m = 0 ∨ maxBeaconMessageLength < utf16Length m) = true
  · rw [if_pos hmessage] at h
    cases h
  rw [if_neg hmessage] at h
  obtain ⟨lat, hlat, h⟩ := exists_of_bind_ok h
  obtain ⟨lon, hlon, h⟩ := exists_of_bind_ok h
  obtain ⟨ttlMs, httl, h⟩ := exists_of_bind_ok h
  cases h
  obtain ⟨rfl, hlat'⟩ := optionalNumber_ok hlat
  obtain ⟨rfl, hlon'⟩ := optionalNumber_ok hlon
  obtain ⟨rfl, -⟩ := optionalNumber_ok httl
  refine ⟨rfl, ?_, fun q hq => of_decide_eq_true (hlat' q hq), fun q hq => of_decide_eq_true (hlon' q hq)⟩
  intro m hm
  change input.message = some m at hm
  simp only [hm, Option.any_some, decide_eq_true_eq] at hmessage
  omega

section
variable {p : Platform} {nodeId : String} {now : ℤ} {n : BeaconNode} {input : BeaconInput} {a : Receipt}
  {packet own : AnnouncePacket} {sighting : EmergencyBeaconSighting}

theorem buildEmergencyBeaconPacket_ok (h : buildEmergencyBeaconPacket p nodeId input now = .ok packet) :
    (input.checked.payload now).WithinBounds ∧ packet = phoneBeacon p nodeId input.checked now := by
  obtain ⟨b, hcheck, h⟩ := exists_of_bind_ok h
  obtain ⟨rfl, hbounds⟩ := checkBeacon_ok hcheck now
  cases h
  exact ⟨hbounds, rfl⟩

/-- A node's own beacon is urgent on the way and in the store. -/
theorem sendEmergencyBeacon_ok
    (h : (n.sendEmergencyBeacon p input a.nonce (.const now)).2 = .ok (sighting, own)) :
    sighting =
        { input.checked.payload now with
          beaconContentId := own.metadata.contentId
          deviceId := n.node.box.nodeId
          observedAt := now
          receivedFrom := none } ∧
      own.priority = .emergency ∧ own.metadata.urgency = .emergency := by
  unfold BeaconNode.sendEmergencyBeacon at h
  cases hcheck : checkBeacon "emergency beacon" "sendEmergencyBeacon:" input with
  | error message =>
    rw [hcheck] at h
    cases h
  | ok b =>
    obtain ⟨rfl, -⟩ := checkBeacon_ok hcheck now
    rw [hcheck] at h
    dsimp only at h
    cases hslot : n.emergencyBeaconWindow.tryConsume BeaconNode.maxEmergencyBeaconPerWindow
        BeaconNode.emergencyBeaconRateLimitWindowMs (Readings.const now).budget with
    | mk window ok =>
      rw [hslot] at h
      cases ok with
      | false => cases h
      | true =>
        dsimp only at h
        split at h
        · cases h
        · next box metadata hpublish =>
          obtain ⟨hmetadata, hid⟩ := Box.publishContent_ok hpublish
          obtain ⟨rfl, rfl⟩ := Prod.ext_iff.mp (Except.ok.inj h)
          refine ⟨?_, rfl, ?_⟩
          · rw [← hid]
            rfl
          · dsimp only
            rw [hmetadata]
            rfl

/-- The phone signs no priority, so that a store ranks its beacon like routine content. -/
theorem not_sameBeaconStanding : ¬SameBeaconStanding p nodeId now n input a := by
  rintro ⟨packet, sighting, own, hbuild, hown, -, hrank⟩
  obtain ⟨-, rfl⟩ := buildEmergencyBeaconPacket_ok hbuild
  obtain ⟨-, -, hurgent⟩ := sendEmergencyBeacon_ok hown
  have hsame : (phoneBeacon p nodeId input.checked now).metadata.urgency = own.metadata.urgency :=
    rankedAlike_iff.mp hrank
  rw [hurgent] at hsame
  exact absurd (urgency_signedFields.symm.trans hsame) (by decide)

theorem Box.contentStore_acceptCatalogEntry (b : Box) (metadata : ContentMetadata) (t : Readings) :
    (b.acceptCatalogEntry p metadata t).contentStore =
      (b.contentStore.readLive metadata.contentId t.read).1 := by
  unfold Box.acceptCatalogEntry
  dsimp only
  repeat' split
  all_goals rfl

/-- The bytes that an accepted announcement carries are stored. -/
theorem StoreNode.get?_handleContentAnnounce {node : StoreNode} {metadata : ContentMetadata}
    {data : Buffer} {t : Readings} (fromPeerId : String)
    (haccepts : node.acceptsCatalogEntry p metadata t = true)
    (hverifies : ContentStore.verifies p metadata data t.store = true)
    (hname : metadata.name ≠ dropContentName) (hroom : 0 < node.contentStore.items.maxSize) :
    (node.handleContentAnnounce p metadata (some data) fromPeerId t).contentStore.items.get?
      metadata.contentId = some ⟨metadata, data⟩ := by
  have hsize : 0 < (node.box.acceptCatalogEntry p metadata t).contentStore.items.maxSize := by
    rw [Box.contentStore_acceptCatalogEntry, ContentStore.maxSize_readLive]
    exact hroom
  unfold StoreNode.handleContentAnnounce
  dsimp only
  rw [haccepts, Bool.not_true, if_neg Bool.false_ne_true, Box.considerDrop, if_pos hname,
    ContentStore.putVerified_of_verifies hverifies]
  exact BoundedFifoMap.get?_set_self _ _ _ hsize

theorem ContentNode.getContent_of_stored {node : ContentNode} {contentId : String} {item : StoredContent}
    {waiter : ℕ} {time : ℤ}
    (h : node.contentStore.readLive contentId time = (node.contentStore, some item)) :
    node.getContent p contentId waiter time =
      (node, .stored (decodeStoredContent p item.metadata item.data)) := by
  rw [ContentNode.getContent, h]

/-- A beacon whose bytes are stored and alive is recorded at once. -/
theorem BeaconNode.considerEmergencyBeacon_of_stored {metadata : ContentMetadata}
    {data : Buffer} {publisherId : String} (fromPeerId : String) (waiter : ℕ) {t : Readings}
    {payload : EmergencyBeaconPayload} (hname : metadata.name = emergencyBeaconContentName)
    (hpublisher : metadata.publisher? = some publisherId)
    (hunknown : (n.pendingBeaconFetches.any fun f => f.contentId = metadata.contentId) = false)
    (hfree : n.pendingBeaconFetches.length < maxConcurrentBeaconFetches)
    (hget : n.node.contentStore.items.get? metadata.contentId = some ⟨metadata, data⟩)
    (hlive : metadata.expired t.read = false) (hplain : metadata.encoding = none)
    (hpayload : n.readBeacon p data = some payload) :
    n.considerEmergencyBeacon p metadata fromPeerId waiter t =
      { n with
        emergencyBeacons := n.emergencyBeacons.record
          { payload with
            beaconContentId := metadata.contentId
            deviceId := publisherId
            observedAt := t.observed
            receivedFrom := if fromPeerId ≠ publisherId then some fromPeerId else none } } := by
  have hread : n.node.fetching.contentStore.readLive metadata.contentId t.read =
      (n.node.fetching.contentStore, some ⟨metadata, data⟩) := ContentStore.readLive_of_live hget hlive
  have hnone : ¬((n.pendingBeaconFetches.any fun f => f.contentId = metadata.contentId) ∨
      maxConcurrentBeaconFetches ≤ n.pendingBeaconFetches.length) := by
    rw [hunknown]
    simpa using hfree
  rw [considerEmergencyBeacon, if_neg (by simpa using hname), hpublisher]
  dsimp only
  rw [if_neg hnone, ContentNode.getContent_of_stored hread, decodeStoredContent_of_plain p data hplain]
  dsimp only
  have hpayload' : readBeacon p { n with node := n.node.withFetching n.node.fetching } data =
      some payload := hpayload
  rw [fetched, hpayload']
  rfl

/-- In everything but its rank, the phone's beacon is received like the node's own. -/
theorem sameBeaconReceipt (hskip : p.SkipsUndefined) (hsign : p.SignsFor nodeId)
    (hback : p.ReadsBack (input.checked.payload now).toJs)
    (hbuild : buildEmergencyBeaconPacket p nodeId input now = .ok packet)
    (hown : (n.sendEmergencyBeacon p input a.nonce (.const now)).2 = .ok (sighting, own))
    (hnew : (n.node.contentStore.readLive packet.metadata.contentId a.t.read).2 = none)
    (halive : arrivesAlive now (input.checked.expiresAt now) a.t)
    (hroom : 0 < n.node.contentStore.items.maxSize)
    (hunknown : (n.pendingBeaconFetches.any fun f => f.contentId = packet.metadata.contentId) = false)
    (hfree : n.pendingBeaconFetches.length < BeaconNode.maxConcurrentBeaconFetches) :
    SameBeaconReceipt p nodeId n a packet sighting own := by
  obtain ⟨hbounds, rfl⟩ := buildEmergencyBeaconPacket_ok hbuild
  obtain ⟨rfl, hpriority, -⟩ := sendEmergencyBeacon_ok hown
  obtain ⟨-, hchecked, hstore, hread⟩ := halive
  have hsigned : verifyContentSignature p (phoneBeacon p nodeId input.checked now).metadata = true :=
    verifyContentSignature_signedFields hskip hsign
  have hverifies : ContentStore.verifies p (phoneBeacon p nodeId input.checked now).metadata
      (phoneBeacon p nodeId input.checked now).data a.t.store = true :=
    (verifies_signedFields hskip hsign rfl _).trans (decide_eq_true hstore)
  have hexpired : ∀ at' : ℤ, (phoneBeacon p nodeId input.checked now).metadata.expired at' =
      decide (input.checked.expiresAt now ≤ at') := fun _ => rfl
  have haccepts : n.node.acceptsCatalogEntry p (phoneBeacon p nodeId input.checked now).metadata a.t =
      true := by
    simp [StoreNode.acceptsCatalogEntry, hnew, hsigned, hexpired, hchecked]
  have hname : (phoneBeacon p nodeId input.checked now).metadata.name = emergencyBeaconContentName := rfl
  have hother : (phoneBeacon p nodeId input.checked now).metadata.name ≠ dropContentName := by
    rw [hname]
    decide
  have hpublisher : (phoneBeacon p nodeId input.checked now).metadata.publisher? = some nodeId := by
    simp [phoneBeacon, signedFields, ContentMetadata.publisher?, Option.filter, hsign.1]
  have hget := StoreNode.get?_handleContentAnnounce a.fromPeerId haccepts hverifies hother hroom
  have hpayload : BeaconNode.readBeacon p
      { n with
        node := n.node.handleContentAnnounce p (phoneBeacon p nodeId input.checked now).metadata
          (some (phoneBeacon p nodeId input.checked now).data) a.fromPeerId a.t }
      (phoneBeacon p nodeId input.checked now).data = some (input.checked.payload now) := by
    obtain ⟨-, w, hparse, hobject, hprop⟩ := hback
    have hextract := extractEmergencyBeaconPayload_congr
      (v := (input.checked.payload now).toJs) hobject hprop
    rw [EmergencyBeaconPayload.extract_toJs hbounds] at hextract
    rw [BeaconNode.readBeacon, phoneBeacon]
    dsimp only
    rw [hparse]
    change BeaconNode.decodeEmergencyBeaconPayload p _ w = _
    rw [BeaconNode.decodeEmergencyBeaconPayload, extractEmergencyBeaconEnvelope_toJs hprop]
    exact hextract
  have hreceived := BeaconNode.considerEmergencyBeacon_of_stored (n := { n with
      node := n.node.handleContentAnnounce p (phoneBeacon p nodeId input.checked now).metadata
        (some (phoneBeacon p nodeId input.checked now).data) a.fromPeerId a.t })
    a.fromPeerId a.waiter hname hpublisher hunknown hfree hget
    ((hexpired _).trans (decide_eq_false (not_le.mpr hread))) rfl hpayload
  unfold SameBeaconReceipt
  dsimp only
  rw [BeaconNode.handleContentAnnounce, haccepts, if_pos rfl, hreceived]
  exact ⟨hget, rfl, hpriority.symm⟩

end

/-- Exactly the informational drops of the portal have the standing of the node's
own: no other copy is ranked in a store like the original. -/
theorem same_standing_iff {p : Platform} {nodeId : String} {now : ℤ} {n : BeaconNode} {a : Receipt}
    {o : Origin} (hskip : p.SkipsUndefined) (hzstd : p.ZstdInverts) (hsign : p.SignsFor nodeId)
    (hown : p.SignsFor n.node.box.nodeId) (hback : p.ReadsBack (o.toJs now))
    (haccepted : o.Accepted p nodeId now) :
    SameStanding p nodeId now n a o ↔ o.routine nodeId now n a.t := by
  cases o with
  | drop d =>
    obtain ⟨r, hcheck⟩ := haccepted
    exact sameDropStanding_iff hskip hzstd hsign hown hback hcheck
  | beacon input => exact iff_of_false not_sameBeaconStanding not_false

/-! ### A warning and a call for help -/

theorem samplePlatform_skipsUndefined (texts : List JsValue) : (samplePlatform texts).SkipsUndefined := by
  intro fields
  simp [samplePlatform, renderJson, List.filter_filter]

theorem samplePlatform_signsFor (texts : List JsValue) {nodeId : String} (h : nodeId ≠ "") :
    (samplePlatform texts).SignsFor nodeId := by
  refine ⟨h, fun data => ⟨?_, by simp [samplePlatform]⟩⟩
  simp [samplePlatform, h]

theorem samplePlatform_readsBack (texts : List JsValue) {v : JsValue} (hobject : v.isObject = true)
    (hshort : ((utf8 (renderJson v)).length : ℚ) ≤ maxDecompressedContentBytes) :
    (samplePlatform (v :: texts)).ReadsBack v :=
  ⟨hshort, v, by simp [samplePlatform], hobject, fun _ => rfl⟩

def infoDrop : PortalDrop where
  text := "sentiero chiuso"
  lat := 45
  lon := 7
  label := none
  kind := .info
  expiresInMs := none

def callForHelp : BeaconInput where
  message := some "aiuto"
  lat := some (.finite 45)
  lon := some (.finite 7)
  ttlMs := none

def noticeRuntime : Platform := samplePlatform [(infoDrop.payload 1).toJs]

def sosRuntime : Platform := samplePlatform [(callForHelp.checked.payload 1).toJs]

/-- A node without a beacon key that has met nobody. -/
def hutNode : BeaconNode where
  node := .create "hut" {} {}
  emergencyBeaconKey := none
  emergencyBeaconWindow := {}
  pendingBeaconFetches := []
  emergencyBeacons := ⟨.empty (512 : ℤ)⟩

def soonAfter (fromPeerId : String) : Receipt := ⟨fromPeerId, 0, [], .const 2⟩

theorem noticeRuntime_laws : noticeRuntime.SkipsUndefined ∧ noticeRuntime.ZstdInverts ∧
    noticeRuntime.SignsFor "operator" ∧ noticeRuntime.SignsFor "hut" ∧
    noticeRuntime.ReadsBack ((Origin.drop infoDrop).toJs 1) :=
  ⟨samplePlatform_skipsUndefined _, samplePlatform_zstdInverts _, samplePlatform_signsFor _ (by decide),
    samplePlatform_signsFor _ (by decide), samplePlatform_readsBack _ rfl (by decide +kernel)⟩

/-- A notice that a path is closed, from the portal to a node with room for it. -/
theorem same_standing_info :
    (Origin.drop infoDrop).routine "operator" 1 hutNode (soonAfter "box").t ∧
      SameStanding noticeRuntime "operator" 1 hutNode (soonAfter "box") (.drop infoDrop) := by
  obtain ⟨hskip, hzstd, hsign, hown, hback⟩ := noticeRuntime_laws
  have haccepted : (Origin.drop infoDrop).Accepted noticeRuntime "operator" 1 :=
    ⟨infoDrop.checked, by rfl⟩
  have hroutine : (Origin.drop infoDrop).routine "operator" 1 hutNode (soonAfter "box").t := by
    refine ⟨rfl, by decide, ?_, by decide⟩
    unfold arrivesAlive
    decide +kernel
  exact ⟨hroutine, (same_standing_iff hskip hzstd hsign hown hback haccepted).mpr hroutine⟩

/-- A call for help from a phone: the node records it as its own and forwards it
as urgently, but ranks it like routine content. -/
theorem phone_beacon_ranks_routine :
    ∃ packet sighting own,
      buildEmergencyBeaconPacket sosRuntime "phone" callForHelp 1 = .ok packet ∧
      (hutNode.sendEmergencyBeacon sosRuntime callForHelp [] (.const 1)).2 = .ok (sighting, own) ∧
      hutNode.emergencyBeaconKey = none ∧
      SameBeaconReceipt sosRuntime "phone" hutNode (soonAfter "card") packet sighting own ∧
      packet.metadata.urgency = .content ∧ own.metadata.urgency = .emergency ∧
      ¬SameStanding sosRuntime "phone" 1 hutNode (soonAfter "card") (.beacon callForHelp) := by
  have hsent : (match (hutNode.sendEmergencyBeacon sosRuntime callForHelp [] (.const 1)).2 with
      | .ok _ => true
      | .error _ => false) = true := by
    decide +kernel
  split at hsent
  · next sent hown =>
    obtain ⟨sighting, own⟩ := sent
    have hbuild : buildEmergencyBeaconPacket sosRuntime "phone" callForHelp 1 =
      .ok (phoneBeacon sosRuntime "phone" callForHelp.checked 1) := by rfl
    have halive : arrivesAlive 1 (callForHelp.checked.expiresAt 1) (soonAfter "card").t := by
      unfold arrivesAlive
      decide +kernel
    obtain ⟨-, -, hurgent⟩ := sendEmergencyBeacon_ok (a := soonAfter "card") hown
    refine ⟨_, sighting, own, hbuild, hown, rfl, ?_, rfl, hurgent, not_sameBeaconStanding⟩
    exact sameBeaconReceipt (samplePlatform_skipsUndefined _) (samplePlatform_signsFor _ (by decide))
      (samplePlatform_readsBack _ rfl (by decide +kernel)) hbuild hown rfl halive (by decide +kernel)
      rfl (by decide)
  · cases hsent

end Arald
