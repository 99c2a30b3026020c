import Arald.Content.Metadata

/-!
# Payloads that a node is handed from outside

The validators of `drops.ts`, `node-appends.ts`, `relay-registry.ts` and
`external-delivery.ts`. Each of them takes an untyped value and returns the
typed payload, or nothing when a single field is not as required.
-/

namespace Arald

open Foundations

inductive DropKind where
  | info
  | hazard
  | emergency
  deriving DecidableEq

namespace DropKind

def toString : DropKind → String
  | info => "info"
  | hazard => "hazard"
  | emergency => "emergency"

def ofString? : String → Option DropKind
  | "info" => some info
  | "hazard" => some hazard
  | "emergency" => some emergency
  | _ => none

@[simp] theorem ofString?_toString (k : DropKind) : ofString? k.toString = some k := by
  cases k <;> rfl

end DropKind

/-- The priority at which a drop of a kind is announced. -/
def dropKindPriority : DropKind → Priority
  | .emergency => .emergency
  | .hazard => .messaging
  | .info => .content

theorem dropKindPriority_injective : Function.Injective dropKindPriority := by
  intro k l h
  cases k <;> cases l <;> first | rfl | cases h

def maxMessageTextLength : ℕ := 4000

/-- A string of 1 to `max` UTF-16 code units. -/
def boundedText? (max : ℕ) (v : JsValue) : Option String :=
  v.string?.filter fun s => 0 < utf16Length s ∧ utf16Length s ≤ max

/-- A string that is not empty. -/
def nonEmpty? (v : JsValue) : Option String := v.string?.filter fun s => s ≠ ""

/-- A field that may be absent, and must pass its check when it is not. -/
def optional? {α : Type} (check : JsValue → Option α) (v : JsValue) : Option (Option α) :=
  if v.isUndefined then some none else (check v).map some

/-- A finite number within bounds. -/
def within? (low high : ℚ) (v : JsValue) : Option ℚ := v.finite?.filter fun q => low ≤ q ∧ q ≤ high

/-! ### Drops -/

def dropContentName : String := "drop"

def maxDropLabelLength : ℕ := 100

structure DropPayload where
  text : String
  lat : ℚ
  lon : ℚ
  label : Option String
  kind : DropKind
  timestamp : ℚ
  deriving DecidableEq

def extractDropPayload (payload : JsValue) : Option DropPayload := do
  guard payload.isObject
  let text ← boundedText? maxMessageTextLength (payload.prop "text")
  let lat ← within? (-90) 90 (payload.prop "lat")
  let lon ← within? (-180) 180 (payload.prop "lon")
  let label ← optional? (boundedText? maxDropLabelLength) (payload.prop "label")
  let kind ← (payload.prop "kind").string? >>= DropKind.ofString?
  let timestamp ← (payload.prop "timestamp").finite?
  return { text, lat, lon, label, kind, timestamp }

/-- The object that `publishDrop` serialises. -/
def DropPayload.toJs (d : DropPayload) : JsValue :=
  .obj [
    ("text", .str d.text),
    ("lat", .num (.finite d.lat)),
    ("lon", .num (.finite d.lon)),
    ("label", .ofString d.label),
    ("kind", .str d.kind.toString),
    ("timestamp", .num (.finite d.timestamp))]

/-- What the bytes of a content named as a drop say, if they say a drop. -/
def readDrop (p : Platform) (data : Buffer) : Option DropPayload :=
  p.parseJson data >>= extractDropPayload

/-- An avalanche warning. -/
def sampleDrop (text : String) : DropPayload where
  text := text
  lat := 45
  lon := 7
  label := none
  kind := .emergency
  timestamp := 1

/-- Metadata of `data`, signed by its publisher. -/
def signedMetadata (p : Platform) (publisherId : String) (data : Buffer) (encoding : Option String) :
    ContentMetadata :=
  let unsigned : ContentMetadata :=
    { contentId := computeContentId p data
      name := dropContentName
      mimeType := "application/json"
      size := data.length
      createdAt := 1
      publisherId := some publisherId
      encoding }
  { unsigned with signature := some (p.sign publisherId (contentSigningPayload p unsigned)) }

/-! ### Node appends -/

def maxNodeAppendLabelLength : ℕ := 100

structure SignedNodeAppendSubmission where
  text : String
  label : Option String
  kind : DropKind
  timestamp : ℚ
  expiresAt : ℚ
  targetNodeId : String
  publisherId : String
  signature : String

def nodeAppendSigningPayload (p : Platform) (s : SignedNodeAppendSubmission) : Buffer :=
  p.stringify (.obj [
    ("text", .str s.text),
    ("label", .ofString s.label),
    ("kind", .str s.kind.toString),
    ("timestamp", .num (.finite s.timestamp)),
    ("expiresAt", .num (.finite s.expiresAt)),
    ("targetNodeId", .str s.targetNodeId),
    ("publisherId", .str s.publisherId)])

def verifySignedNodeAppendSubmission (p : Platform) (payload : JsValue) :
    Option SignedNodeAppendSubmission := do
  guard payload.isObject
  let text ← boundedText? maxMessageTextLength (payload.prop "text")
  let label ← optional? (boundedText? maxNodeAppendLabelLength) (payload.prop "label")
  let kind ← (payload.prop "kind").string? >>= DropKind.ofString?
  let timestamp ← (payload.prop "timestamp").finite?
  let expiresAt ← (payload.prop "expiresAt").finite?
  let targetNodeId ← nonEmpty? (payload.prop "targetNodeId")
  let publisherId ← nonEmpty? (payload.prop "publisherId")
  let signature ← (payload.prop "signature").string?
  let s : SignedNodeAppendSubmission :=
    { text, label, kind, timestamp, expiresAt, targetNodeId, publisherId, signature }
  guard (p.verifyWithNodeId publisherId (nodeAppendSigningPayload p s) signature)
  return s

/-! ### Relay commands -/

/-- A relay command as it arrives in a private message; the only command there
is asks for a reboot. -/
structure RelayCommandPayload where
  timestamp : ℚ

def extractRelayCommand (payload : JsValue) : Option RelayCommandPayload := do
  guard payload.isObject
  guard ((payload.prop "type").string? = some "relay-command")
  guard ((payload.prop "command").string? = some "reboot")
  let timestamp ← (payload.prop "timestamp").finite?
  return { timestamp }

structure SignedRelayCommandSubmission where
  timestamp : ℚ
  targetNodeId : String
  publisherId : String
  signature : String

def relayCommandSigningPayload (p : Platform) (s : SignedRelayCommandSubmission) : Buffer :=
  p.stringify (.obj [
    ("command", .str "reboot"),
    ("timestamp", .num (.finite s.timestamp)),
    ("targetNodeId", .str s.targetNodeId),
    ("publisherId", .str s.publisherId)])

def verifySignedRelayCommandSubmission (p : Platform) (payload : JsValue) :
    Option SignedRelayCommandSubmission := do
  guard payload.isObject
  guard ((payload.prop "command").string? = some "reboot")
  let timestamp ← (payload.prop "timestamp").finite?
  let targetNodeId ← nonEmpty? (payload.prop "targetNodeId")
  let publisherId ← nonEmpty? (payload.prop "publisherId")
  let signature ← (payload.prop "signature").string?
  let s : SignedRelayCommandSubmission := { timestamp, targetNodeId, publisherId, signature }
  guard (p.verifyWithNodeId publisherId (relayCommandSigningPayload p s) signature)
  return s

/-! ### Encrypted payloads -/

/-- What AES-256-GCM leaves on the wire, in hexadecimal. -/
structure EncryptedPayload where
  nonce : String
  ciphertext : String
  authTag : String
  deriving DecidableEq

/-! ### External deliveries -/

def maxExternalDeliveryDestinationIdLength : ℕ := 100

def hexDigit? (c : Char) : Option ℕ :=
  if '0' ≤ c ∧ c ≤ '9' then some (c.toNat - '0'.toNat)
  else if 'a' ≤ c ∧ c ≤ 'f' then some (c.toNat - 'a'.toNat + 10)
  else if 'A' ≤ c ∧ c ≤ 'F' then some (c.toNat - 'A'.toNat + 10)
  else none

/-- `HEX_PATTERN`: one or more hexadecimal digits. -/
def isHex (s : String) : Bool := s ≠ "" && s.toList.all fun c => (hexDigit? c).isSome

/-- `Buffer.from(s, "hex")`: pairs of digits, up to the first that is not one. -/
def fromHex : List Char → Buffer
  | a :: b :: rest =>
    match hexDigit? a, hexDigit? b with
    | some x, some y => UInt8.ofNat (16 * x + y) :: fromHex rest
    | _, _ => []
  | _ => []

/-- `toString("hex")`. -/
def toHex (bytes : Buffer) : String :=
  String.ofList (bytes.flatMap fun b => [Nat.digitChar (b.toNat / 16), Nat.digitChar (b.toNat % 16)])

theorem hexDigit?_digitChar {n : ℕ} (h : n < 16) : hexDigit? (Nat.digitChar n) = some n := by
  interval_cases n <;> rfl

/-- Decoding gives back what was encoded. -/
@[simp] theorem fromHex_toHex (bytes : Buffer) : fromHex (toHex bytes).toList = bytes := by
  rw [toHex, String.toList_ofList]
  induction bytes with
  | nil => rfl
  | cons b rest ih =>
    have hlt : b.toNat < 256 := b.toNat_lt
    have hbyte : 16 * (b.toNat / 16) + b.toNat % 16 = b.toNat := by omega
    rw [List.flatMap_cons, List.cons_append, List.cons_append, List.nil_append, fromHex,
      hexDigit?_digitChar (by omega), hexDigit?_digitChar (by omega)]
    simp only [hbyte, ih, UInt8.ofNat_toNat]

theorem toHex_injective : Function.Injective toHex := by
  intro a b h
  rw [← fromHex_toHex a, h, fromHex_toHex]

/-- A hexadecimal string of exactly `length` digits. -/
def hexOfLength? (length : ℕ) (v : JsValue) : Option String :=
  v.string?.filter fun s => utf16Length s = length ∧ isHex s

structure ExternalDeliveryPayload where
  destinationId : String
  senderEphemeralPublicKey : String
  nonce : String
  ciphertext : String
  authTag : String
  authProof : Option String
  submittedAt : ℚ

def extractExternalDeliveryPayload (payload : JsValue) (maxCiphertextHexLength : ℕ) :
    Option ExternalDeliveryPayload := do
  guard payload.isObject
  let destinationId ←
    boundedText? maxExternalDeliveryDestinationIdLength (payload.prop "destinationId")
  let senderEphemeralPublicKey ← hexOfLength? 64 (payload.prop "senderEphemeralPublicKey")
  let nonce ← hexOfLength? 24 (payload.prop "nonce")
  let ciphertext ← (payload.prop "ciphertext").string?.filter fun s =>
    utf16Length s ≤ maxCiphertextHexLength ∧ (s = "" ∨ isHex s)
  let authTag ← hexOfLength? 32 (payload.prop "authTag")
  let authProof ← optional? (hexOfLength? 64) (payload.prop "authProof")
  let submittedAt ← (payload.prop "submittedAt").finite?
  return { destinationId, senderEphemeralPublicKey, nonce, ciphertext, authTag, authProof,
           submittedAt }

structure ExternalDeliveryDestination where
  destinationId : String
  label : String
  publicKeyHex : String
  url : String
  password : Option String

def computeExternalDeliveryAuthProof (p : Platform) (password : String)
    (d : ExternalDeliveryPayload) : String :=
  p.sha256 (utf8 (password ++ ":" ++ d.destinationId ++ ":" ++ d.nonce ++ ":" ++ d.ciphertext ++
    ":" ++ d.authTag))

/-- A destination without a password needs no proof. -/
def verifyExternalDeliveryAuthProof (p : Platform) (configuredPassword : Option String)
    (d : ExternalDeliveryPayload) : Bool :=
  match configuredPassword.filter fun s => s ≠ "" with
  | none => true
  | some password =>
    match d.authProof.filter fun s => s ≠ "" with
    | none => false
    | some provided =>
      fromHex provided.toList = fromHex (computeExternalDeliveryAuthProof p password d).toList

end Arald
