import Arald.Mesh.Packet

/-!
# Content, its metadata and what the runtime provides

The data model of `content.ts`. A piece of content is named by the SHA-256 of
the bytes that are stored and transferred; its metadata is signed by the
publisher; the stored bytes may be the zstd-compressed form of the logical
ones.

Hashing, Ed25519, zstd and the JSON codec belong to the runtime. They are the
fields of a `Platform`, which every definition that uses them takes as a
parameter. A parser or a check that throws is a `none` or a `false` here, as
its callers treat it.
-/

namespace Arald

open Foundations

abbrev Buffer := List UInt8

/-- What the program gets from its runtime. -/
structure Platform where
  /-- The hexadecimal SHA-256 digest. -/
  sha256 : Buffer → String
  /-- `Identity.verifyWithNodeId` of a message and a hexadecimal signature. -/
  verifyWithNodeId : String → Buffer → String → Bool
  /-- The signature, in hexadecimal, that the identity of a node id makes. -/
  sign : String → Buffer → String
  zstdCompress : Buffer → Buffer
  /-- Decompression, given the `maxOutputLength` it may not exceed. -/
  zstdDecompress : Buffer → ℚ → Option Buffer
  /-- `JSON.parse(data.toString("utf8"))`. -/
  parseJson : Buffer → Option JsValue
  /-- `Buffer.from(JSON.stringify(value), "utf8")`. -/
  stringify : JsValue → Buffer

/-- The bytes of a string. -/
def utf8 (s : String) : Buffer := s.toUTF8.data.toList

structure ContentMetadata where
  contentId : String
  name : String
  mimeType : String
  /-- Byte length of the stored bytes, as the sender of the metadata claims it. -/
  size : ℚ
  createdAt : ℚ
  publisherId : Option String := none
  signature : Option String := none
  expiresAt : Option ℚ := none
  encoding : Option String := none
  originalSize : Option ℚ := none
  priority : JsValue := .undefined

namespace ContentMetadata

/-- `metadata.expiresAt !== undefined && metadata.expiresAt <= now`. -/
def expired (m : ContentMetadata) (now : ℤ) : Bool :=
  match m.expiresAt with
  | some t => t ≤ now
  | none => false

/-- The publisher id, when it is present and not empty. -/
def publisher? (m : ContentMetadata) : Option String :=
  m.publisherId.filter fun id => id ≠ ""

/-- The urgency that counts for eviction. -/
def urgency (m : ContentMetadata) : Priority := priorityRank (m.priority.orElse Priority.content.toJs)

end ContentMetadata

section
variable (p : Platform)

def contentSigningPayload (m : ContentMetadata) : Buffer :=
  p.stringify (.obj [
    ("contentId", .str m.contentId),
    ("name", .str m.name),
    ("mimeType", .str m.mimeType),
    ("size", .num (.finite m.size)),
    ("publisherId", .ofString m.publisherId),
    ("expiresAt", .ofRat m.expiresAt),
    ("encoding", .ofString m.encoding),
    ("originalSize", .ofRat m.originalSize),
    ("priority", m.priority)])

def computeContentId (data : Buffer) : String := p.sha256 data

/-- Publisher and signature are present and the signature covers the metadata. -/
def verifyContentSignature (m : ContentMetadata) : Bool :=
  match m.publisherId, m.signature with
  | some publisherId, some signature =>
    publisherId ≠ "" && signature ≠ "" &&
      p.verifyWithNodeId publisherId (contentSigningPayload p m) signature
  | _, _ => false

def minCompressibleSize : ℕ := 512

structure CompressedForTransfer where
  data : Buffer
  encoding : Option String := none
  originalSize : Option ℚ := none

/-- The compressed bytes, if compression made them shorter. -/
def compressForTransfer (data : Buffer) : CompressedForTransfer :=
  if data.length < minCompressibleSize then { data }
  else
    let compressed := p.zstdCompress data
    if data.length ≤ compressed.length then { data }
    else { data := compressed, encoding := some "zstd", originalSize := some data.length }

def maxDecompressedContentBytes : ℚ := 256 * 1024 * 1024

/-- Undo `compressForTransfer`; `none` is the error it throws. -/
def decodeStoredContent (m : ContentMetadata) (data : Buffer) : Option Buffer :=
  if m.encoding = some "zstd" then
    p.zstdDecompress data
      (min (m.originalSize.getD maxDecompressedContentBytes) maxDecompressedContentBytes)
  else some data

end

theorem decodeStoredContent_of_plain (p : Platform) {m : ContentMetadata} (data : Buffer)
    (h : m.encoding = none) : decodeStoredContent p m data = some data := by
  simp [decodeStoredContent, h]

/-! ### A runtime for concrete runs

The digest is a checksum, a signature is the signer's id with the checksum of
the message, a compressed frame is the zstd magic number before the bytes,
and the JSON codec writes flat objects and reads back the texts it is given. -/

def renderScalar : JsValue → String
  | .str s => "\"" ++ s ++ "\""
  | .num (.finite q) => toString q.num
  | _ => "null"

def renderJson : JsValue → String
  | .obj fields =>
    "\x7b" ++ String.intercalate "," ((fields.filter fun f => !f.2.isUndefined).map fun f =>
      "\"" ++ f.1 ++ "\":" ++ renderScalar f.2) ++ "\x7d"
  | v => renderScalar v

/-- A polynomial checksum, in decimal. -/
def checksum (data : Buffer) : String :=
  toString (data.foldl (fun sum byte => (sum * 257 + byte.toNat + 1) % (2 ^ 61 - 1)) 7)

def zstdMagic : Buffer := [0x28, 0xb5, 0x2f, 0xfd]

def samplePlatform (texts : List JsValue) : Platform where
  sha256 := checksum
  verifyWithNodeId nodeId data signature := signature = nodeId ++ checksum data
  sign nodeId data := nodeId ++ checksum data
  zstdCompress data := zstdMagic ++ data
  zstdDecompress data maxOutputLength :=
    let content := data.drop zstdMagic.length
    if data.take zstdMagic.length = zstdMagic ∧ (content.length : ℚ) ≤ maxOutputLength then
      some content
    else none
  parseJson data := texts.find? fun v => utf8 (renderJson v) = data
  stringify v := utf8 (renderJson v)

/-- Metadata for some bytes, signed by a publisher. -/
def publishedMetadata (p : Platform) (publisherId : String) (data : Buffer) : ContentMetadata :=
  let unsigned : ContentMetadata :=
    { contentId := computeContentId p data
      name := "map"
      mimeType := "text/plain"
      size := data.length
      createdAt := 1
      publisherId := some publisherId }
  { unsigned with signature := some (p.sign publisherId (contentSigningPayload p unsigned)) }

/-! ### Chunks -/

def chunkSize : ℕ := 4096

/-- How many chunks a content of the claimed size should have. -/
def chunkCountForSize (size : ℚ) : ℤ := if size ≤ 0 then 1 else ⌈size / chunkSize⌉

theorem chunkCountForSize_pos (size : ℚ) : 1 ≤ chunkCountForSize size := by
  unfold chunkCountForSize
  split_ifs with h
  · exact le_rfl
  · have hpos : 0 < size / chunkSize := div_pos (not_le.mp h) (by norm_num [chunkSize])
    exact Int.one_le_ceil_iff.mpr hpos

/-- The cuts of a buffer into chunks; the number of bytes left bounds the number
of cuts. -/
def cut : ℕ → Buffer → List Buffer
  | 0, _ => []
  | fuel + 1, data =>
    if data.isEmpty then [] else data.take chunkSize :: cut fuel (data.drop chunkSize)

/-- The chunks a provider sends: an empty content is one empty chunk. -/
def chunksOf (data : Buffer) : List Buffer :=
  if data.isEmpty then [[]] else cut data.length data

theorem flatten_cut (fuel : ℕ) (data : Buffer) (h : data.length ≤ fuel) :
    (cut fuel data).flatten = data := by
  induction fuel generalizing data with
  | zero =>
    have hnil : data = [] := List.length_eq_zero_iff.mp (Nat.le_zero.mp h)
    simp [cut, hnil]
  | succ fuel ih =>
    cases data with
    | nil => simp [cut]
    | cons b rest =>
      have hdrop : ((b :: rest).drop chunkSize).length ≤ fuel := by
        simp only [List.length_drop, List.length_cons, chunkSize] at h ⊢
        omega
      rw [cut, if_neg (by simp), List.flatten_cons, ih _ hdrop, List.take_append_drop]

/-- The chunks in order are the content. -/
theorem flatten_chunksOf (data : Buffer) : (chunksOf data).flatten = data := by
  unfold chunksOf
  split_ifs with h
  · simp [List.isEmpty_iff.mp h]
  · exact flatten_cut data.length data le_rfl

theorem length_cut (fuel : ℕ) (data : Buffer) (h : data.length ≤ fuel) :
    (cut fuel data).length = (data.length + (chunkSize - 1)) / chunkSize := by
  induction fuel generalizing data with
  | zero =>
    have hnil : data = [] := List.length_eq_zero_iff.mp (Nat.le_zero.mp h)
    simp [cut, hnil, chunkSize]
  | succ fuel ih =>
    cases data with
    | nil => simp [cut, chunkSize]
    | cons b rest =>
      have hdrop : ((b :: rest).drop chunkSize).length ≤ fuel := by
        simp only [List.length_drop, List.length_cons, chunkSize] at h ⊢
        omega
      rw [cut, if_neg (by simp), List.length_cons, ih _ hdrop]
      simp only [List.length_drop, List.length_cons, chunkSize]
      omega

theorem length_chunksOf_pos (data : Buffer) : 0 < (chunksOf data).length := by
  unfold chunksOf
  by_cases hempty : data = []
  · simp [hempty]
  · have hpos : 0 < data.length := List.length_pos_iff.mpr hempty
    rw [if_neg (by simpa using hempty), length_cut _ _ le_rfl]
    simp only [chunkSize]
    omega

/-- A provider's own metadata announces exactly the number of its chunks. -/
theorem chunkCountForSize_length (data : Buffer) :
    chunkCountForSize data.length = (chunksOf data).length := by
  unfold chunkCountForSize chunksOf
  by_cases hempty : data = []
  · simp [hempty]
  have hpos : 0 < data.length := List.length_pos_iff.mpr hempty
  have hcast : (0 : ℚ) < data.length := by exact_mod_cast hpos
  rw [if_neg (not_le.mpr hcast), if_neg (by simpa using hempty), length_cut _ _ le_rfl]
  have hceil : (⌈(data.length : ℚ) / chunkSize⌉ : ℤ) = ((data.length + (chunkSize - 1)) / chunkSize : ℕ) := by
    rw [Int.ceil_eq_iff]
    have hdiv : (data.length + (chunkSize - 1)) / chunkSize * chunkSize ≤ data.length + (chunkSize - 1) :=
      Nat.div_mul_le_self _ _
    have hmod : data.length + (chunkSize - 1) <
        ((data.length + (chunkSize - 1)) / chunkSize + 1) * chunkSize :=
      Nat.lt_mul_of_div_lt (Nat.lt_succ_self _) (by decide)
    generalize (data.length + (chunkSize - 1)) / chunkSize = c at hdiv hmod
    have hsize : (0 : ℚ) < chunkSize := by norm_num [chunkSize]
    constructor
    · rw [lt_div_iff₀ hsize]
      have hlow : c * chunkSize < data.length + chunkSize := by
        simp only [chunkSize] at hdiv ⊢
        omega
      have hlow' : ((c : ℤ) : ℚ) * chunkSize < data.length + chunkSize := by exact_mod_cast hlow
      linarith
    · rw [div_le_iff₀ hsize]
      have hhigh : data.length ≤ c * chunkSize := by
        simp only [chunkSize] at hmod ⊢
        omega
      exact_mod_cast hhigh
  exact hceil

end Arald
