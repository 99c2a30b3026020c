import Arald.Content.Metadata
import Arald.Store.BoundedFifoMap

/-!
# The content store

`ContentStore` of `content.ts`, as a node builds it: with a rank for the trust
in a publisher, which is read when an eviction happens and is therefore an
argument here. Urgency dominates trust in the eviction score, but only a few of
the entries that claim urgency without being vetted may profit from it.
-/

namespace Arald

open Foundations

structure StoredContent where
  metadata : ContentMetadata
  data : Buffer

structure ContentStore where
  items : BoundedFifoMap String StoredContent
  /-- The ids that occupy the budget of unvetted urgent entries, as of the last insertion. -/
  unvettedElevatedContentIds : List String

namespace ContentStore

def defaultMaxSize : WithTop ℤ := (256 : ℤ)

def priorityTierSpread : ℤ := 10

def maxUnvettedElevatedEntries : ℕ := 8

def unvettedTrustCeiling : ℤ := 2

def isUnvettedTrust (rank : ℤ) : Bool := rank ≤ unvettedTrustCeiling

def create (maxSize : WithTop ℤ) : ContentStore where
  items := .empty maxSize
  unvettedElevatedContentIds := []

section
variable (trustRank : String → ℤ)

/-- The entry claims more urgency than ordinary content. -/
def isElevated (item : StoredContent) : Bool :=
  item.metadata.urgency.toNat < Priority.content.toNat

/-- The entry claims urgency and its publisher was never vetted by an operator. -/
def isUnvettedElevated (item : StoredContent) : Bool :=
  match item.metadata.publisher? with
  | some publisherId => isElevated item && isUnvettedTrust (trustRank publisherId)
  | none => false

/-- Keep the most recent of the unvetted urgent entries. -/
def refreshUnvettedElevatedSnapshot (s : ContentStore) : ContentStore :=
  let qualifying := (s.items.entries.filter fun e => isUnvettedElevated trustRank e.2).map Prod.fst
  { s with unvettedElevatedContentIds :=
      qualifying.drop (qualifying.length - maxUnvettedElevatedEntries) }

def pickEvictionScore (s : ContentStore) : BoundedFifoMap.EvictionScore String StoredContent :=
  fun contentId item =>
    let live := trustRank (item.metadata.publisherId.getD "")
    let withinBudget := s.unvettedElevatedContentIds.contains contentId
    let effectiveUrgency :=
      if isElevated item && isUnvettedTrust live && !withinBudget then Priority.content
      else item.metadata.urgency
    ((-(effectiveUrgency.toNat : ℤ) * priorityTierSpread + live : ℤ) : WithTop ℤ)

def insert (s : ContentStore) (metadata : ContentMetadata) (data : Buffer) : ContentStore :=
  let s := s.refreshUnvettedElevatedSnapshot trustRank
  { s with items :=
      s.items.set (some (s.pickEvictionScore trustRank)) metadata.contentId ⟨metadata, data⟩ }

variable (p : Platform)

/-- Store bytes of the node's own, without a publisher. -/
def put (s : ContentStore) (name mimeType : String) (data : Buffer) (ttlMs : Option ℚ)
    (createdAt now : ℤ) : ContentStore :=
  s.insert trustRank
    { contentId := computeContentId p data
      name
      mimeType
      size := data.length
      createdAt
      expiresAt := ttlMs.bind fun ttl =>
        (JsValue.num (JsNumber.add (.finite now) (.finite ttl))).finite? }
    data

/-- The checks of `putVerified`: hash, signature, expiry, and that a claimed
encoding can be undone. -/
def verifies (metadata : ContentMetadata) (data : Buffer) (now : ℤ) : Bool :=
  computeContentId p data = metadata.contentId && verifyContentSignature p metadata &&
    !metadata.expired now &&
    (metadata.encoding.isNone || (decodeStoredContent p metadata data).isSome)

def putVerified (s : ContentStore) (metadata : ContentMetadata) (data : Buffer) (now : ℤ) :
    ContentStore × Bool :=
  if verifies p metadata data now then (s.insert trustRank metadata data, true) else (s, false)

end

/-- Look a content up; an expired entry is dropped and counts as absent. -/
def readLive (s : ContentStore) (contentId : String) (now : ℤ) :
    ContentStore × Option StoredContent :=
  match s.items.get? contentId with
  | some item =>
    if item.metadata.expired now then ({ s with items := s.items.delete contentId }, none)
    else (s, some item)
  | none => (s, none)

/-- The chunks of a stored content, none when it is absent. -/
def chunksFor (s : ContentStore) (contentId : String) (now : ℤ) : List Buffer :=
  match (s.readLive contentId now).2 with
  | some item => chunksOf item.data
  | none => []

section Lemmas
variable {p : Platform} {trustRank : String → ℤ} {s : ContentStore} {metadata : ContentMetadata}
  {data : Buffer} {now : ℤ}

theorem putVerified_of_verifies (h : verifies p metadata data now = true) :
    s.putVerified trustRank p metadata data now = (s.insert trustRank metadata data, true) := by
  simp [putVerified, h]

theorem putVerified_of_not_verifies (h : verifies p metadata data now = false) :
    s.putVerified trustRank p metadata data now = (s, false) := by
  simp [putVerified, h]

/-- What is stored hashes to the id in its own metadata. -/
theorem sha256_of_verifies (h : verifies p metadata data now = true) :
    p.sha256 data = metadata.contentId := by
  simp only [verifies, Bool.and_eq_true, decide_eq_true_eq] at h
  exact h.1.1.1

theorem decodes_of_verifies (h : verifies p metadata data now = true) :
    ∃ content, decodeStoredContent p metadata data = some content := by
  simp only [verifies, Bool.and_eq_true, Bool.or_eq_true, Option.isNone_iff_eq_none] at h
  rcases h.2 with hplain | hsome
  · exact ⟨data, decodeStoredContent_of_plain p data hplain⟩
  · exact Option.isSome_iff_exists.mp hsome

end Lemmas

end ContentStore
end Arald
