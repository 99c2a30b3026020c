import Arald.Ingest.Originators

/-!
# Reading back what was published

A publication may be stored compressed. The decoder has a ceiling of its own on
what it decompresses to, which the encoder does not look at: a longer content that
compression has made shorter is refused when it is published, never later.
-/

namespace Arald

open Foundations

namespace Box

variable {p : Platform} {b b' : Box} {name mimeType : String} {data : Buffer} {options : PublishOptions}
  {t : Readings} {metadata : ContentMetadata}

/-- A content that has not expired is accepted unless it could not be decoded. -/
theorem publishContent_accepts_iff (hsign : p.SignsFor b.nodeId) (hzstd : p.ZstdInverts) :
    (∃ b' metadata, b.publishContent p name mimeType data options t = (b', .ok metadata)) ↔
      (b.ownMetadata p name mimeType (compressForTransfer p data) options t.check).expired t.store = false ∧
        beyondCeiling p data = false := by
  have hiff : ContentStore.verifies p
      (b.ownMetadata p name mimeType (compressForTransfer p data) options t.check)
      (compressForTransfer p data).data t.store = true ↔ _ :=
    (Bool.eq_iff_iff.mp (verifies_ownMetadata_eq hsign hzstd name mimeType options t.check t.store))
  simp only [Bool.and_eq_true, Bool.not_eq_true'] at hiff
  rw [← hiff]
  constructor
  · rintro ⟨b', metadata, h⟩
    exact verifies_of_publishContent (congrArg Prod.snd h)
  · intro h
    exact ⟨_, _, publishContent_of_verifies h⟩

def sampleNode : Box := .create "hut" {}

end Box
end Arald
