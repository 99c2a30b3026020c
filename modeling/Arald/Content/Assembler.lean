import Arald.Content.Metadata
import Arald.Foundations.OrderedMap

/-!
# Reassembly of chunked content

`ChunkAssembler` of `content.ts`. It is fed by whatever the network sends, so
the number of contents it holds and the number of chunks that one of them may
claim are bounded; the content that came in first is given up for a new one.

A field of a chunk that is not an integer is a `none`.
-/

namespace Arald

open Foundations

structure AssemblyEntry where
  chunks : OrderedMap ℤ Buffer
  /-- What the first accepted chunk claimed. -/
  totalChunks : ℤ

namespace AssemblyEntry

/-- There are enough chunks, and none of the claimed indices is missing. -/
def isComplete (e : AssemblyEntry) : Bool :=
  e.totalChunks ≤ e.chunks.size && (List.range e.totalChunks.toNat).all fun i : ℕ => e.chunks.has (i : ℤ)

/-- The chunks in order. -/
def bytes (e : AssemblyEntry) : Buffer :=
  (List.range e.totalChunks.toNat).flatMap fun i : ℕ => (e.chunks.get? (i : ℤ)).getD []

/-- Holding every index below the claimed total is enough to be complete. -/
theorem isComplete_of_forall {e : AssemblyEntry}
    (h : ∀ i : ℤ, 0 ≤ i → i < e.totalChunks → e.chunks.has i = true) : e.isComplete = true := by
  have hsize : e.totalChunks ≤ e.chunks.size := by
    rcases le_or_gt e.totalChunks 0 with hneg | hpos
    · omega
    · have hsub : Finset.Ico 0 e.totalChunks ⊆ e.chunks.keys.toFinset := by
        intro i hi
        obtain ⟨hlow, hhigh⟩ := Finset.mem_Ico.mp hi
        exact List.mem_toFinset.mpr (OrderedMap.has_iff.mp (h i hlow hhigh))
      have hcard := Finset.card_le_card hsub
      rw [List.toFinset_card_of_nodup e.chunks.nodup_keys, OrderedMap.length_keys, Int.card_Ico]
        at hcard
      omega
  rw [isComplete, Bool.and_eq_true, decide_eq_true_eq, List.all_eq_true]
  refine ⟨hsize, ?_⟩
  intro i hi
  have hlt := List.mem_range.mp hi
  apply h i (by omega) (by omega)

/-- Complete entries hold every index below the claimed total. -/
theorem has_of_isComplete {e : AssemblyEntry} (h : e.isComplete = true) {i : ℤ} (h0 : 0 ≤ i)
    (hi : i < e.totalChunks) : e.chunks.has i = true := by
  rw [isComplete, Bool.and_eq_true, List.all_eq_true] at h
  have hmem := h.2 i.toNat (List.mem_range.mpr (by omega))
  rwa [Int.toNat_of_nonneg h0] at hmem

/-- An entry that holds the pieces of a list, and as many as it has, spells it out. -/
theorem bytes_eq_flatten {e : AssemblyEntry} {pieces : List Buffer}
    (htotal : e.totalChunks = pieces.length)
    (h : ∀ i : ℕ, ∀ hi : i < pieces.length, e.chunks.get? i = some pieces[i]) :
    e.bytes = pieces.flatten := by
  rw [bytes, htotal, Int.toNat_natCast, List.flatMap_def]
  congr 1
  apply List.ext_getElem
  · simp
  · intro i hi hi'
    simp [h i hi']

end AssemblyEntry

structure ChunkAssembler where
  entries : OrderedMap String AssemblyEntry
  maxEntries : WithTop ℤ
  maxChunksPerEntry : WithTop ℤ

namespace ChunkAssembler

def defaultMaxEntries : WithTop ℤ := (64 : ℤ)

def defaultMaxChunksPerEntry : WithTop ℤ := (65536 : ℤ)

/-- The claim of a chunk is within the bounds. -/
def admits (a : ChunkAssembler) (chunkIndex totalChunks : ℤ) : Bool :=
  0 < totalChunks && (totalChunks : WithTop ℤ) ≤ a.maxChunksPerEntry && 0 ≤ chunkIndex &&
    chunkIndex < totalChunks

/-- As many contents are held as the bound allows. -/
def isFull (a : ChunkAssembler) : Bool :=
  a.maxEntries ≤ (((a.entries.size : ℕ) : ℤ) : WithTop ℤ)

/-- Give up the oldest content when there is no room for another one. -/
def makeRoom (a : ChunkAssembler) : ChunkAssembler :=
  if a.isFull then
    match a.entries.oldest? with
    | some oldestKey => { a with entries := a.entries.delete oldestKey }
    | none => a
  else a

/-- Put an admitted chunk away. -/
def place (a : ChunkAssembler) (contentId : String) (chunkIndex totalChunks : ℤ) (data : Buffer) :
    ChunkAssembler :=
  match a.entries.get? contentId with
  | some entry =>
    { a with entries :=
        a.entries.set contentId { entry with chunks := entry.chunks.set chunkIndex data } }
  | none =>
    let a := a.makeRoom
    { a with entries := a.entries.set contentId ⟨OrderedMap.empty.set chunkIndex data, totalChunks⟩ }

/-- Whether the chunk was accepted, next to the new state. -/
def addChunk (a : ChunkAssembler) (contentId : String) (chunkIndex totalChunks : Option ℤ)
    (data : Buffer) : ChunkAssembler × Bool :=
  match chunkIndex, totalChunks with
  | some chunkIndex, some totalChunks =>
    if a.admits chunkIndex totalChunks then (a.place contentId chunkIndex totalChunks data, true)
    else (a, false)
  | _, _ => (a, false)

/-- The reassembled bytes, once all chunks are there and they hash to the id in
the metadata. A complete entry is given up either way. -/
def tryComplete (p : Platform) (a : ChunkAssembler) (contentId : String)
    (metadata : ContentMetadata) : ChunkAssembler × Option Buffer :=
  match a.entries.get? contentId with
  | some entry =>
    if entry.isComplete then
      ({ a with entries := a.entries.delete contentId },
        if computeContentId p entry.bytes = metadata.contentId then some entry.bytes else none)
    else (a, none)
  | none => (a, none)

section Lemmas
variable {p : Platform} {a : ChunkAssembler} {contentId : String} {metadata : ContentMetadata}
  {chunkIndex totalChunks : ℤ} {data : Buffer}

theorem admits_iff : a.admits chunkIndex totalChunks = true ↔
    0 < totalChunks ∧ (totalChunks : WithTop ℤ) ≤ a.maxChunksPerEntry ∧ 0 ≤ chunkIndex ∧
      chunkIndex < totalChunks := by
  simp [admits, and_assoc]

/-! ### Adding a chunk -/

/-- Only the oldest content of a full assembler goes. -/
theorem get?_makeRoom (key : String) :
    a.makeRoom.entries.get? key = a.entries.get? key ∨
      (a.isFull = true ∧ a.entries.oldest? = some key ∧ a.makeRoom.entries.get? key = none) := by
  unfold makeRoom
  cases hfull : a.isFull with
  | false => exact .inl rfl
  | true =>
    cases hold : a.entries.oldest? with
    | none => exact .inl rfl
    | some oldestKey =>
      by_cases hkey : key = oldestKey
      · subst hkey
        right
        simp
      · left
        simp [OrderedMap.get?_delete_of_ne _ hkey]

@[simp] theorem maxChunksPerEntry_makeRoom : a.makeRoom.maxChunksPerEntry = a.maxChunksPerEntry := by
  unfold makeRoom
  repeat' split
  all_goals rfl

@[simp] theorem maxChunksPerEntry_place :
    (a.place contentId chunkIndex totalChunks data).maxChunksPerEntry = a.maxChunksPerEntry := by
  unfold place
  split
  · rfl
  · exact maxChunksPerEntry_makeRoom

theorem get?_place_self_of_some (chunkIndex totalChunks : ℤ) (data : Buffer) {entry : AssemblyEntry} (h : a.entries.get? contentId = some entry) :
    (a.place contentId chunkIndex totalChunks data).entries.get? contentId =
      some { entry with chunks := entry.chunks.set chunkIndex data } := by
  simp [place, h]

theorem get?_place_self_of_none (chunkIndex totalChunks : ℤ) (data : Buffer) (h : a.entries.get? contentId = none) :
    (a.place contentId chunkIndex totalChunks data).entries.get? contentId =
      some ⟨OrderedMap.empty.set chunkIndex data, totalChunks⟩ := by
  simp [place, h]

/-- Another content is untouched, unless it is the one that makes room. -/
theorem get?_place_of_ne (chunkIndex totalChunks : ℤ) (data : Buffer) {key : String}
    (hne : key ≠ contentId) :
    (a.place contentId chunkIndex totalChunks data).entries.get? key = a.entries.get? key ∨
      (a.entries.get? contentId = none ∧ a.isFull = true ∧ a.entries.oldest? = some key) := by
  cases hget : a.entries.get? contentId with
  | some entry =>
    left
    simp [place, hget, OrderedMap.get?_set_of_ne _ _ hne]
  | none =>
    rcases a.get?_makeRoom key with hsame | ⟨hfull, hold, -⟩
    · left
      simp [place, hget, OrderedMap.get?_set_of_ne _ _ hne, hsame]
    · exact .inr ⟨rfl, hfull, hold⟩

/-- An accepted chunk carries integers within the bounds, and is put away. -/
theorem addChunk_accepted {chunkIndex? totalChunks? : Option ℤ}
    (h : (a.addChunk contentId chunkIndex? totalChunks? data).2 = true) :
    ∃ chunkIndex totalChunks, chunkIndex? = some chunkIndex ∧ totalChunks? = some totalChunks ∧
      a.admits chunkIndex totalChunks = true ∧
      (a.addChunk contentId chunkIndex? totalChunks? data).1 =
        a.place contentId chunkIndex totalChunks data := by
  unfold addChunk at h ⊢
  split at h
  · next i t =>
    split at h
    · next hadmits => exact ⟨i, t, rfl, rfl, hadmits, by simp [hadmits]⟩
    · simp at h
  · simp at h

theorem addChunk_rejected {chunkIndex? totalChunks? : Option ℤ}
    (h : (a.addChunk contentId chunkIndex? totalChunks? data).2 = false) :
    (a.addChunk contentId chunkIndex? totalChunks? data).1 = a := by
  unfold addChunk at h ⊢
  split
  · split
    · next hadmits => simp [hadmits] at h
    · rfl
  · rfl

theorem addChunk_of_admits (h : a.admits chunkIndex totalChunks = true) :
    a.addChunk contentId (some chunkIndex) (some totalChunks) data =
      (a.place contentId chunkIndex totalChunks data, true) := by
  simp [addChunk, h]

/-! ### Completing -/

theorem tryComplete_of_complete {entry : AssemblyEntry} (hget : a.entries.get? contentId = some entry)
    (hcomplete : entry.isComplete = true) :
    a.tryComplete p contentId metadata = ({ a with entries := a.entries.delete contentId },
      if computeContentId p entry.bytes = metadata.contentId then some entry.bytes else none) := by
  simp [tryComplete, hget, hcomplete]

/-- Completing gives at most the content's own entry up. -/
theorem get?_tryComplete_of_ne {key : String} (hne : key ≠ contentId) :
    (a.tryComplete p contentId metadata).1.entries.get? key = a.entries.get? key := by
  unfold tryComplete
  split
  · split
    · exact OrderedMap.get?_delete_of_ne _ hne
    · rfl
  · rfl

/-- The bytes that come out are those of a complete entry, and their digest is
the id in the metadata. -/
theorem tryComplete_eq_some (h : (a.tryComplete p contentId metadata).2 = some data) :
    p.sha256 data = metadata.contentId ∧
      ∃ entry, a.entries.get? contentId = some entry ∧ entry.isComplete = true ∧
        entry.bytes = data := by
  unfold tryComplete at h
  split at h
  · next entry hget =>
    split at h
    · next hcomplete =>
      dsimp only at h
      split at h
      · next hid =>
        obtain rfl := Option.some.inj h
        exact ⟨hid, entry, hget, hcomplete, rfl⟩
      · simp at h
    · simp at h
  · simp at h

/-- An entry that is not given up was not complete. -/
theorem tryComplete_keeps {entry : AssemblyEntry} (hget : a.entries.get? contentId = some entry)
    (hincomplete : entry.isComplete = false) :
    a.tryComplete p contentId metadata = (a, none) := by
  simp [tryComplete, hget, hincomplete]

end Lemmas

end ChunkAssembler
end Arald
