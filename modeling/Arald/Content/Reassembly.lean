import Arald.Content.Assembler
import Arald.Foundations.Runs
import Arald.Store.BoundedFifoMap

/-!
# Runs of an assembler

What an assembler returns and how much it holds, over any order of chunks. Each
chunk brings its own claim of how many there are; the first one accepted fixes the
total of the entry, and a later one is held against its own claim only.
-/

namespace Arald

open Foundations

namespace ChunkAssembler

def create (maxEntries maxChunksPerEntry : WithTop ℤ) : ChunkAssembler where
  entries := .empty
  maxEntries := maxEntries
  maxChunksPerEntry := maxChunksPerEntry

def discard (a : ChunkAssembler) (contentId : String) : ChunkAssembler :=
  { a with entries := a.entries.delete contentId }

variable {p : Platform} {a : ChunkAssembler} {contentId key : String} {chunkIndex totalChunks : ℤ}
  {data : Buffer} {entry : AssemblyEntry}

@[simp] theorem maxEntries_makeRoom : a.makeRoom.maxEntries = a.maxEntries := by
  unfold makeRoom
  split
  · split <;> rfl
  · rfl

@[simp] theorem maxEntries_place :
    (a.place contentId chunkIndex totalChunks data).maxEntries = a.maxEntries := by
  unfold place
  split
  · rfl
  · exact maxEntries_makeRoom

/-- A content that is not complete is kept, and a complete one given up. -/
theorem tryComplete_cases (p : Platform) (a : ChunkAssembler) (contentId : String) (metadata : ContentMetadata) :
    a.tryComplete p contentId metadata = (a, none) ∨
      (a.tryComplete p contentId metadata).1 = a.discard contentId := by
  unfold tryComplete
  split
  · split
    · exact .inr rfl
    · exact .inl rfl
  · exact .inl rfl

theorem get?_of_makeRoom (h : a.makeRoom.entries.get? key = some entry) :
    a.entries.get? key = some entry := by
  rcases a.get?_makeRoom key with hsame | ⟨-, -, hnone⟩
  · rwa [hsame] at h
  · rw [hnone] at h
    cases h

/-- Another content is held as before, or given up. -/
theorem get?_of_place (hne : key ≠ contentId)
    (h : (a.place contentId chunkIndex totalChunks data).entries.get? key = some entry) :
    a.entries.get? key = some entry := by
  unfold place at h
  split at h
  · rwa [OrderedMap.get?_set_of_ne _ _ hne] at h
  · rw [OrderedMap.get?_set_of_ne _ _ hne] at h
    exact get?_of_makeRoom h

/-- There is room for one content more after the oldest was given up. -/
theorem size_makeRoom_succ_le
    (h : (((a.entries.size : ℕ) : ℤ) : WithTop ℤ) ≤ max 1 a.maxEntries) :
    (((a.makeRoom.entries.size + 1 : ℕ) : ℤ) : WithTop ℤ) ≤ max 1 a.maxEntries := by
  unfold makeRoom
  split
  · split
    · next oldestKey hold =>
      rw [OrderedMap.size_delete_of_mem (OrderedMap.mem_keys_of_oldest? hold)]
      exact h
    · next hnone =>
      rw [OrderedMap.oldest?_eq_none.mp hnone]
      exact le_max_left ..
  · next hfull =>
    have hlt : (((a.entries.size : ℕ) : ℤ) : WithTop ℤ) < a.maxEntries := by simpa [isFull] using hfull
    exact (BoundedFifoMap.succ_cast_le_of_lt hlt).trans (le_max_right ..)

theorem size_place_le (h : (((a.entries.size : ℕ) : ℤ) : WithTop ℤ) ≤ max 1 a.maxEntries) :
    ((((a.place contentId chunkIndex totalChunks data).entries.size : ℕ) : ℤ) : WithTop ℤ) ≤
      max 1 a.maxEntries := by
  unfold place
  split
  · next entry hget =>
    rw [OrderedMap.size_set_of_mem _ (OrderedMap.mem_keys_of_get? hget)]
    exact h
  · next hnone =>
    have habsent : contentId ∉ a.makeRoom.entries.keys := by
      intro hmem
      obtain ⟨entry, hentry⟩ := OrderedMap.mem_keys.mp hmem
      have hget := get?_of_makeRoom (OrderedMap.get?_eq_some.mpr hentry)
      rw [hnone] at hget
      cases hget
    dsimp only
    rw [OrderedMap.size_set_of_notMem _ habsent]
    exact size_makeRoom_succ_le h

end ChunkAssembler

/-! ### Runs -/

structure ChunkRun where
  assembler : ChunkAssembler
  /-- Index and claimed total of the chunks of a content that were accepted since it
  was last returned or discarded, the latest first. -/
  added : String → List (ℤ × ℤ)

inductive ChunkEvent where
  | add (contentId : String) (chunkIndex totalChunks : Option ℤ) (data : Buffer)
  | complete (contentId : String) (metadata : ContentMetadata)
  | discard (contentId : String)

namespace ChunkRun

/-- The record after a chunk was accepted. -/
def recordAdded (s : ChunkRun) (contentId : String) : Option ℤ → Option ℤ → String → List (ℤ × ℤ)
  | some chunkIndex, some totalChunks =>
    Function.update s.added contentId ((chunkIndex, totalChunks) :: s.added contentId)
  | _, _ => s.added

def step (p : Platform) (s : ChunkRun) : ChunkEvent → Option ChunkRun
  | .add contentId chunkIndex totalChunks data =>
    let r := s.assembler.addChunk contentId chunkIndex totalChunks data
    some ⟨r.1, if r.2 then s.recordAdded contentId chunkIndex totalChunks else s.added⟩
  | .complete contentId metadata =>
    let r := s.assembler.tryComplete p contentId metadata
    some ⟨r.1, if r.2.isSome then Function.update s.added contentId [] else s.added⟩
  | .discard contentId =>
    some ⟨s.assembler.discard contentId, Function.update s.added contentId []⟩

/-- An empty assembler with any bounds. -/
def system (p : Platform) : System ChunkRun ChunkEvent where
  Init s := ∃ maxEntries maxChunksPerEntry, s = ⟨.create maxEntries maxChunksPerEntry, fun _ => []⟩
  step := step p

/-- The index was accepted for the content. -/
def hasAdded (s : ChunkRun) (contentId : String) (chunkIndex : ℤ) : Bool :=
  (s.added contentId).any fun c => c.1 = chunkIndex

variable {p : Platform} {s s' : ChunkRun} {e : ChunkEvent} {contentId : String} {entry : AssemblyEntry}
  {chunkIndex totalChunks : ℤ} {data : Buffer}

/-- A chunk is refused, or put away and recorded. -/
theorem step_add {index? total? : Option ℤ} (h : s.step p (.add contentId index? total? data) = some s') :
    s' = s ∨ ∃ chunkIndex totalChunks, index? = some chunkIndex ∧ total? = some totalChunks ∧
      s.assembler.admits chunkIndex totalChunks = true ∧
      s' = ⟨s.assembler.place contentId chunkIndex totalChunks data,
        Function.update s.added contentId ((chunkIndex, totalChunks) :: s.added contentId)⟩ := by
  cases h
  cases haccepted : (s.assembler.addChunk contentId index? total? data).2 with
  | false =>
    left
    rw [ChunkAssembler.addChunk_rejected haccepted]
    rfl
  | true =>
    obtain ⟨chunkIndex, totalChunks, rfl, rfl, hadmits, hplace⟩ := ChunkAssembler.addChunk_accepted haccepted
    right
    refine ⟨chunkIndex, totalChunks, rfl, rfl, hadmits, ?_⟩
    rw [hplace]
    rfl

/-! ### Bounds -/

/-- Every chunk of an entry was accepted on its own claim. -/
structure Claimed (s : ChunkRun) (contentId : String) (entry : AssemblyEntry) : Prop where
  nonempty : entry.chunks.entries ≠ []
  claim : ∀ chunkIndex ∈ entry.chunks.keys, ∃ totalChunks, (chunkIndex, totalChunks) ∈ s.added contentId ∧
    s.assembler.admits chunkIndex totalChunks = true

structure Bounded (s : ChunkRun) : Prop where
  size : (((s.assembler.entries.size : ℕ) : ℤ) : WithTop ℤ) ≤ max 1 s.assembler.maxEntries
  claimed : ∀ contentId entry, s.assembler.entries.get? contentId = some entry → s.Claimed contentId entry

/-- The number of chunks does not exceed a total that one of them has claimed. -/
theorem Claimed.exists_total (h : s.Claimed contentId entry) :
    ∃ chunkIndex totalChunks, (chunkIndex, totalChunks) ∈ s.added contentId ∧
      entry.chunks.has chunkIndex = true ∧ (entry.chunks.size : ℤ) ≤ totalChunks ∧
      (totalChunks : WithTop ℤ) ≤ s.assembler.maxChunksPerEntry := by
  have hkeys : entry.chunks.keys.toFinset.Nonempty := by
    obtain ⟨chunk, hchunk⟩ := List.exists_mem_of_ne_nil _ h.nonempty
    exact ⟨chunk.1, List.mem_toFinset.mpr (OrderedMap.mem_keys_of_mem (v := chunk.2) hchunk)⟩
  -- the chunk with the highest index claims enough for all of them
  obtain ⟨last, hlast, hmax⟩ := entry.chunks.keys.toFinset.exists_max_image id hkeys
  obtain ⟨totalChunks, hadded, hadmits⟩ := h.claim last (List.mem_toFinset.mp hlast)
  obtain ⟨-, hcap, -, hlt⟩ := ChunkAssembler.admits_iff.mp hadmits
  refine ⟨last, totalChunks, hadded, OrderedMap.has_iff.mpr (List.mem_toFinset.mp hlast), ?_, hcap⟩
  have hsub : entry.chunks.keys.toFinset ⊆ Finset.Icc 0 last := by
    intro i hi
    obtain ⟨_, -, hadmits'⟩ := h.claim i (List.mem_toFinset.mp hi)
    exact Finset.mem_Icc.mpr ⟨(ChunkAssembler.admits_iff.mp hadmits').2.2.1, hmax i hi⟩
  have hcard := Finset.card_le_card hsub
  rw [List.toFinset_card_of_nodup entry.chunks.nodup_keys, OrderedMap.length_keys, Int.card_Icc] at hcard
  have hlow := (ChunkAssembler.admits_iff.mp hadmits).2.2.1
  omega

theorem Claimed.mono (h : s.Claimed contentId entry)
    (hcap : s'.assembler.maxChunksPerEntry = s.assembler.maxChunksPerEntry)
    (hadded : ∀ c ∈ s.added contentId, c ∈ s'.added contentId) : s'.Claimed contentId entry where
  nonempty := h.nonempty
  claim := by
    intro chunkIndex hmem
    obtain ⟨totalChunks, hclaim, hadmits⟩ := h.claim chunkIndex hmem
    refine ⟨totalChunks, hadded _ hclaim, ?_⟩
    rw [ChunkAssembler.admits, hcap]
    exact hadmits

theorem Bounded.place (h : s.Bounded) (hadmits : s.assembler.admits chunkIndex totalChunks = true) :
    Bounded ⟨s.assembler.place contentId chunkIndex totalChunks data,
      Function.update s.added contentId ((chunkIndex, totalChunks) :: s.added contentId)⟩ where
  size := by
    rw [ChunkAssembler.maxEntries_place]
    exact ChunkAssembler.size_place_le h.size
  claimed := by
    intro key entry hget
    dsimp only at hget
    rcases eq_or_ne key contentId with rfl | hne
    · have hadmits' : (s.assembler.place key chunkIndex totalChunks data).admits chunkIndex totalChunks =
          true := by
        rw [ChunkAssembler.admits, ChunkAssembler.maxChunksPerEntry_place]
        exact hadmits
      have hnew : ∀ chunks : OrderedMap ℤ Buffer, (chunks.set chunkIndex data).entries ≠ [] := by
        intro chunks hnil
        have hmem := OrderedMap.mem_set.mpr (.inl ⟨rfl, rfl⟩ : (chunkIndex = chunkIndex ∧ data = data) ∨
          ((chunkIndex, data) ∈ chunks.entries ∧ chunkIndex ≠ chunkIndex))
        rw [hnil] at hmem
        cases hmem
      cases hold : s.assembler.entries.get? key with
      | none =>
        rw [ChunkAssembler.get?_place_self_of_none _ _ _ hold] at hget
        obtain rfl := Option.some.inj hget
        refine ⟨hnew _, fun i hi => ?_⟩
        rcases OrderedMap.mem_keys_set.mp hi with rfl | hi
        · exact ⟨totalChunks, by simp, hadmits'⟩
        · cases hi
      | some before =>
        rw [ChunkAssembler.get?_place_self_of_some _ _ _ hold] at hget
        obtain rfl := Option.some.inj hget
        refine ⟨hnew _, fun i hi => ?_⟩
        rcases OrderedMap.mem_keys_set.mp hi with rfl | hi
        · exact ⟨totalChunks, by simp, hadmits'⟩
        · refine ((h.claimed key before hold).mono ChunkAssembler.maxChunksPerEntry_place ?_).claim i hi
          intro c hc
          simp [hc]
    · refine (h.claimed key entry (ChunkAssembler.get?_of_place hne hget)).mono
        ChunkAssembler.maxChunksPerEntry_place ?_
      intro c hc
      simpa [Function.update_of_ne hne] using hc

/-- Entries are only taken out, and the record of the others is kept. -/
theorem Bounded.of_subset {a : ChunkAssembler} {added : String → List (ℤ × ℤ)} (h : s.Bounded)
    (hbounds : a.maxEntries = s.assembler.maxEntries ∧ a.maxChunksPerEntry = s.assembler.maxChunksPerEntry)
    (hsize : a.entries.size ≤ s.assembler.entries.size)
    (hheld : ∀ key entry, a.entries.get? key = some entry →
      s.assembler.entries.get? key = some entry ∧ added key = s.added key) : Bounded ⟨a, added⟩ where
  size := by
    rw [hbounds.1]
    exact le_trans (by exact_mod_cast hsize) h.size
  claimed := by
    intro key entry hget
    obtain ⟨hbefore, hadded⟩ := hheld key entry hget
    refine (h.claimed key entry hbefore).mono hbounds.2 fun c hc => ?_
    dsimp only
    rwa [hadded]

theorem Bounded.step (h : s.Bounded) (hstep : s.step p e = some s') : s'.Bounded := by
  cases e with
  | add contentId index? total? data =>
    rcases step_add hstep with rfl | ⟨chunkIndex, totalChunks, -, -, hadmits, rfl⟩
    · exact h
    · exact h.place hadmits
  | complete contentId metadata =>
    cases hstep
    rcases s.assembler.tryComplete_cases p contentId metadata with hkept | hgone
    · rw [hkept]
      exact h
    · rw [hgone]
      refine h.of_subset ⟨rfl, rfl⟩ (OrderedMap.size_delete_le ..) fun key entry hget => ?_
      rw [ChunkAssembler.discard, OrderedMap.get?_delete] at hget
      split_ifs at hget with hkey
      refine ⟨hget, ?_⟩
      split
      · exact Function.update_of_ne hkey ..
      · rfl
  | discard contentId =>
    cases hstep
    refine h.of_subset ⟨rfl, rfl⟩ (OrderedMap.size_delete_le ..) fun key entry hget => ?_
    rw [ChunkAssembler.discard, OrderedMap.get?_delete] at hget
    split_ifs at hget with hkey
    exact ⟨hget, Function.update_of_ne hkey ..⟩

theorem bounded (h : (system p).Reachable s) : s.Bounded := by
  apply h.invariant (I := Bounded)
  · rintro _ ⟨maxEntries, maxChunksPerEntry, rfl⟩
    refine ⟨le_max_of_le_left (WithTop.coe_le_coe.mpr (by simp [ChunkAssembler.create])), ?_⟩
    simp [ChunkAssembler.create]
  · intro s e s' hs _ hstep
    exact hs.step hstep

/-! ### Genuine chunks -/

/-- The chunk is one of those that the content of its id is cut into. -/
def genuine (content : String → Buffer) (ids : List String) : ChunkEvent → Bool
  | .add contentId (some chunkIndex) (some totalChunks) data =>
    ids.contains contentId && 0 ≤ chunkIndex &&
      (chunksOf (content contentId))[chunkIndex.toNat]? = some data &&
      totalChunks = chunkCountForSize (content contentId).length
  | .add .. => false
  | .complete contentId metadata => ids.contains contentId && metadata.contentId = contentId
  | .discard _ => false

variable {content : String → Buffer} {ids : List String} {metadata : ContentMetadata}

/-- All of the content's chunks were added. -/
def HasAll (s : ChunkRun) (content : String → Buffer) (contentId : String) : Prop :=
  ∀ i < (chunksOf (content contentId)).length, s.hasAdded contentId i = true

instance (s : ChunkRun) (content : String → Buffer) (contentId : String) :
    Decidable (s.HasAll content contentId) :=
  inferInstanceAs (Decidable (∀ i < _, _))

/-- What is held of a content are the chunks of it that were added. -/
structure Holds (content : String → Buffer) (s : ChunkRun) (contentId : String) : Prop where
  total : ∀ entry, s.assembler.entries.get? contentId = some entry →
    entry.totalChunks = (chunksOf (content contentId)).length
  chunk : ∀ (i : ℕ) piece, (chunksOf (content contentId))[i]? = some piece →
    ((s.assembler.entries.get? contentId).bind fun entry => entry.chunks.get? i) =
      if s.hasAdded contentId i then some piece else none

/-- Nothing but the contents is held, and of these what was added. -/
structure Collects (content : String → Buffer) (ids : List String) (s : ChunkRun) : Prop where
  known : ∀ contentId ∈ s.assembler.entries.keys, contentId ∈ ids
  holds : ∀ contentId ∈ ids, s.Holds content contentId

/-- A content comes out when all of its chunks were added, and not before. -/
theorem Holds.tryComplete (h : s.Holds content contentId) (hid : computeContentId p (content contentId) = contentId)
    (hmetadata : metadata.contentId = contentId) :
    s.assembler.tryComplete p contentId metadata =
      if s.HasAll content contentId then (s.assembler.discard contentId, some (content contentId))
      else (s.assembler, none) := by
  cases hget : s.assembler.entries.get? contentId with
  | none =>
    have hnot : ¬s.HasAll content contentId := by
      intro hall
      have hpos := length_chunksOf_pos (content contentId)
      have hchunk := h.chunk 0 _ (List.getElem?_eq_getElem hpos)
      rw [hget, hall 0 hpos, if_pos rfl] at hchunk
      cases hchunk
    rw [if_neg hnot, ChunkAssembler.tryComplete, hget]
  | some entry =>
    have htotal := h.total entry hget
    have hpiece : ∀ (i : ℕ) (hi : i < (chunksOf (content contentId)).length), entry.chunks.get? i =
        if s.hasAdded contentId i then some (chunksOf (content contentId))[i] else none := by
      intro i hi
      have hchunk := h.chunk i _ (List.getElem?_eq_getElem hi)
      rwa [hget, Option.bind_some] at hchunk
    by_cases hall : s.HasAll content contentId
    · have hheld : ∀ i : ℕ, ∀ hi : i < (chunksOf (content contentId)).length,
          entry.chunks.get? i = some (chunksOf (content contentId))[i] := by
        intro i hi
        rw [hpiece i hi, hall i hi, if_pos rfl]
      have hcomplete : entry.isComplete = true := by
        refine AssemblyEntry.isComplete_of_forall fun i hlow hhigh => ?_
        have hlt : i.toNat < (chunksOf (content contentId)).length := by omega
        have hsome := hheld i.toNat hlt
        rw [Int.toNat_of_nonneg hlow] at hsome
        rw [OrderedMap.has, hsome]
        rfl
      have hbytes : entry.bytes = content contentId := by
        rw [AssemblyEntry.bytes_eq_flatten htotal hheld, flatten_chunksOf]
      rw [if_pos hall, ChunkAssembler.tryComplete_of_complete hget hcomplete, hbytes, hid, hmetadata,
        if_pos rfl]
      rfl
    · have hincomplete : entry.isComplete = false := by
        refine Bool.eq_false_iff.mpr fun hcomplete => hall fun i hi => ?_
        have hhas := AssemblyEntry.has_of_isComplete hcomplete (Int.natCast_nonneg i) (by omega)
        rw [OrderedMap.has, hpiece i hi] at hhas
        split_ifs at hhas with hadded
        · exact hadded
        · cases hhas
      rw [if_neg hall, ChunkAssembler.tryComplete_keeps hget hincomplete]

/-! ### Adding genuine chunks -/

theorem Holds.congr (h : s.Holds content contentId)
    (hget : s'.assembler.entries.get? contentId = s.assembler.entries.get? contentId)
    (hadded : s'.added contentId = s.added contentId) : s'.Holds content contentId where
  total := by
    rw [hget]
    exact h.total
  chunk := by
    rw [hget]
    unfold hasAdded
    rw [hadded]
    exact h.chunk

/-- A content of its own always finds a place. -/
theorem Collects.not_isFull (h : s.Collects content ids)
    (hroom : ((ids.length : ℤ) : WithTop ℤ) ≤ s.assembler.maxEntries) (hid : contentId ∈ ids)
    (hnew : s.assembler.entries.get? contentId = none) : s.assembler.isFull = false := by
  have hsub : s.assembler.entries.keys ⊆ ids.erase contentId := by
    intro key hkey
    have hne : key ≠ contentId := by
      rintro rfl
      exact OrderedMap.get?_eq_none.mp hnew hkey
    exact (List.mem_erase_of_ne hne).mpr (h.known key hkey)
  have hlength := (List.subperm_of_subset s.assembler.entries.nodup_keys hsub).length_le
  rw [OrderedMap.length_keys, List.length_erase_of_mem hid] at hlength
  have hpos := List.length_pos_of_mem hid
  have hlt : (((s.assembler.entries.size : ℕ) : ℤ) : WithTop ℤ) < ((ids.length : ℤ) : WithTop ℤ) :=
    WithTop.coe_lt_coe.mpr (by omega)
  simpa [ChunkAssembler.isFull] using hlt.trans_le hroom

theorem Holds.place {i : ℕ} (h : s.Holds content contentId)
    (hpiece : (chunksOf (content contentId))[i]? = some data)
    (htotal : totalChunks = (chunksOf (content contentId)).length) :
    Holds content ⟨s.assembler.place contentId i totalChunks data,
      Function.update s.added contentId ((↑i, totalChunks) :: s.added contentId)⟩ contentId := by
  have hadded : ∀ j : ℕ, hasAdded ⟨s.assembler.place contentId i totalChunks data,
      Function.update s.added contentId ((↑i, totalChunks) :: s.added contentId)⟩ contentId j =
        (decide (j = i) || s.hasAdded contentId j) := by
    intro j
    simp [hasAdded, eq_comm]
  cases hold : s.assembler.entries.get? contentId with
  | none =>
    have hget := ChunkAssembler.get?_place_self_of_none (↑i) totalChunks data hold
    constructor
    · rintro entry hentry
      obtain rfl := Option.some.inj (hget.symm.trans hentry)
      exact htotal
    · intro j piece hj
      have hbefore := h.chunk j piece hj
      rw [hold, Option.bind_none] at hbefore
      rw [hget, hadded, Option.bind_some, OrderedMap.get?_set]
      by_cases hji : j = i
      · subst hji
        obtain rfl := Option.some.inj (hpiece.symm.trans hj)
        simp
      · simpa [hji] using hbefore
  | some before =>
    have hget := ChunkAssembler.get?_place_self_of_some (↑i) totalChunks data hold
    constructor
    · rintro entry hentry
      obtain rfl := Option.some.inj (hget.symm.trans hentry)
      exact h.total before hold
    · intro j piece hj
      have hbefore := h.chunk j piece hj
      rw [hold, Option.bind_some] at hbefore
      rw [hget, hadded, Option.bind_some, OrderedMap.get?_set]
      by_cases hji : j = i
      · subst hji
        obtain rfl := Option.some.inj (hpiece.symm.trans hj)
        simp
      · simpa [hji] using hbefore

theorem Collects.step (h : s.Collects content ids)
    (hids : ∀ contentId ∈ ids, computeContentId p (content contentId) = contentId)
    (hroom : ((ids.length : ℤ) : WithTop ℤ) ≤ s.assembler.maxEntries)
    (hgenuine : genuine content ids e = true) (hstep : s.step p e = some s') : s'.Collects content ids := by
  unfold genuine at hgenuine
  split at hgenuine
  · next contentId chunkIndex totalChunks data =>
    simp only [Bool.and_eq_true, decide_eq_true_eq, List.contains_iff_mem] at hgenuine
    obtain ⟨⟨⟨hid, hlow⟩, hpiece⟩, htotal⟩ := hgenuine
    rcases step_add hstep with rfl | ⟨_, _, hindex, htotal', -, rfl⟩
    · exact h
    · cases hindex
      cases htotal'
      obtain ⟨i, rfl⟩ := Int.eq_ofNat_of_zero_le hlow
      rw [chunkCountForSize_length] at htotal
      constructor
      · intro key hkey
        rcases eq_or_ne key contentId with rfl | hne
        · exact hid
        · obtain ⟨entry, hentry⟩ := OrderedMap.mem_keys.mp hkey
          have hbefore := ChunkAssembler.get?_of_place hne (OrderedMap.get?_eq_some.mpr hentry)
          exact h.known key (OrderedMap.mem_keys_of_get? hbefore)
      · intro key hkey
        rcases eq_or_ne key contentId with rfl | hne
        · exact (h.holds key hkey).place (by simpa using hpiece) htotal
        · refine (h.holds key hkey).congr ?_ (Function.update_of_ne hne ..)
          rcases ChunkAssembler.get?_place_of_ne (↑i) totalChunks data hne with hsame | ⟨hnew, hfull, -⟩
          · exact hsame
          · rw [h.not_isFull hroom hid hnew] at hfull
            cases hfull
  · cases hgenuine
  · next contentId metadata =>
    simp only [Bool.and_eq_true, decide_eq_true_eq, List.contains_iff_mem] at hgenuine
    obtain ⟨hid, hmetadata⟩ := hgenuine
    cases hstep
    rw [(h.holds contentId hid).tryComplete (hids contentId hid) hmetadata]
    by_cases hall : s.HasAll content contentId
    · rw [if_pos hall]
      constructor
      · intro key hkey
        exact h.known key (OrderedMap.mem_keys_delete.mp hkey).1
      · intro key hkey
        rcases eq_or_ne key contentId with rfl | hne
        · constructor
          · intro entry hentry
            rw [ChunkAssembler.discard, OrderedMap.get?_delete_self] at hentry
            cases hentry
          · intro i piece _
            simp [ChunkAssembler.discard, hasAdded]
        · refine (h.holds key hkey).congr ?_ (Function.update_of_ne hne ..)
          exact OrderedMap.get?_delete_of_ne _ hne
    · rw [if_neg hall]
      exact h
  · cases hgenuine

theorem maxEntries_step (hstep : s.step p e = some s') : s'.assembler.maxEntries = s.assembler.maxEntries := by
  cases e with
  | add contentId index? total? data =>
    rcases step_add hstep with rfl | ⟨_, _, -, -, -, rfl⟩
    · rfl
    · exact ChunkAssembler.maxEntries_place
  | complete contentId metadata =>
    cases hstep
    rcases s.assembler.tryComplete_cases p contentId metadata with hkept | hgone
    · rw [hkept]
    · rw [hgone]
      rfl
  | discard contentId =>
    cases hstep
    rfl

theorem collects (hids : ∀ contentId ∈ ids, computeContentId p (content contentId) = contentId)
    (h : (system p).ReachableUnder (fun _ e => genuine content ids e = true) s)
    (hroom : ((ids.length : ℤ) : WithTop ℤ) ≤ s.assembler.maxEntries) : s.Collects content ids := by
  revert hroom
  apply h.invariant (I := fun s => ((ids.length : ℤ) : WithTop ℤ) ≤ s.assembler.maxEntries →
    s.Collects content ids)
  · rintro _ ⟨maxEntries, maxChunksPerEntry, rfl⟩ -
    constructor
    · intro key hkey
      cases hkey
    · intro key _
      constructor
      · intro entry hentry
        cases hentry
      · intro i piece _
        rfl
  · intro s e s' hs hgenuine hstep hroom
    rw [maxEntries_step hstep] at hroom
    exact (hs hroom).step hids hroom hgenuine hstep

/-! ### Main result -/

def ridgeId : String := computeContentId (samplePlatform []) (utf8 "ridge")

def emptyId : String := computeContentId (samplePlatform []) []

def sampleContent (contentId : String) : Buffer := if contentId = ridgeId then utf8 "ridge" else []

def emptyRun (maxEntries : ℤ) : ChunkRun := ⟨.create maxEntries ChunkAssembler.defaultMaxChunksPerEntry, fun _ => []⟩

end ChunkRun
end Arald
