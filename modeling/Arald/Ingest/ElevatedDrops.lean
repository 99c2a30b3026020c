import Arald.Ingest.Frames

/-!
# The elevated-drop budget

The gate classifies a submitted drop by its bytes on the wire, the consumer by
the decoded bytes. Where both say the same kind, at most three elevated drops
are accepted per window and every drop is announced at the priority of its kind.
A compressed drop says nothing on the wire: it costs no slot and is announced
at whatever priority its submitter asks for.
-/

namespace Arald

open Foundations

/-- zstd decompression undoes compression, within the output limit. -/
def Platform.ZstdInverts (p : Platform) : Prop :=
  ∀ (data : Buffer) (maxOutputLength : ℚ),
    p.zstdDecompress (p.zstdCompress data) maxOutputLength =
      if (data.length : ℚ) ≤ maxOutputLength then some data else none

theorem samplePlatform_zstdInverts (texts : List JsValue) :
    (samplePlatform texts).ZstdInverts := by
  intro data maxOutputLength
  simp [samplePlatform, zstdMagic]

/-- What the decoded bytes of a content say, if its name says it is a drop. -/
def decodedDrop (p : Platform) (metadata : ContentMetadata) (data : Buffer) : Option DropPayload :=
  if metadata.name = dropContentName then (decodeStoredContent p metadata data).bind (readDrop p)
  else none

section
variable {p : Platform} {metadata : ContentMetadata} {data content : Buffer}

/-- The bytes as they are, or a shorter compressed form of them. -/
theorem compressForTransfer_cases (p : Platform) (data : Buffer) :
    compressForTransfer p data = { data } ∨
      compressForTransfer p data =
        { data := p.zstdCompress data, encoding := some "zstd", originalSize := some data.length } := by
  unfold compressForTransfer
  dsimp only
  split_ifs
  · exact .inl rfl
  · exact .inl rfl
  · exact .inr rfl

/-- Compressed for transfer or not, a content decodes to nothing else. -/
theorem decode_compressForTransfer (hzstd : p.ZstdInverts)
    (hencoding : metadata.encoding = (compressForTransfer p data).encoding)
    (h : decodeStoredContent p metadata (compressForTransfer p data).data = some content) :
    content = data := by
  rcases compressForTransfer_cases p data with hplain | hzip
  · rw [hplain] at hencoding h
    rw [decodeStoredContent_of_plain p data hencoding] at h
    exact (Option.some_inj.mp h).symm
  · rw [hzip] at hencoding h
    rw [decodeStoredContent, if_pos hencoding, hzstd] at h
    split_ifs at h
    exact (Option.some_inj.mp h).symm

/-- The content is stored compressed although it is longer than what the decoder returns. -/
def beyondCeiling (p : Platform) (data : Buffer) : Bool :=
  (compressForTransfer p data).encoding.isSome && maxDecompressedContentBytes < (data.length : ℚ)

theorem decode_compressForTransfer_eq (hzstd : p.ZstdInverts)
    (hencoding : metadata.encoding = (compressForTransfer p data).encoding)
    (hsize : metadata.originalSize = (compressForTransfer p data).originalSize) :
    decodeStoredContent p metadata (compressForTransfer p data).data =
      if beyondCeiling p data then none else some data := by
  unfold beyondCeiling
  rcases compressForTransfer_cases p data with hplain | hzip
  · rw [hplain] at hencoding ⊢
    exact decodeStoredContent_of_plain p data hencoding
  · rw [hzip] at hencoding hsize ⊢
    rw [decodeStoredContent, if_pos hencoding, hsize, Option.getD_some, hzstd]
    by_cases hlong : maxDecompressedContentBytes < (data.length : ℚ)
    · simp [hlong]
    · simp [hlong, not_lt.mp hlong]

end

namespace Publication

def drop? (p : Platform) (q : Publication) : Option DropPayload := decodedDrop p q.metadata q.data

/-- The publication is a drop of a kind that is not `info`. -/
def isElevated (p : Platform) (q : Publication) : Bool := (q.drop? p).any fun d => d.kind ≠ .info

/-- A drop that was announced was announced at the priority of its kind. -/
def AnnouncedByKind (p : Platform) (q : Publication) : Prop :=
  ∀ d, q.drop? p = some d → ∀ priority, q.announcedAt = some priority →
    priority = dropKindPriority d.kind

end Publication

namespace Box

variable {p : Platform} {b b' : Box}

/-- The elevated drops let in during the window that began at `start`. -/
def elevatedIn (p : Platform) (b : Box) (start : ℤ) : List Publication :=
  b.publications.filter fun q => q.windowStart = start && q.isElevated p

/-- The elevated-drop window after an attempt to take a slot. -/
def chargedWindow (b : Box) (now : ℤ) : BudgetWindow :=
  (b.tryConsumeElevatedDropBudget now).1.elevatedDropWindow

/-- What a step can do to the budget and the publications: touch the window at
most, let in something that is not an elevated drop, or let in something for a
slot. -/
inductive DropStep (p : Platform) (b b' : Box) : Prop
  | idle (now : ℤ)
      (window : b'.elevatedDropWindow = b.elevatedDropWindow ∨
        b'.elevatedDropWindow = b.chargedWindow now)
      (publications : b'.publications = b.publications)
  | free (q : Publication)
      (window : b'.elevatedDropWindow = b.elevatedDropWindow)
      (publications : b'.publications = b.publications ++ [q])
      (start : q.windowStart = b'.elevatedDropWindow.windowStart)
      (plain : q.isElevated p = false)
      (announced : q.AnnouncedByKind p)
  | charged (q : Publication) (now : ℤ)
      (slot : b.hasElevatedDropSlot now = true)
      (window : b'.elevatedDropWindow = b.chargedWindow now)
      (publications : b'.publications = b.publications ++ [q])
      (start : q.windowStart = b'.elevatedDropWindow.windowStart)
      (announced : q.AnnouncedByKind p)

/-! ### The invariant -/

/-- Every window has let in at most as many elevated drops as it has counted. -/
structure Budgeted (p : Platform) (b : Box) : Prop where
  announced : ∀ q ∈ b.publications, q.AnnouncedByKind p
  past : ∀ q ∈ b.publications, q.windowStart ≤ b.elevatedDropWindow.windowStart
  bounded : ∀ start, (b.elevatedIn p start).length ≤ maxElevatedDropsPerWindow
  counted : (b.elevatedIn p b.elevatedDropWindow.windowStart).length ≤ b.elevatedDropWindow.count
  count_le : b.elevatedDropWindow.count ≤ maxElevatedDropsPerWindow

theorem Budgeted.create (nodeId : String) (o : BoxOptions) : Budgeted p (create nodeId o) := by
  constructor <;> simp [Box.create, elevatedIn]

/-- In a window that began after every publication nothing was let in yet. -/
theorem Budgeted.elevatedIn_of_later (h : Budgeted p b) {start : ℤ}
    (hlater : b.elevatedDropWindow.windowStart < start) : b.elevatedIn p start = [] := by
  rw [elevatedIn, List.filter_eq_nil_iff]
  intro q hq
  have hle := h.past q hq
  have hne : q.windowStart ≠ start := by omega
  simp [hne]

/-- The window after an attempt to take a slot, before anything is let in: it
has counted no less than was let in, and one more when a slot was taken. -/
theorem Budgeted.charge (h : Budgeted p b) (now : ℤ) :
    b.elevatedDropWindow.windowStart ≤ (b.chargedWindow now).windowStart ∧
      (b.chargedWindow now).count ≤ maxElevatedDropsPerWindow ∧
      (b.elevatedIn p (b.chargedWindow now).windowStart).length +
        (if b.hasElevatedDropSlot now then 1 else 0) ≤ (b.chargedWindow now).count := by
  have hroll : b.elevatedDropWindow.windowStart ≤
        (b.elevatedDropWindow.roll elevatedDropRateLimitWindowMs now).windowStart ∧
      (b.elevatedDropWindow.roll elevatedDropRateLimitWindowMs now).count ≤ maxElevatedDropsPerWindow ∧
      (b.elevatedIn p (b.elevatedDropWindow.roll elevatedDropRateLimitWindowMs now).windowStart).length ≤
        (b.elevatedDropWindow.roll elevatedDropRateLimitWindowMs now).count := by
    rcases b.elevatedDropWindow.roll_cases elevatedDropRateLimitWindowMs now with hsame | ⟨hzero, hlater⟩
    · rw [hsame]
      exact ⟨le_rfl, h.count_le, h.counted⟩
    · have hpos : (0 : ℤ) < elevatedDropRateLimitWindowMs := by decide
      have hnone := h.elevatedIn_of_later (by omega :
        b.elevatedDropWindow.windowStart <
          (b.elevatedDropWindow.roll elevatedDropRateLimitWindowMs now).windowStart)
      rw [hnone, hzero]
      exact ⟨by omega, Nat.zero_le _, le_rfl⟩
  obtain ⟨hstart, hcount, hlet⟩ := hroll
  cases hslot : b.hasElevatedDropSlot now with
  | false =>
    rw [chargedWindow, tryConsumeElevatedDropBudget, BudgetWindow.tryConsume_of_not_admits hslot]
    exact ⟨hstart, hcount, by simpa using hlet⟩
  | true =>
    rw [chargedWindow, tryConsumeElevatedDropBudget, BudgetWindow.tryConsume_of_admits hslot]
    have hlt : (b.elevatedDropWindow.roll elevatedDropRateLimitWindowMs now).count <
        maxElevatedDropsPerWindow := of_decide_eq_true hslot
    dsimp only
    exact ⟨hstart, by omega, by simpa using hlet⟩

theorem elevatedIn_append {q : Publication}
    (h : b'.publications = b.publications ++ [q]) (start : ℤ) :
    (b'.elevatedIn p start).length =
      (b.elevatedIn p start).length +
        (if q.windowStart = start ∧ q.isElevated p = true then 1 else 0) := by
  rw [elevatedIn, h, List.filter_append, List.length_append, ← elevatedIn]
  congr 1
  by_cases hq : q.windowStart = start ∧ q.isElevated p = true
  · simp [hq.1, hq.2]
  · rw [if_neg hq, List.length_eq_zero_iff, List.filter_eq_nil_iff]
    intro q' hq'
    obtain rfl := List.mem_singleton.mp hq'
    simpa using hq

theorem Budgeted.step (h : Budgeted p b) (hstep : DropStep p b b') : Budgeted p b' := by
  cases hstep with
  | idle now window publications =>
    have hsame : b'.elevatedIn p = b.elevatedIn p := by
      funext start
      rw [elevatedIn, publications, elevatedIn]
    rcases window with hwindow | hwindow
    · exact ⟨publications ▸ h.announced, by rw [publications, hwindow]; exact h.past,
        hsame ▸ h.bounded, by rw [hsame, hwindow]; exact h.counted, hwindow ▸ h.count_le⟩
    · obtain ⟨hstart, hcount, hlet⟩ := h.charge now
      rw [← hwindow] at hstart hcount hlet
      refine ⟨publications ▸ h.announced, ?_, hsame ▸ h.bounded, ?_, hcount⟩
      · intro q hq
        exact (h.past q (publications ▸ hq)).trans hstart
      · rw [hsame]
        exact (Nat.le_add_right _ _).trans hlet
  | free q window publications start plain announced =>
    have hsame : ∀ s, (b'.elevatedIn p s).length = (b.elevatedIn p s).length := by
      intro s
      simp [elevatedIn_append publications, plain]
    refine ⟨?_, ?_, ?_, ?_, window ▸ h.count_le⟩
    · intro q' hq'
      rcases List.mem_append.mp (publications ▸ hq') with hold | hnew
      · exact h.announced q' hold
      · exact List.mem_singleton.mp hnew ▸ announced
    · intro q' hq'
      rcases List.mem_append.mp (publications ▸ hq') with hold | hnew
      · exact window ▸ h.past q' hold
      · exact (List.mem_singleton.mp hnew ▸ start).le
    · intro s
      rw [hsame]
      exact h.bounded s
    · rw [hsame, window]
      exact h.counted
  | charged q now slot window publications start announced =>
    obtain ⟨hstart, hcount, hlet⟩ := h.charge now
    rw [← window] at hstart hcount hlet
    rw [if_pos slot] at hlet
    have hle : ∀ s, (b'.elevatedIn p s).length ≤
        (b.elevatedIn p s).length + (if s = b'.elevatedDropWindow.windowStart then 1 else 0) := by
      intro s
      rw [elevatedIn_append publications, start]
      split_ifs <;> omega
    refine ⟨?_, ?_, ?_, ?_, hcount⟩
    · intro q' hq'
      rcases List.mem_append.mp (publications ▸ hq') with hold | hnew
      · exact h.announced q' hold
      · exact List.mem_singleton.mp hnew ▸ announced
    · intro q' hq'
      rcases List.mem_append.mp (publications ▸ hq') with hold | hnew
      · exact (h.past q' hold).trans hstart
      · exact (List.mem_singleton.mp hnew ▸ start).le
    · intro s
      have hbound := h.bounded s
      have hs := hle s
      split_ifs at hs with heq
      · subst heq
        omega
      · omega
    · have hs := hle b'.elevatedDropWindow.windowStart
      rw [if_pos rfl] at hs
      omega

/-! ### The two entry points -/

/-- The wire and the decoded bytes say the same: no drop, a drop of the same
kind, or one that is decoded only, is routine and is not announced as more. -/
def saysAlike (p : Platform) (metadata : ContentMetadata) (data : Buffer) (options : IngestOptions) :
    Bool :=
  match decodedDrop p metadata data with
  | none => true
  | some d =>
    match wireDrop p metadata data with
    | some w => w.kind = d.kind
    | none => d.kind = .info && (!options.announce || options.priority.getD .content = .content)

/-- The submission passes every check there is. -/
def letsIn (p : Platform) (b : Box) (metadata : ContentMetadata) (data : Buffer) (t : Readings) : Bool :=
  (b.allowCaller metadata.publisher? t.limiter).2 && preVerified p metadata data t.check &&
    (!isElevated (wireDrop p metadata data) || b.hasElevatedDropSlot t.budget) &&
    ContentStore.verifies p metadata data t.store

/-- What the gate and the consumer read in a submission that passes the checks
is alike. -/
def readsAlike (p : Platform) (b : Box) : BoxEvent → Bool
  | .ingestSignedContent metadata data options t =>
    !b.letsIn p metadata data t || saysAlike p metadata data options
  | _ => true

/-- The JSON text of a drop that is about to be published parses to that drop. -/
def readsBack (p : Platform) : BoxEvent → Bool
  | .publishDrop request t =>
    match checkDropRequest request with
    | .ok r => readDrop p (p.stringify (dropPayloadOf r t.check).toJs) = some (dropPayloadOf r t.check)
    | .error _ => true
  | _ => true

theorem announcedByKind_of_saysAlike {metadata : ContentMetadata} {data : Buffer}
    {options : IngestOptions} (h : saysAlike p metadata data options = true) (start : ℤ) :
    Publication.AnnouncedByKind p ⟨metadata, data,
      if options.announce then some (announcePriority (wireDrop p metadata data) options.priority) else none,
      start⟩ := by
  intro d hd priority hpriority
  rw [Publication.drop?] at hd
  dsimp only at hd hpriority
  rw [saysAlike, hd] at h
  cases hannounce : options.announce with
  | false => simp [hannounce] at hpriority
  | true =>
    have hpriority' : announcePriority (wireDrop p metadata data) options.priority = priority := by
      simpa [hannounce] using hpriority
    rw [← hpriority']
    cases hwire : wireDrop p metadata data with
    | some w =>
      have hkind : w.kind = d.kind := by simpa [hwire] using h
      simp [announcePriority, hkind]
    | none =>
      obtain ⟨hkind, hrequested⟩ : d.kind = .info ∧ options.priority.getD .content = .content := by
        simpa [hwire, hannounce] using h
      simp [announcePriority, hkind, hrequested, dropKindPriority]

/-- A drop that costs no slot on the wire is no elevated drop when decoded. -/
theorem not_isElevated_of_saysAlike {metadata : ContentMetadata} {data : Buffer}
    {options : IngestOptions} (h : saysAlike p metadata data options = true)
    (hwire : isElevated (wireDrop p metadata data) = false) (announcedAt : Option Priority) (start : ℤ) :
    Publication.isElevated p ⟨metadata, data, announcedAt, start⟩ = false := by
  rw [Publication.isElevated, Publication.drop?]
  dsimp only
  cases hd : decodedDrop p metadata data with
  | none => rfl
  | some d =>
    rw [saysAlike, hd] at h
    cases hw : wireDrop p metadata data with
    | some w =>
      have hkind : w.kind = d.kind := by simpa [hw] using h
      have hinfo : w.kind = .info := by simpa [hw, isElevated] using hwire
      simp [← hkind, hinfo]
    | none =>
      have hinfo : d.kind = .info := by
        rw [hw] at h
        exact of_decide_eq_true (Bool.and_eq_true_iff.mp h).1
      simp [hinfo]

theorem ingestSignedContent_dropStep {metadata : ContentMetadata} {data : Buffer}
    {options : IngestOptions} {t : Readings}
    (h : b.readsAlike p (.ingestSignedContent metadata data options t) = true) :
    DropStep p b (b.ingestSignedContent p metadata data options t).1 := by
  rw [readsAlike, letsIn] at h
  rw [ingestSignedContent]
  cases hallow : b.allowCaller metadata.publisher? t.limiter with
  | mk b₁ ok =>
    obtain ⟨limiter, rfl⟩ := allowCaller_frame hallow
    cases ok with
    | false => exact .idle 0 (.inl rfl) rfl
    | true =>
      cases hpre : preVerified p metadata data t.check with
      | false => exact .idle 0 (.inl rfl) rfl
      | true =>
        cases helevated : isElevated (wireDrop p metadata data) with
        | false =>
          simp only [Bool.not_true, Bool.false_eq_true, if_false,
            classify_of_not_elevated options.priority t.budget helevated]
          cases hverifies : ContentStore.verifies p metadata data t.store with
          | false =>
            rw [storeAndAnnounce_of_not_verifies _ hverifies]
            exact .idle 0 (.inl rfl) rfl
          | true =>
            have halike : saysAlike p metadata data options = true := by
              simpa [hallow, hpre, helevated, hverifies] using h
            obtain ⟨-, hwindow, hpubs⟩ := storeAndAnnounce_of_verifies
              (b := { b with ingestRateLimiter := limiter })
              (if options.announce then
                some (announcePriority (wireDrop p metadata data) options.priority) else none) hverifies
            exact .free _ hwindow hpubs (congrArg BudgetWindow.windowStart hwindow.symm)
              (not_isElevated_of_saysAlike halike helevated _ _)
              (announcedByKind_of_saysAlike halike _)
        | true =>
          simp only [Bool.not_true, Bool.false_eq_true, if_false,
            classify_of_elevated options.priority t.budget helevated]
          cases hslot : Box.hasElevatedDropSlot { b with ingestRateLimiter := limiter } t.budget with
          | false => exact .idle t.budget (.inr rfl) rfl
          | true =>
            simp only [if_true]
            cases hverifies : ContentStore.verifies p metadata data t.store with
            | false =>
              rw [storeAndAnnounce_of_not_verifies _ hverifies]
              exact .idle t.budget (.inr rfl) rfl
            | true =>
              have hslot' : b.hasElevatedDropSlot t.budget = true := hslot
              have halike : saysAlike p metadata data options = true := by
                simpa [hallow, hpre, helevated, hverifies, hslot'] using h
              obtain ⟨-, hwindow, hpubs⟩ := storeAndAnnounce_of_verifies
                (b := (Box.tryConsumeElevatedDropBudget { b with ingestRateLimiter := limiter }
                  t.budget).1)
                (if options.announce then
                  some (announcePriority (wireDrop p metadata data) options.priority) else none)
                hverifies
              exact .charged _ t.budget hslot' hwindow hpubs
                (congrArg BudgetWindow.windowStart hwindow.symm) (announcedByKind_of_saysAlike halike _)

theorem publishContent_cases {name mimeType : String} {data : Buffer} {options : PublishOptions}
    {t : Readings} {r : Except String ContentMetadata}
    (h : b.publishContent p name mimeType data options t = (b', r)) :
    b' = b ∨
      (b'.elevatedDropWindow = b.elevatedDropWindow ∧
        b'.publications = b.publications ++
          [⟨b.ownMetadata p name mimeType (compressForTransfer p data) options t.check,
            (compressForTransfer p data).data,
            if options.announce then some (options.priority.getD .content) else none,
            b.elevatedDropWindow.windowStart⟩]) := by
  unfold publishContent at h
  dsimp only at h
  split at h
  · cases h
    exact .inl rfl
  · cases h
    exact .inr ⟨rfl, rfl⟩

/-- What a node publishes of a drop decodes to that drop, or does not decode. -/
theorem drop?_own (hzstd : p.ZstdInverts) {payload : DropPayload}
    (hback : readDrop p (p.stringify payload.toJs) = some payload) {options : PublishOptions}
    {now start : ℤ} {announcedAt : Option Priority} {d : DropPayload}
    (h : Publication.drop? p ⟨b.ownMetadata p dropContentName "application/json"
      (compressForTransfer p (p.stringify payload.toJs)) options now,
      (compressForTransfer p (p.stringify payload.toJs)).data, announcedAt, start⟩ = some d) :
    d = payload := by
  rw [Publication.drop?, decodedDrop] at h
  dsimp only at h
  split_ifs at h
  obtain ⟨content, hdecode, hread⟩ := Option.bind_eq_some_iff.mp h
  have hcontent : content = p.stringify payload.toJs :=
    decode_compressForTransfer hzstd rfl hdecode
  rw [hcontent, hback] at hread
  exact (Option.some_inj.mp hread).symm

theorem chargeDrop_of_info {kind : DropKind} (now : ℤ) (h : kind = .info) :
    b.chargeDrop kind now = (b, true) := by
  simp [chargeDrop, h]

theorem chargeDrop_of_elevated {kind : DropKind} (now : ℤ) (h : kind ≠ .info) :
    b.chargeDrop kind now = ((b.tryConsumeElevatedDropBudget now).1, b.hasElevatedDropSlot now) := by
  rw [chargeDrop, if_neg h]
  exact Prod.ext rfl BudgetWindow.tryConsume_snd

/-- What the publication of a drop adds: nothing, or the drop at the priority of
its kind. -/
theorem publishContent_drop (hzstd : p.ZstdInverts) {payload : DropPayload}
    (hback : readDrop p (p.stringify payload.toJs) = some payload) {ttlMs : Option ℚ} {t : Readings}
    {r : Except String ContentMetadata}
    (h : b.publishContent p dropContentName "application/json" (p.stringify payload.toJs)
      { ttlMs, announce := true, priority := some (dropKindPriority payload.kind) } t = (b', r)) :
    b'.elevatedDropWindow = b.elevatedDropWindow ∧
      (b'.publications = b.publications ∨
        ∃ q : Publication, b'.publications = b.publications ++ [q] ∧
          q.windowStart = b.elevatedDropWindow.windowStart ∧ q.AnnouncedByKind p ∧
          (payload.kind = .info → q.isElevated p = false)) := by
  rcases publishContent_cases h with rfl | ⟨hwindow, hpubs⟩
  · exact ⟨rfl, .inl rfl⟩
  · refine ⟨hwindow, .inr ⟨_, hpubs, rfl, ?_, ?_⟩⟩
    · intro d hd priority hpriority
      rw [drop?_own hzstd hback hd]
      simpa [eq_comm] using hpriority
    · intro hinfo
      rw [Publication.isElevated]
      cases hd : Publication.drop? p _ with
      | none => rfl
      | some d => simp [drop?_own hzstd hback hd, hinfo]

theorem publishDrop_dropStep (hzstd : p.ZstdInverts) {request : DropRequest} {t : Readings}
    (h : readsBack p (.publishDrop request t) = true) :
    DropStep p b (b.publishDrop p request t).1 := by
  rw [readsBack] at h
  rw [publishDrop]
  cases hcheck : checkDropRequest request with
  | error message => exact .idle 0 (.inl rfl) rfl
  | ok r =>
    rw [hcheck] at h
    have hback := of_decide_eq_true h
    by_cases hinfo : r.kind = .info
    · simp only [chargeDrop_of_info t.budget hinfo]
      split
      all_goals
        next hpublish =>
        obtain ⟨hwindow, hpubs | ⟨q, hpubs, hstart, hannounced, hplain⟩⟩ :=
          publishContent_drop hzstd hback hpublish
        · exact .idle 0 (.inl hwindow) hpubs
        · exact .free q hwindow hpubs (hstart.trans (congrArg BudgetWindow.windowStart hwindow.symm))
            (hplain hinfo) hannounced
    · simp only [chargeDrop_of_elevated t.budget hinfo]
      cases hslot : b.hasElevatedDropSlot t.budget with
      | false => exact .idle t.budget (.inr rfl) rfl
      | true =>
        dsimp only
        split
        all_goals
          next hpublish =>
          obtain ⟨hwindow, hpubs | ⟨q, hpubs, hstart, hannounced, hplain⟩⟩ :=
            publishContent_drop hzstd hback hpublish
          · exact .idle t.budget (.inr hwindow) hpubs
          · exact .charged q t.budget hslot hwindow hpubs
              (hstart.trans (congrArg BudgetWindow.windowStart hwindow.symm)) hannounced

theorem step_dropStep (hzstd : p.ZstdInverts) {e : BoxEvent} (hback : readsBack p e = true)
    (halike : b.readsAlike p e = true) : DropStep p b (b.step p e) := by
  cases e with
  | ingestSignedContent metadata data options t => exact ingestSignedContent_dropStep halike
  | ingestSignedNodeAppend submission t =>
    obtain ⟨_, _, _, _, heq⟩ := ingestSignedNodeAppend_frame (p := p) (b := b) (t := t) submission
    exact .idle 0 (.inl (by rw [step, heq])) (by rw [step, heq])
  | ingestSignedRelayCommand submission t =>
    obtain ⟨_, _, _, _, heq⟩ := ingestSignedRelayCommand_frame (p := p) (b := b) (t := t) submission
    exact .idle 0 (.inl (by rw [step, heq])) (by rw [step, heq])
  | ingestExternalDelivery payload t =>
    obtain ⟨_, _, _, heq⟩ := ingestExternalDelivery_frame (p := p) (b := b) (t := t) payload
    exact .idle 0 (.inl (by rw [step, heq])) (by rw [step, heq])
  | publishDrop request t => exact publishDrop_dropStep hzstd hback
  | privateMessage senderId packetId payload =>
    obtain ⟨_, _, _, heq⟩ := handlePrivateMessage_frame (b := b) senderId packetId payload
    exact .idle 0 (.inl (by rw [step, heq])) (by rw [step, heq])
  | catalogEntry metadata t =>
    obtain ⟨_, _, _, heq⟩ := acceptCatalogEntry_frame (p := p) (b := b) (t := t) metadata
    exact .idle 0 (.inl (by rw [step, heq])) (by rw [step, heq])
  | peerSeen peerId => exact .idle 0 (.inl rfl) rfl
  | setTrust nodeId level => exact .idle 0 (.inl rfl) rfl
  | deliverySent packetId => exact .idle 0 (.inl rfl) rfl

/-- What a run may meet: drops of the node itself whose JSON text reads back, and
submitted contents that the gate and the consumer read alike. -/
def wellRead (p : Platform) (b : Box) (e : BoxEvent) : Bool := readsBack p e && b.readsAlike p e

/-- In every run whose submissions are read alike on the wire and decoded, each
window of the budget lets in at most three elevated drops, and every announced
drop was announced at the priority of its kind. -/
theorem elevated_drops_budgeted {p : Platform} {b : Box} (hzstd : p.ZstdInverts)
    (h : (system p).ReachableUnder (fun b e => b.wellRead p e = true) b) :
    (∀ start, (b.elevatedIn p start).length ≤ maxElevatedDropsPerWindow) ∧
      ∀ q ∈ b.publications, q.AnnouncedByKind p := by
  have hbudgeted : Budgeted p b := by
    apply h.invariant
    · rintro _ ⟨nodeId, o, rfl⟩
      exact Budgeted.create nodeId o
    · intro b e b' hb hread hstep
      obtain rfl : b.step p e = b' := Option.some_inj.mp hstep
      obtain ⟨hback, halike⟩ := Bool.and_eq_true_iff.mp hread
      exact hb.step (step_dropStep hzstd hback halike)
  exact ⟨hbudgeted.bounded, hbudgeted.announced⟩

/-! ### Plain and compressed warnings -/

def warnings : List DropPayload := ["uno", "due", "tre", "quattro"].map sampleDrop

def warningRuntime : Platform := samplePlatform (warnings.map DropPayload.toJs)

/-- The submission of a signed drop, as its JSON text or compressed. -/
def submitDrop (drop : DropPayload) (encoding : Option String) : BoxEvent :=
  let text := warningRuntime.stringify drop.toJs
  let data := if encoding = some "zstd" then warningRuntime.zstdCompress text else text
  .ingestSignedContent (signedMetadata warningRuntime "operator" data encoding) data
    { announce := true } (.const 1)

def requestDrop (drop : DropPayload) : BoxEvent :=
  .publishDrop
    { text := drop.text
      lat := .finite drop.lat
      lon := .finite drop.lon
      label := drop.label
      kind := drop.kind
      expiresInMs := none
      createdAt := some (.finite drop.timestamp) } (.const 1)

/-- Two warnings submitted as JSON and two of the node itself: the fourth finds no slot. -/
theorem elevated_drops_budgeted_plain :
    ∃ b, (system warningRuntime).ReachableUnder (fun b e => b.wellRead warningRuntime e = true) b ∧
      b.publications.length = 3 ∧
      (∀ start, (b.elevatedIn warningRuntime start).length ≤ maxElevatedDropsPerWindow) := by
  have hrun : (((system warningRuntime).runUnder (fun b e => b.wellRead warningRuntime e)
      (create "box" {})
      [submitDrop (sampleDrop "uno") none, requestDrop (sampleDrop "due"),
        submitDrop (sampleDrop "tre") none, requestDrop (sampleDrop "quattro")]).map
          fun b => b.publications.length) = some 3 := by
    decide +kernel
  obtain ⟨b, hb, hlength⟩ := Option.map_eq_some_iff.mp hrun
  have hreach : (system warningRuntime).ReachableUnder
      (fun b e => b.wellRead warningRuntime e = true) b :=
    System.reachableUnder_of_runUnder ⟨"box", {}, rfl⟩ hb
  exact ⟨b, hreach, hlength, (elevated_drops_budgeted (samplePlatform_zstdInverts _) hreach).1⟩

/-- Four compressed warnings are let in within one window, and announced as
ordinary contents. -/
theorem compressed_drops_unbudgeted :
    (¬∀ p : Platform, p.ZstdInverts → ∀ b, (system p).ReachableUnder (fun _ e => readsBack p e = true) b →
      ∀ start, (b.elevatedIn p start).length ≤ maxElevatedDropsPerWindow) ∧
    ¬∀ p : Platform, p.ZstdInverts → ∀ b, (system p).ReachableUnder (fun _ e => readsBack p e = true) b →
      ∀ q ∈ b.publications, q.AnnouncedByKind p := by
  have hrun : (((system warningRuntime).runUnder (fun _ e => readsBack warningRuntime e)
      (create "box" {}) (warnings.map fun drop => submitDrop drop (some "zstd"))).map fun b =>
        ((b.elevatedIn warningRuntime 0).length,
          b.publications.map fun q => (q.announcedAt, (q.drop? warningRuntime).map DropPayload.kind))) =
      some (4, List.replicate 4 (some .content, some .emergency)) := by
    decide +kernel
  obtain ⟨b, hb, hlog⟩ := Option.map_eq_some_iff.mp hrun
  obtain ⟨hcount, hannounced⟩ := Prod.ext_iff.mp hlog
  have hreach : (system warningRuntime).ReachableUnder
      (fun _ e => readsBack warningRuntime e = true) b :=
    System.reachableUnder_of_runUnder ⟨"box", {}, rfl⟩ hb
  have hzstd := samplePlatform_zstdInverts (warnings.map DropPayload.toJs)
  constructor
  · intro hclaim
    have hle := hclaim warningRuntime hzstd b hreach 0
    dsimp only at hcount
    rw [hcount] at hle
    exact absurd hle (by decide)
  · intro hclaim
    dsimp only at hannounced
    have hmem : (some Priority.content, some DropKind.emergency) ∈
        b.publications.map fun q => (q.announcedAt, (q.drop? warningRuntime).map DropPayload.kind) := by
      rw [hannounced]
      decide
    obtain ⟨q, hq, hpair⟩ := List.mem_map.mp hmem
    obtain ⟨hat, hkind⟩ := Prod.ext_iff.mp hpair
    obtain ⟨d, hd, hemergency⟩ := Option.map_eq_some_iff.mp hkind
    have heq := hclaim warningRuntime hzstd b hreach q hq d hd .content hat
    rw [hemergency] at heq
    exact absurd heq (by decide)

end Box
end Arald
