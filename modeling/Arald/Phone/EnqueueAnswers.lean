import Arald.Phone.StoredDrops

/-!
# What the answer of an enqueue says

The answer is to be `null` exactly when the drop is not in the queue afterwards. The number of
entries is looked at before the ids are, and so a drop that is queued already is answered with
`null` when the queue is full, or when its form is no longer valid.
-/

namespace Arald

open Foundations DropQueue

namespace DropStorage

/-- The well-formed entries that are stored. -/
def queue (s : DropStorage) : List JsValue := s.stored.filter isWellFormedEntry

/-- The id of the form, or the fresh one. -/
def requestedId (input : JsValue) (newId : String) : Option String :=
  (DropQueue.orElse (input.prop "queueId") (.str newId)).string?

/-- The answer tells whether the id is in the queue afterwards, and nothing else has changed. -/
structure Truthful (before after : List JsValue) (id : Option String) (answer : Option JsValue) : Prop where
  null_iff : answer = none ↔ ∀ e ∈ after, idOf e ≠ id
  returned : ∀ e, answer = some e → e ∈ after ∧ idOf e = id
  others : (after.filter fun e => idOf e ≠ id) = before.filter fun e => idOf e ≠ id

/-- An entry with the id is queued. -/
def isQueued (s : DropStorage) (id : Option String) : Prop := ∃ e ∈ s.queue, idOf e = id

/-- The form is invalid, or the queue is seen to be full. -/
def refuses (s : DropStorage) (entry : JsValue) : Bool :=
  isInvalid entry || maxPendingDrops ≤ (s.readEntries.filter isWellFormedEntry).length

/-- What is refused is not queued already, and what cannot be read is neither missed nor overwritten. -/
def answersTruly (s : DropStorage) (entry : JsValue) (id : Option String) : Prop :=
  if s.refuses entry then ¬s.isQueued id
  else if s.readable then True
  else if s.writable then ∀ e ∈ s.queue, idOf e = id
  else ¬s.isQueued id

variable {s : DropStorage} {before existing : List JsValue} {input entry : JsValue} {newId : String} {now : ℤ}
  {id : Option String}

theorem idOf_newEntry (input : JsValue) (newId : String) (now : ℤ) :
    idOf (newEntry input newId now) = requestedId input newId := by
  rw [idOf, newEntry, JsValue.prop_record (by simp)]
  rfl

/-! ### The cases -/

theorem truthful_unchanged : Truthful s.queue s.queue id none ↔ ¬s.isQueued id := by
  constructor
  · rintro h ⟨e, he, hid⟩
    exact h.null_iff.mp rfl e he hid
  · intro h
    refine ⟨⟨fun _ e he hid => h ⟨e, he, hid⟩, fun _ => rfl⟩, ?_, rfl⟩
    intro e he
    cases he

theorem truthful_already {already : JsValue} (hmem : already ∈ s.queue) (hid : idOf already = id) :
    Truthful s.queue s.queue id (some already) := by
  refine ⟨⟨nofun, fun h => absurd hid (h already hmem)⟩, ?_, rfl⟩
  rintro e ⟨⟩
  exact ⟨hmem, hid⟩

theorem truthful_added (hentry : idOf entry = id) (hnew : ∀ e ∈ existing, idOf e ≠ id) :
    Truthful before (existing ++ [entry]) id (some entry) ↔ existing = before.filter fun e => idOf e ≠ id := by
  have hothers : (existing ++ [entry]).filter (fun e => idOf e ≠ id) = existing := by
    rw [List.filter_append, List.filter_eq_self.mpr fun e he => decide_eq_true (hnew e he),
      List.filter_cons_of_neg (by simpa using hentry), List.filter_nil, List.append_nil]
  have hmem : entry ∈ existing ++ [entry] := List.mem_append_right _ (List.mem_singleton_self entry)
  constructor
  · intro h
    rw [← h.others, hothers]
  · intro h
    refine ⟨⟨nofun, fun hnone => absurd hentry (hnone entry hmem)⟩, ?_, hothers.trans h⟩
    rintro e ⟨⟩
    exact ⟨hmem, hentry⟩

theorem readEntries_of_readable (h : s.readable = true) : s.readEntries = s.stored := by
  rw [readEntries, if_pos h]

theorem readEntries_of_not_readable (h : ¬s.readable = true) : s.readEntries = [] := by
  rw [readEntries, if_neg h]

theorem writeEntries_of_not_writable {entries : List JsValue} (h : ¬s.writable = true) :
    s.writeEntries entries = (s, false) := by
  rw [writeEntries, if_neg h]

theorem writeEntries_of_writable {entries : List JsValue} (h : s.writable = true) :
    (s.writeEntries entries).2 = true ∧ (s.writeEntries entries).1.stored = entries := by
  rw [writeEntries, if_pos h]
  refine ⟨rfl, ?_⟩
  cases entries <;> rfl

/-- Well-formed entries that are written make up the queue. -/
theorem queue_writeEntries {entries : List JsValue} (h : s.writable = true)
    (hwell : ∀ e ∈ entries, isWellFormedEntry e = true) : (s.writeEntries entries).1.queue = entries := by
  rw [queue, (writeEntries_of_writable h).2]
  exact List.filter_eq_self.mpr hwell

theorem enqueuePendingDrop_of_refuses (h : s.refuses (newEntry input newId now) = true) :
    s.enqueuePendingDrop input newId now = (s, none) := by
  rw [refuses, Bool.or_eq_true, decide_eq_true_eq] at h
  unfold enqueuePendingDrop
  dsimp only
  by_cases hinvalid : isInvalid (newEntry input newId now) = true
  · rw [if_pos hinvalid]
  · rw [if_neg hinvalid, if_pos (h.resolve_left hinvalid)]

theorem enqueuePendingDrop_of_not_refuses (h : ¬s.refuses (newEntry input newId now) = true) :
    isWellFormedEntry (newEntry input newId now) = true ∧
      s.enqueuePendingDrop input newId now =
        match (s.readEntries.filter isWellFormedEntry).find? fun e => idOf e = idOf (newEntry input newId now) with
        | some already => (s, some already)
        | none =>
          match s.writeEntries (s.readEntries.filter isWellFormedEntry ++ [newEntry input newId now]) with
          | (s, true) => (s, some (newEntry input newId now))
          | (s, false) => (s, none) := by
  rw [refuses, Bool.or_eq_true, not_or, decide_eq_true_eq] at h
  obtain ⟨hinvalid, hroom⟩ := h
  refine ⟨?_, ?_⟩
  · rw [isInvalid, Bool.or_eq_true, not_or] at hinvalid
    simpa using hinvalid.1
  · unfold enqueuePendingDrop
    dsimp only
    rw [if_neg hinvalid]
    exact if_neg hroom

/-! ### The answers -/

/-- The answer is the truth exactly where nothing that is queued is refused. -/
theorem enqueuePendingDrop_truthful_iff (s : DropStorage) (input : JsValue) (newId : String) (now : ℤ) :
    Truthful s.queue (s.enqueuePendingDrop input newId now).1.queue (requestedId input newId)
      (s.enqueuePendingDrop input newId now).2 ↔
    s.answersTruly (newEntry input newId now) (requestedId input newId) := by
  have hid := idOf_newEntry input newId now
  unfold answersTruly
  by_cases hrefuses : s.refuses (newEntry input newId now) = true
  · rw [if_pos hrefuses, enqueuePendingDrop_of_refuses hrefuses]
    exact truthful_unchanged
  · rw [if_neg hrefuses]
    obtain ⟨hwell, heq⟩ := enqueuePendingDrop_of_not_refuses hrefuses
    rw [heq]
    have hexisting : ∀ e ∈ s.readEntries.filter isWellFormedEntry, isWellFormedEntry e = true := fun e he =>
      (List.mem_filter.mp he).2
    cases hfind : (s.readEntries.filter isWellFormedEntry).find?
        fun e => idOf e = idOf (newEntry input newId now) with
    | some already =>
      have hmem := List.mem_of_find?_eq_some hfind
      have hsame : idOf already = requestedId input newId :=
        (by simpa using List.find?_some hfind : idOf already = _).trans hid
      have hreadable : s.readable = true := by
        by_contra hunreadable
        rw [readEntries_of_not_readable hunreadable] at hmem
        cases hmem
      rw [readEntries_of_readable hreadable] at hmem
      rw [if_pos hreadable]
      exact iff_of_true (truthful_already hmem hsame) trivial
    | none =>
      have hnew : ∀ e ∈ s.readEntries.filter isWellFormedEntry, idOf e ≠ requestedId input newId := by
        intro e he hsame
        have hnone := List.find?_eq_none.mp hfind e he
        exact hnone (decide_eq_true (hsame.trans hid.symm))
      dsimp only
      by_cases hwritable : s.writable = true
      · rw [← Prod.mk.eta (p := s.writeEntries _), (writeEntries_of_writable hwritable).1]
        dsimp only
        have hall : ∀ e ∈ s.readEntries.filter isWellFormedEntry ++ [newEntry input newId now],
            isWellFormedEntry e = true := by
          intro e he
          rcases List.mem_append.mp he with he | he
          · exact hexisting e he
          · rwa [List.mem_singleton.mp he]
        rw [queue_writeEntries hwritable hall, truthful_added hid hnew]
        by_cases hreadable : s.readable = true
        · rw [readEntries_of_readable hreadable] at hnew ⊢
          rw [if_pos hreadable]
          refine iff_of_true (Eq.symm ?_) trivial
          exact List.filter_eq_self.mpr fun e he => decide_eq_true (hnew e he)
        · rw [readEntries_of_not_readable hreadable, if_neg hreadable, if_pos hwritable, List.filter_nil, eq_comm,
            List.filter_eq_nil_iff]
          simp
      · rw [writeEntries_of_not_writable hwritable]
        dsimp only
        rw [truthful_unchanged]
        by_cases hreadable : s.readable = true
        · rw [readEntries_of_readable hreadable] at hnew
          rw [if_pos hreadable]
          refine iff_of_true ?_ trivial
          rintro ⟨e, he, hsame⟩
          exact hnew e he hsame
        · rw [if_neg hreadable, if_neg hwritable]

/-! ### Without storage -/

/-- The queue, where there may be no storage at all. -/
def queueOf (storage : Option DropStorage) : List JsValue := (storage.map queue).getD []

/-- `enqueuePendingDrop`, where there may be no storage at all. -/
def enqueueIn (storage : Option DropStorage) (input : JsValue) (newId : String) (now : ℤ) :
    Option DropStorage × Option JsValue :=
  match storage with
  | none => (none, none)
  | some s => ((s.enqueuePendingDrop input newId now).1, (s.enqueuePendingDrop input newId now).2)

def answersTrulyIn (storage : Option DropStorage) (entry : JsValue) (id : Option String) : Prop :=
  ∀ s, storage = some s → s.answersTruly entry id

theorem enqueueIn_truthful_iff (storage : Option DropStorage) (input : JsValue) (newId : String) (now : ℤ) :
    Truthful (queueOf storage) (queueOf (enqueueIn storage input newId now).1) (requestedId input newId)
      (enqueueIn storage input newId now).2 ↔
    answersTrulyIn storage (newEntry input newId now) (requestedId input newId) := by
  cases storage with
  | none =>
    refine iff_of_true ⟨⟨fun _ _ he => absurd he List.not_mem_nil, fun _ => rfl⟩, nofun, rfl⟩ ?_
    intro s hs
    cases hs
  | some s =>
    refine (enqueuePendingDrop_truthful_iff s input newId now).trans ⟨?_, fun h => h s rfl⟩
    rintro h _ ⟨⟩
    exact h

/-- A drop as it is submitted and stored. -/
def submittedDrop (queueId : String) : JsValue :=
  .obj [("queueId", .str queueId), ("gateway", .str "hut"), ("text", .str "wood needed"),
    ("lat", .num (.finite 46)), ("lon", .num (.finite 11)), ("kind", .str "info"), ("queuedAt", time 0)]

/-- A queue of twenty drops. -/
def fullQueue : DropStorage := ⟨.json (.arr ((List.range 20).map fun n => submittedDrop (toString n))), true, true⟩

/-- A drop of the full queue is submitted again, and the answer is `null`. -/
theorem enqueueIn_full_queue :
    ¬Truthful (queueOf (some fullQueue)) (queueOf (enqueueIn (some fullQueue) (submittedDrop "3") "fresh" 1000).1)
      (requestedId (submittedDrop "3") "fresh") (enqueueIn (some fullQueue) (submittedDrop "3") "fresh" 1000).2 := by
  intro h
  have hnull : (enqueueIn (some fullQueue) (submittedDrop "3") "fresh" 1000).2.isNone = true := by decide +kernel
  have hqueued : ∃ e ∈ queueOf (enqueueIn (some fullQueue) (submittedDrop "3") "fresh" 1000).1,
      idOf e = requestedId (submittedDrop "3") "fresh" := by decide +kernel
  obtain ⟨e, he, hid⟩ := hqueued
  exact h.null_iff.mp (Option.isNone_iff_eq_none.mp hnull) e he hid

end DropStorage
end Arald
