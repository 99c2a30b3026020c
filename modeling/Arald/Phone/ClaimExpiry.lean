import Arald.Foundations.Runs
import Arald.Phone.EnqueueAnswers

/-!
# Claims that are abandoned

A claim is a reading of the clock in the storage, and the clock may be corrected. The run
keeps the time that has really passed beside the clock, so that it is known how long ago the
last correction and the last claim of each entry were.
-/

namespace Arald

open Foundations DropQueue DropStorage

structure DropClaims where
  storage : DropStorage
  /-- What `Date.now()` returns. -/
  clock : ℤ
  /-- The time that has really passed. -/
  elapsed : ℤ
  /-- When the clock was last corrected. -/
  corrected : ℤ
  /-- The ids that were claimed, and when. -/
  claims : List (String × ℤ)

inductive DropClaimsEvent where
  | passed (ms : ℕ)
  | corrected (clock : ℤ)
  /-- Access to the storage comes or goes. -/
  | accessible (readable writable : Bool)
  | load
  | enqueue (input : JsValue) (newId : String) (createdAt : ℤ)
  | remove (queueId : String)
  | claim (queueId : String)
  | release (queueId : String)

namespace DropClaims

def claim (s : DropClaims) (queueId : String) : DropClaims :=
  match s.storage.claimPendingDrop queueId s.clock with
  | (storage, true) => { s with storage, claims := (queueId, s.elapsed) :: s.claims }
  | (storage, false) => { s with storage }

def react (s : DropClaims) : DropClaimsEvent → DropClaims
  | .passed ms => { s with clock := s.clock + ms, elapsed := s.elapsed + ms }
  | .corrected clock => { s with clock, corrected := s.elapsed }
  | .accessible readable writable => { s with storage := { s.storage with readable, writable } }
  | .load => { s with storage := (s.storage.loadPendingDrops s.clock).1 }
  | .enqueue input newId createdAt => { s with storage := (s.storage.enqueuePendingDrop input newId createdAt).1 }
  | .remove queueId => { s with storage := s.storage.removePendingDrop queueId }
  | .claim queueId => s.claim queueId
  | .release queueId => { s with storage := s.storage.releasePendingDrop queueId }

/-- No mark in the queue lies after `clock`. -/
def marksUntil (s : DropStorage) (clock : ℤ) : Bool :=
  s.queue.all fun entry => (markOf entry).all fun mark => mark ≤ (clock : ℚ)

/-- Starts on any queue without marks in the future. -/
def system : System DropClaims DropClaimsEvent where
  Init s := ∃ storage clock, marksUntil storage clock = true ∧ s = ⟨storage, clock, 0, 0, []⟩
  step s e := some (s.react e)

/-- A correction does not put the clock before a mark in the queue. -/
def keepsMarksPast (s : DropClaims) : DropClaimsEvent → Bool
  | .corrected clock => marksUntil s.storage clock
  | _ => true

/-- Since the time `since` the clock was not corrected, and no claim of the id succeeded. -/
def Undisturbed (s : DropClaims) (queueId : String) (since : ℤ) : Prop :=
  s.corrected ≤ since ∧ ∀ c ∈ s.claims, c.1 = queueId → c.2 ≤ since

/-- A stored entry can be claimed once the last claim and the last correction are `claimTtlMs` ago. -/
def FreesAbandoned (s : DropClaims) : Prop :=
  ∀ queueId since, s.Undisturbed queueId since → since + claimTtlMs ≤ s.elapsed →
    s.storage.readable = true → s.storage.writable = true →
    (∃ entry ∈ s.storage.stored, isClaimable queueId entry = true) →
    (s.storage.claimPendingDrop queueId s.clock).2 = true

end DropClaims

/-! ### The marks -/

namespace DropStorage

variable {s : DropStorage} {before after entries : List JsValue} {e entry : JsValue} {queueId : String}
  {now : ℤ} {mark : ℚ}

/-- Every mark of a well-formed entry was there before, on one with the same id. -/
def KeepsMarks (before after : List JsValue) : Prop :=
  ∀ e ∈ after, isWellFormedEntry e = true → ∀ mark, markOf e = some mark →
    ∃ old ∈ before, isWellFormedEntry old = true ∧ idOf old = idOf e ∧ markOf old = some mark

theorem KeepsMarks.of_subset (h : ∀ e ∈ after, e ∈ before) : KeepsMarks before after := fun e he hwell _ hmark =>
  ⟨e, h e he, hwell, rfl, hmark⟩

theorem KeepsMarks.refl (entries : List JsValue) : KeepsMarks entries entries := .of_subset fun _ => id

theorem stored_writeEntries_cases (s : DropStorage) (entries : List JsValue) :
    (s.writeEntries entries).1.stored = entries ∨ (s.writeEntries entries).1 = s := by
  by_cases h : s.writable = true
  · exact Or.inl (writeEntries_of_writable h).2
  · rw [writeEntries_of_not_writable h]
    exact Or.inr rfl

theorem mem_stored_of_mem_readEntries (h : e ∈ s.readEntries) : e ∈ s.stored := by
  rw [readEntries] at h
  split_ifs at h with hreadable
  · exact h
  · cases h

/-- A write keeps the marks if what it writes does. -/
theorem KeepsMarks.writeEntries (h : KeepsMarks s.stored entries) :
    KeepsMarks s.stored (s.writeEntries entries).1.stored := by
  rcases s.stored_writeEntries_cases entries with hwritten | hsame
  · rwa [hwritten]
  · rw [hsame]
    exact .refl _

theorem mem_modifyFirst {test : JsValue → Bool} {change : JsValue → JsValue}
    (h : e ∈ modifyFirst test change entries) : e ∈ entries ∨ ∃ old ∈ entries, test old = true ∧ e = change old := by
  induction entries with
  | nil => cases h
  | cons old entries ih =>
    rw [modifyFirst] at h
    split_ifs at h with htest
    · rcases List.mem_cons.mp h with rfl | h
      · exact Or.inr ⟨old, List.mem_cons_self, htest, rfl⟩
      · exact Or.inl (List.mem_cons_of_mem _ h)
    · rcases List.mem_cons.mp h with rfl | h
      · exact Or.inl List.mem_cons_self
      · rcases ih h with h | ⟨first, hfirst, hchange⟩
        · exact Or.inl (List.mem_cons_of_mem _ h)
        · exact Or.inr ⟨first, List.mem_cons_of_mem _ hfirst, hchange⟩

theorem markOf_newEntry (input : JsValue) (newId : String) (now : ℤ) : markOf (newEntry input newId now) = none := by
  rw [markOf, newEntry, JsValue.prop_record (by simp)]
  rfl

theorem keepsMarks_load (s : DropStorage) (now : ℤ) : KeepsMarks s.stored (s.loadPendingDrops now).1.stored := by
  unfold loadPendingDrops
  dsimp only
  split_ifs
  · apply KeepsMarks.writeEntries
    intro e he hwell mark hmark
    obtain ⟨old, hold, rfl⟩ := List.mem_map.mp (List.mem_filter.mp he).1
    obtain ⟨hread, hwell'⟩ := List.mem_filter.mp hold
    refine ⟨old, mem_stored_of_mem_readEntries hread, hwell', ?_⟩
    split_ifs at hmark ⊢
    · rw [markOf, JsValue.prop_setProp_of_ne (by decide)] at hmark
      rw [idOf, idOf, JsValue.prop_setProp_of_ne (by decide)]
      exact ⟨rfl, hmark⟩
    · exact ⟨rfl, hmark⟩
  · exact .refl _

theorem keepsMarks_enqueue (s : DropStorage) (input : JsValue) (newId : String) (now : ℤ) :
    KeepsMarks s.stored (s.enqueuePendingDrop input newId now).1.stored := by
  have hwrite : KeepsMarks s.stored
      (s.writeEntries (s.readEntries.filter isWellFormedEntry ++ [newEntry input newId now])).1.stored := by
    apply KeepsMarks.writeEntries
    intro e he hwell mark hmark
    rcases List.mem_append.mp he with he | he
    · exact ⟨e, mem_stored_of_mem_readEntries (List.mem_filter.mp he).1, hwell, rfl, hmark⟩
    · rw [List.mem_singleton.mp he, markOf_newEntry] at hmark
      cases hmark
  unfold enqueuePendingDrop
  dsimp only
  split
  · exact .refl _
  · split
    · exact .refl _
    · split
      · exact .refl _
      · split
        · next hpair => rwa [hpair] at hwrite
        · next hpair => rwa [hpair] at hwrite

theorem keepsMarks_remove (s : DropStorage) (queueId : String) :
    KeepsMarks s.stored (s.removePendingDrop queueId).stored := by
  apply KeepsMarks.writeEntries
  apply KeepsMarks.of_subset
  intro e he
  exact mem_stored_of_mem_readEntries (List.mem_filter.mp he).1

theorem keepsMarks_release (s : DropStorage) (queueId : String) :
    KeepsMarks s.stored (s.releasePendingDrop queueId).stored := by
  unfold releasePendingDrop
  dsimp only
  split
  · exact .refl _
  · split_ifs
    · exact .refl _
    · apply KeepsMarks.writeEntries
      intro e he hwell mark hmark
      rcases mem_modifyFirst he with he | ⟨old, -, -, rfl⟩
      · exact ⟨e, mem_stored_of_mem_readEntries he, hwell, rfl, hmark⟩
      · rw [markOf, JsValue.prop_deleteProp_self] at hmark
        cases hmark

theorem exists_fields_of_wellFormed (h : isWellFormedEntry entry = true) : ∃ fields, entry = .obj fields := by
  cases entry with
  | obj fields => exact ⟨fields, rfl⟩
  | _ => simp [isWellFormedEntry, JsValue.isObject, JsValue.prop, nonEmpty?, JsValue.string?] at h

/-- A claim that succeeds leaves one new mark, on an entry with the id. -/
theorem marks_claim (s : DropStorage) (queueId : String) (now : ℤ)
    (he : e ∈ (s.claimPendingDrop queueId now).1.stored) (hwell : isWellFormedEntry e = true)
    (hmark : markOf e = some mark) :
    (∃ old ∈ s.stored, isWellFormedEntry old = true ∧ idOf old = idOf e ∧ markOf old = some mark) ∨
      ((s.claimPendingDrop queueId now).2 = true ∧ idOf e = some queueId ∧ mark = now) := by
  unfold claimPendingDrop at he ⊢
  dsimp only at he ⊢
  split at he
  · exact Or.inl ⟨e, he, hwell, rfl, hmark⟩
  · next entry hfind =>
    split_ifs at he ⊢ with hclaimed
    · exact Or.inl ⟨e, he, hwell, rfl, hmark⟩
    · by_cases hwritable : s.writable = true
      · rw [(writeEntries_of_writable hwritable).2] at he
        rcases mem_modifyFirst he with he | ⟨old, -, hold, rfl⟩
        · exact Or.inl ⟨e, mem_stored_of_mem_readEntries he, hwell, rfl, hmark⟩
        · rw [isClaimable, Bool.and_eq_true, decide_eq_true_eq] at hold
          obtain ⟨fields, rfl⟩ := exists_fields_of_wellFormed hold.2
          rw [markOf, JsValue.prop_setProp_self] at hmark
          rw [idOf, JsValue.prop_setProp_of_ne (by decide)]
          exact Or.inr ⟨(writeEntries_of_writable hwritable).1, hold.1, (Option.some_injective _ hmark).symm⟩
      · rw [writeEntries_of_not_writable hwritable] at he
        exact Or.inl ⟨e, he, hwell, rfl, hmark⟩

/-- An entry whose mark is old enough can be claimed. -/
theorem claimPendingDrop_of_lapsed (hreadable : s.readable = true) (hwritable : s.writable = true)
    (hclaimable : ∃ entry ∈ s.stored, isClaimable queueId entry = true)
    (hlapsed : ∀ entry ∈ s.stored, isWellFormedEntry entry = true → idOf entry = some queueId →
      ∀ mark, markOf entry = some mark → mark + claimTtlMs ≤ now) : (s.claimPendingDrop queueId now).2 = true := by
  rw [claimPendingDrop, readEntries_of_readable hreadable]
  cases hfind : s.stored.find? (isClaimable queueId) with
  | none =>
    obtain ⟨entry, hentry, htest⟩ := hclaimable
    exact absurd htest (List.find?_eq_none.mp hfind entry hentry)
  | some entry =>
    have htest := List.find?_some hfind
    rw [isClaimable, Bool.and_eq_true, decide_eq_true_eq] at htest
    have hfree : ¬((markOf entry).any fun since => (now : ℚ) - since < claimTtlMs) = true := by
      cases hmark : markOf entry with
      | none => simp
      | some mark =>
        have hold := hlapsed entry (List.mem_of_find?_eq_some hfind) htest.2 htest.1 mark hmark
        simp only [Option.any_some, decide_eq_true_eq, not_lt]
        linarith
    dsimp only
    rw [if_neg hfree]
    exact (writeEntries_of_writable hwritable).1

end DropStorage

/-! ### Runs -/

namespace DropClaims

variable {s : DropClaims}

/-- Each mark is as old as the quiet time of its entry. -/
def Aged (s : DropClaims) : Prop :=
  ∀ entry ∈ s.storage.stored, isWellFormedEntry entry = true → ∀ mark, markOf entry = some mark →
    ∀ queueId, idOf entry = some queueId → ∀ since,
      s.Undisturbed queueId since → ((s.elapsed - since : ℤ) : ℚ) ≤ s.clock - mark

/-- What keeps the marks, and the clocks, keeps them as old as they are. -/
theorem Aged.of_keepsMarks {storage : DropStorage} (h : s.Aged)
    (hmarks : KeepsMarks s.storage.stored storage.stored) : Aged { s with storage } := by
  intro entry hentry hwell mark hmark queueId hid since hsince
  obtain ⟨old, hold, hwell', hsame, hmark'⟩ := hmarks entry hentry hwell mark hmark
  exact h old hold hwell' mark hmark' queueId (hsame.trans hid) since hsince

theorem Aged.claim (h : s.Aged) (queueId : String) : (s.claim queueId).Aged := by
  have hmarks := fun e mark => @marks_claim e mark s.storage queueId s.clock
  unfold DropClaims.claim
  split
  · next storage hpair =>
    rw [hpair] at hmarks
    intro entry hentry hwell mark hmark key hkey since hsince
    rcases hmarks entry mark hentry hwell hmark with ⟨old, hold, hwell', hsame, hmark'⟩ | ⟨-, hid, rfl⟩
    · have hbefore : s.Undisturbed key since :=
        ⟨hsince.1, fun c hc hcid => hsince.2 c (List.mem_cons_of_mem _ hc) hcid⟩
      exact h old hold hwell' mark hmark' key (hsame.trans hkey) since hbefore
    · have hnow : s.elapsed ≤ since :=
        hsince.2 (queueId, s.elapsed) List.mem_cons_self (Option.some_injective _ (hid.symm.trans hkey))
      rw [sub_self]
      exact_mod_cast sub_nonpos.mpr hnow
  · next storage hpair =>
    rw [hpair] at hmarks
    apply h.of_keepsMarks
    intro e he hwell mark hmark
    rcases hmarks e mark he hwell hmark with hold | ⟨hfalse, -⟩
    · exact hold
    · cases hfalse

theorem Aged.react (h : s.Aged) (e : DropClaimsEvent) (hforward : s.keepsMarksPast e = true) : (s.react e).Aged := by
  cases e with
  | passed ms =>
    intro entry hentry hwell mark hmark queueId hid since hsince
    have hage := h entry hentry hwell mark hmark queueId hid since hsince
    simp only [DropClaims.react]
    push_cast at hage ⊢
    linarith
  | corrected clock =>
    intro entry hentry hwell mark hmark queueId hid since hsince
    have hpast := List.all_eq_true.mp hforward entry (List.mem_filter.mpr ⟨hentry, hwell⟩)
    rw [hmark, Option.all_some, decide_eq_true_eq] at hpast
    have hquiet : ((s.elapsed - since : ℤ) : ℚ) ≤ 0 := by exact_mod_cast sub_nonpos.mpr hsince.1
    simp only [DropClaims.react]
    linarith
  | accessible readable writable => exact h
  | load => exact h.of_keepsMarks (keepsMarks_load _ _)
  | enqueue input newId createdAt => exact h.of_keepsMarks (keepsMarks_enqueue _ _ _ _)
  | remove queueId => exact h.of_keepsMarks (keepsMarks_remove _ _)
  | claim queueId => exact h.claim queueId
  | release queueId => exact h.of_keepsMarks (keepsMarks_release _ _)

/-- In a run whose corrections leave no mark in the future, an abandoned claim frees its entry. -/
theorem freesAbandoned (h : system.ReachableUnder (fun s e => s.keepsMarksPast e = true) s) : s.FreesAbandoned := by
  have haged : s.Aged := by
    apply h.invariant (I := Aged)
    · rintro _ ⟨storage, clock, hpast, rfl⟩ entry hentry hwell mark hmark queueId - since hsince
      have hmarks := List.all_eq_true.mp hpast entry (List.mem_filter.mpr ⟨hentry, hwell⟩)
      rw [hmark, Option.all_some, decide_eq_true_eq] at hmarks
      have hquiet : ((0 - since : ℤ) : ℚ) ≤ 0 := by exact_mod_cast sub_nonpos.mpr hsince.1
      dsimp only
      linarith
    · rintro s e _ hs hforward ⟨⟩
      exact hs.react e hforward
  intro queueId since hsince hlapsed hreadable hwritable hstored
  apply claimPendingDrop_of_lapsed hreadable hwritable hstored
  intro entry hentry hwell hid mark hmark
  have hage := haged entry hentry hwell mark hmark queueId hid since hsince
  have htime : ((claimTtlMs : ℤ) : ℚ) ≤ ((s.elapsed - since : ℤ) : ℚ) := by exact_mod_cast (by omega)
  linarith

theorem claims_le_elapsed (h : system.Reachable s) : ∀ c ∈ s.claims, c.2 ≤ s.elapsed := by
  apply h.invariant (I := fun s => ∀ c ∈ s.claims, c.2 ≤ s.elapsed)
  · rintro _ ⟨storage, clock, -, rfl⟩ c hc
    cases hc
  · rintro s e _ hs - ⟨⟩ c hc
    cases e with
    | passed ms =>
      have hbefore := hs c hc
      simp only [DropClaims.react]
      omega
    | claim queueId =>
      simp only [DropClaims.react, DropClaims.claim] at hc ⊢
      split at hc
      · rcases List.mem_cons.mp hc with rfl | hc
        · exact le_rfl
        · exact hs c hc
      · exact hs c hc
    | _ => exact hs c hc

/-- A correction that leaves a mark in the future keeps its entry longer. -/
theorem not_freesAbandoned_of_ahead (h : system.Reachable s) {queueId : String} {entry : JsValue} {mark : ℚ}
    {clock : ℤ} (hreadable : s.storage.readable = true) (hwritable : s.storage.writable = true)
    (hfind : s.storage.stored.find? (isClaimable queueId) = some entry) (hmark : markOf entry = some mark)
    (hahead : (clock : ℚ) < mark) :
    ¬((s.react (.corrected clock)).react (.passed claimTtlMs.toNat)).FreesAbandoned := by
  intro hfree
  have hundisturbed : ((s.react (.corrected clock)).react (.passed claimTtlMs.toNat)).Undisturbed queueId s.elapsed :=
    ⟨le_rfl, fun c hc _ => claims_le_elapsed h c hc⟩
  have hclaim := hfree queueId s.elapsed hundisturbed le_rfl hreadable hwritable
    ⟨entry, List.mem_of_find?_eq_some hfind, List.find?_some hfind⟩
  have hheld : ((markOf entry).any fun since => ((clock + claimTtlMs : ℤ) : ℚ) - since < claimTtlMs) = true := by
    rw [hmark, Option.any_some, decide_eq_true_eq]
    push_cast
    linarith
  have hrefused : (s.storage.claimPendingDrop queueId (clock + claimTtlMs)).2 = false := by
    rw [DropStorage.claimPendingDrop, readEntries_of_readable hreadable, hfind]
    dsimp only
    rw [if_pos hheld]
  exact absurd (hclaim.symm.trans hrefused) (by decide)

/-- One drop, at some time. -/
def oneDrop : DropClaims := ⟨⟨.json (.arr [submittedDrop "a"]), true, true⟩, 4000000, 0, 0, []⟩

/-- The claim is abandoned, the clock is put forward, and thirty seconds pass. -/
theorem freesAbandoned_forward : ∃ s, system.ReachableUnder (fun s e => s.keepsMarksPast e = true) s ∧
    s.claims = [("a", 0)] ∧ s.FreesAbandoned := by
  have hrun : ((system.runUnder keepsMarksPast oneDrop
      [.claim "a", .passed 5000, .corrected 9000000, .passed 30000]).map claims) = some [("a", 0)] := by
    decide +kernel
  obtain ⟨s, hs, hclaims⟩ := Option.map_eq_some_iff.mp hrun
  have hreach : system.ReachableUnder (fun s e => s.keepsMarksPast e = true) s :=
    System.reachableUnder_of_runUnder ⟨_, _, by decide +kernel, rfl⟩ hs
  exact ⟨s, hreach, hclaims, freesAbandoned hreach⟩

/-- The claim is abandoned and the clock is put back by an hour. Thirty seconds later the drop
cannot be claimed. -/
theorem not_freesAbandoned_back : ¬∀ s, system.Reachable s → s.FreesAbandoned := by
  intro hclaim
  have hrun : ((system.run oneDrop [.claim "a", .corrected 400000, .passed 30000]).map fun s =>
      decide (s.corrected ≤ 0 ∧ (∀ c ∈ s.claims, c.1 = "a" → c.2 ≤ 0) ∧ 0 + claimTtlMs ≤ s.elapsed ∧
        s.storage.readable = true ∧ s.storage.writable = true ∧
        (∃ entry ∈ s.storage.stored, isClaimable "a" entry = true) ∧
        (s.storage.claimPendingDrop "a" s.clock).2 = false)) = some true := by
    decide +kernel
  obtain ⟨s, hs, hstate⟩ := Option.map_eq_some_iff.mp hrun
  obtain ⟨hcorrected, hclaims, helapsed, hreadable, hwritable, hstored, hrefused⟩ := of_decide_eq_true hstate
  have hreach : system.Reachable s := System.reachable_of_run ⟨_, _, by decide +kernel, rfl⟩ hs
  have hfree := hclaim s hreach "a" 0 ⟨hcorrected, hclaims⟩ helapsed hreadable hwritable hstored
  exact absurd (hfree.symm.trans hrefused) (by decide)

end DropClaims
end Arald
