import Arald.Content.Integrity
import Arald.Content.Store
import Arald.Foundations.Runs

/-!
# A flood of publishers nobody vetted

Anybody can sign contents under fresh identities and claim any urgency for
them. An eviction that they cause takes an entry of a vetted publisher only
while the store holds few entries of theirs: an unvetted entry beyond the
budget of `maxUnvettedElevatedEntries` scores below every vetted entry that is
at least as urgent as ordinary content. The number of such entries together
with the number of unvetted ones, counted up to nine, never falls under a flood
that brings new contents only. Signing the very bytes of a vetted entry again
replaces it without an eviction.
-/

namespace Arald

open Foundations

/-- The calls that fill a content store. -/
inductive StoreEvent where
  | put (name mimeType : String) (data : Buffer) (ttlMs : Option ℚ) (createdAt now : ℤ)
  | putVerified (metadata : ContentMetadata) (data : Buffer) (now : ℤ)

namespace ContentStore

section
variable (p : Platform) (trustRank : String → ℤ)

def step (s : ContentStore) : StoreEvent → ContentStore
  | .put name mimeType data ttlMs createdAt now =>
    s.put trustRank p name mimeType data ttlMs createdAt now
  | .putVerified metadata data now => (s.putVerified trustRank p metadata data now).1

/-- Any store, and every call that fills it. -/
def system : System ContentStore StoreEvent where
  Init _ := True
  step s e := some (s.step p trustRank e)

/-- The entry is signed by a publisher that no operator vetted. -/
def isUnvetted (item : StoredContent) : Bool :=
  item.metadata.publisher?.any fun publisherId => isUnvettedTrust (trustRank publisherId)

/-- The entry of a vetted publisher is at least as urgent as ordinary content. -/
def isVettedUrgent (item : StoredContent) : Bool :=
  item.metadata.publisher?.any (fun publisherId => !isUnvettedTrust (trustRank publisherId)) &&
    decide (item.metadata.urgency.toNat ≤ Priority.content.toNat)

def unvettedCount (s : ContentStore) : ℕ := s.items.map.count fun _ item => isUnvetted trustRank item

def vettedCount (s : ContentStore) : ℕ :=
  s.items.map.count fun _ item => isVettedUrgent trustRank item

/-- What an unvetted publisher submits. -/
def floods : StoreEvent → Bool
  | .put .. => false
  | .putVerified metadata data _ => isUnvetted trustRank ⟨metadata, data⟩

/-- The submission does not sign the bytes of a vetted entry again, or is refused. -/
def sparesVetted (s : ContentStore) : StoreEvent → Bool
  | .put .. => true
  | .putVerified metadata data now =>
    !verifies p metadata data now ||
      !(s.items.get? metadata.contentId).any (isVettedUrgent trustRank)

end

variable {p : Platform} {trustRank : String → ℤ} {s s' : ContentStore}

/-! ### Scores -/

theorem publisherId_of_publisher? {m : ContentMetadata} {publisherId : String}
    (h : m.publisher? = some publisherId) : m.publisherId = some publisherId := by
  rw [ContentMetadata.publisher?, Option.filter_eq_some_iff] at h
  exact h.1

/-- A vetted entry that is urgent enough scores above every unvetted one without urgency. -/
theorem le_score_of_vetted {item : StoredContent} (contentId : String)
    (h : isVettedUrgent trustRank item = true) :
    ((-37 : ℤ) : WithTop ℤ) ≤ s.pickEvictionScore trustRank contentId item := by
  rw [isVettedUrgent, Bool.and_eq_true, decide_eq_true_eq, Option.any_eq_true_iff_get] at h
  obtain ⟨⟨hsome, hvetted⟩, hurgent⟩ := h
  obtain ⟨publisherId, hpublisher⟩ := Option.isSome_iff_exists.mp hsome
  have hid := publisherId_of_publisher? hpublisher
  simp only [hpublisher, Option.get_some, isUnvettedTrust, unvettedTrustCeiling, Bool.not_eq_true',
    decide_eq_false_iff_not] at hvetted
  have hcontent : Priority.content.toNat = 4 := rfl
  rw [hcontent] at hurgent
  simp only [pickEvictionScore, hid, Option.getD_some, isUnvettedTrust, unvettedTrustCeiling,
    priorityTierSpread, hvetted, decide_false, Bool.and_false, Bool.false_and, Bool.false_eq_true,
    if_false]
  exact WithTop.coe_le_coe.mpr (by omega)

/-- An unvetted entry outside the budget scores as if it claimed no urgency. -/
theorem score_of_unvetted_le {item : StoredContent} {contentId : String}
    (h : isUnvetted trustRank item = true) (hbudget : contentId ∉ s.unvettedElevatedContentIds) :
    s.pickEvictionScore trustRank contentId item ≤ ((-38 : ℤ) : WithTop ℤ) := by
  rw [isUnvetted, Option.any_eq_true_iff_get] at h
  obtain ⟨hsome, hunvetted⟩ := h
  obtain ⟨publisherId, hpublisher⟩ := Option.isSome_iff_exists.mp hsome
  have hid := publisherId_of_publisher? hpublisher
  simp only [hpublisher, Option.get_some, isUnvettedTrust, unvettedTrustCeiling,
    decide_eq_true_eq] at hunvetted
  have hout : s.unvettedElevatedContentIds.contains contentId = false := by simpa using hbudget
  have hcontent : Priority.content.toNat = 4 := rfl
  simp only [pickEvictionScore, hid, Option.getD_some, isUnvettedTrust, unvettedTrustCeiling,
    priorityTierSpread, hunvetted, decide_true, Bool.and_true, hout, Bool.not_false]
  split_ifs with helevated
  · exact WithTop.coe_le_coe.mpr (by omega)
  · have hordinary : 4 ≤ item.metadata.urgency.toNat := by
      simpa [isElevated, hcontent] using helevated
    exact WithTop.coe_le_coe.mpr (by omega)

theorem length_snapshot_le (s : ContentStore) :
    (s.refreshUnvettedElevatedSnapshot trustRank).unvettedElevatedContentIds.length ≤
      maxUnvettedElevatedEntries := by
  simp only [refreshUnvettedElevatedSnapshot, List.length_drop]
  omega

/-- When an insertion evicts a vetted entry, the budget covers every unvetted one. -/
theorem unvettedCount_le_of_victim {contentId victim : String} {item : StoredContent}
    (hvictim : s.items.victim?
      (some ((s.refreshUnvettedElevatedSnapshot trustRank).pickEvictionScore trustRank)) contentId =
        some victim)
    (hget : s.items.get? victim = some item) (hvetted : isVettedUrgent trustRank item = true) :
    s.unvettedCount trustRank ≤ maxUnvettedElevatedEntries := by
  let r := s.refreshUnvettedElevatedSnapshot trustRank
  -- every other entry scores at least as much as the victim, and the victim is vetted
  have hleast : ∀ e ∈ s.items.entries, ((-37 : ℤ) : WithTop ℤ) ≤ r.pickEvictionScore trustRank e.1 e.2 := by
    intro e he
    have hvictim_le := BoundedFifoMap.score_victim_le (fun e _ => WithTop.coe_lt_top _) hvictim hget e he
    exact (le_score_of_vetted (s := r) victim hvetted).trans hvictim_le
  have hcovered : ∀ e ∈ s.items.entries.filter (fun e => isUnvetted trustRank e.2),
      e.1 ∈ r.unvettedElevatedContentIds := by
    intro e he
    obtain ⟨hmem, hunvetted⟩ := List.mem_filter.mp he
    by_contra hout
    have hlow := (hleast e hmem).trans (score_of_unvetted_le hunvetted hout)
    exact absurd (WithTop.coe_le_coe.mp hlow) (by norm_num)
  have hnodup : ((s.items.entries.filter fun e => isUnvetted trustRank e.2).map Prod.fst).Nodup :=
    s.items.map.nodup.sublist (List.filter_sublist.map _)
  have hsub : (s.items.entries.filter fun e => isUnvetted trustRank e.2).map Prod.fst ⊆
      r.unvettedElevatedContentIds := by
    intro id hid
    obtain ⟨e, he, rfl⟩ := List.mem_map.mp hid
    exact hcovered e he
  have hlength := (hnodup.subperm hsub).length_le
  rw [List.length_map, ← List.countP_eq_length_filter] at hlength
  exact hlength.trans (length_snapshot_le s)

/-! ### Insertions -/

/-- What an insertion can do to the entries. -/
theorem insert_cases (trustRank : String → ℤ) (s : ContentStore) (metadata : ContentMetadata)
    (data : Buffer) :
    (s.insert trustRank metadata data).items.map = s.items.map ∨
    (s.insert trustRank metadata data).items.map =
      s.items.map.set metadata.contentId ⟨metadata, data⟩ ∨
    metadata.contentId ∉ s.items.map.keys ∧ ∃ victim item, s.items.get? victim = some item ∧
      s.items.victim?
        (some ((s.refreshUnvettedElevatedSnapshot trustRank).pickEvictionScore trustRank))
        metadata.contentId = some victim ∧
      (s.insert trustRank metadata data).items.map =
        (s.items.map.delete victim).set metadata.contentId ⟨metadata, data⟩ := by
  rcases s.items.set_cases
      (some ((s.refreshUnvettedElevatedSnapshot trustRank).pickEvictionScore trustRank))
      metadata.contentId ⟨metadata, data⟩ with
    ⟨-, hsame⟩ | ⟨-, -, hmap⟩ | ⟨-, hnew, -, victim, hmem, hvictim, hmap⟩
  · exact .inl (congrArg BoundedFifoMap.map hsame)
  · exact .inr (.inl hmap)
  · obtain ⟨item, hitem⟩ := OrderedMap.mem_keys.mp hmem
    exact .inr (.inr ⟨hnew, victim, item, BoundedFifoMap.get?_eq_some.mpr hitem, hvictim, hmap⟩)

/-- A publisher is vetted or not. -/
theorem not_vetted_of_unvetted {item : StoredContent} (h : isUnvetted trustRank item = true) :
    isVettedUrgent trustRank item = false := by
  rw [isUnvetted, Option.any_eq_true_iff_get] at h
  obtain ⟨hsome, hunvetted⟩ := h
  obtain ⟨publisherId, hpublisher⟩ := Option.isSome_iff_exists.mp hsome
  simp only [hpublisher, Option.get_some] at hunvetted
  simp [isVettedUrgent, hpublisher, hunvetted]

/-- An insertion evicts a vetted entry only while the budget covers the unvetted ones. -/
theorem unvettedCount_le_of_insert {metadata : ContentMetadata} {data : Buffer} {contentId : String}
    {item : StoredContent} (hget : s.items.get? contentId = some item)
    (hvetted : isVettedUrgent trustRank item = true)
    (hgone : (s.insert trustRank metadata data).items.get? contentId = none) :
    s.unvettedCount trustRank ≤ maxUnvettedElevatedEntries := by
  have hget' : s.items.map.get? contentId = some item := hget
  change (s.insert trustRank metadata data).items.map.get? contentId = none at hgone
  rcases insert_cases trustRank s metadata data with
    hsame | hmap | ⟨-, victim, old, hold, hvictim, hmap⟩
  · simp [hsame, hget'] at hgone
  · rw [hmap, OrderedMap.get?_set] at hgone
    split_ifs at hgone
    simp [hget'] at hgone
  · rw [hmap, OrderedMap.get?_set] at hgone
    split_ifs at hgone
    rw [OrderedMap.get?_delete] at hgone
    split_ifs at hgone with hkey
    · subst hkey
      exact unvettedCount_le_of_victim hvictim hget hvetted
    · simp [hget'] at hgone

/-- The entries that a flood cannot reduce: the vetted ones, and up to nine of its own. -/
def standing (trustRank : String → ℤ) (s : ContentStore) : ℕ :=
  s.vettedCount trustRank + min (s.unvettedCount trustRank) (maxUnvettedElevatedEntries + 1)

theorem standing_insert {metadata : ContentMetadata} {data : Buffer}
    (hunvetted : isUnvetted trustRank ⟨metadata, data⟩ = true)
    (hspares : ∀ item, s.items.get? metadata.contentId = some item →
      isVettedUrgent trustRank item = false) :
    s.standing trustRank ≤ (s.insert trustRank metadata data).standing trustRank := by
  have hnot := not_vetted_of_unvetted hunvetted
  rcases insert_cases trustRank s metadata data with
    hsame | hmap | ⟨hnew, victim, old, hold, hvictim, hmap⟩
  · simp [standing, vettedCount, unvettedCount, hsame]
  · cases hget : s.items.map.get? metadata.contentId with
    | none =>
      have hnew := OrderedMap.get?_eq_none.mp hget
      have hv := OrderedMap.count_set_of_notMem ⟨metadata, data⟩
        (fun _ item => isVettedUrgent trustRank item) hnew
      have hu := OrderedMap.count_set_of_notMem ⟨metadata, data⟩
        (fun _ item => isUnvetted trustRank item) hnew
      simp only [standing, vettedCount, unvettedCount, hmap, hv, hu, hnot, hunvetted,
        Bool.toNat_false, Bool.toNat_true]
      omega
    | some old =>
      have hv := OrderedMap.count_set_of_get? (v := ⟨metadata, data⟩)
        (fun _ item => isVettedUrgent trustRank item) hget
      have hu := OrderedMap.count_set_of_get? (v := ⟨metadata, data⟩)
        (fun _ item => isUnvetted trustRank item) hget
      have hold := (isUnvetted trustRank old).toNat_le
      simp only [hspares old hget, hnot, hunvetted, Bool.toNat_false, Bool.toNat_true] at hv hu
      simp only [standing, vettedCount, unvettedCount, hmap]
      omega
  · have hgone : metadata.contentId ∉ (s.items.map.delete victim).keys := fun hmem =>
      hnew (OrderedMap.mem_keys_delete.mp hmem).1
    have hv := OrderedMap.count_set_of_notMem ⟨metadata, data⟩
      (fun _ item => isVettedUrgent trustRank item) hgone
    have hu := OrderedMap.count_set_of_notMem ⟨metadata, data⟩
      (fun _ item => isUnvetted trustRank item) hgone
    have hvold := OrderedMap.count_delete_of_get? (fun _ item => isVettedUrgent trustRank item) hold
    have huold := OrderedMap.count_delete_of_get? (fun _ item => isUnvetted trustRank item) hold
    have hone := (isUnvetted trustRank old).toNat_le
    simp only [hnot, hunvetted, Bool.toNat_false, Bool.toNat_true] at hv hu
    simp only [standing, vettedCount, unvettedCount, hmap]
    cases hvetted : isVettedUrgent trustRank old with
    | false =>
      simp only [hvetted, Bool.toNat_false] at hvold
      omega
    | true =>
      have hfew := unvettedCount_le_of_victim hvictim hold hvetted
      have hvnot : isUnvetted trustRank old = false := by
        by_contra hcontra
        have hunv := not_vetted_of_unvetted (eq_true_of_ne_false hcontra)
        simp [hvetted] at hunv
      simp only [hvetted, hvnot, Bool.toNat_false, Bool.toNat_true] at hvold huold
      simp only [unvettedCount] at hfew
      omega

/-! ### Runs -/

theorem standing_step {e : StoreEvent} (hflood : floods trustRank e = true)
    (hspares : s.sparesVetted p trustRank e = true) :
    s.standing trustRank ≤ (s.step p trustRank e).standing trustRank := by
  cases e with
  | put name mimeType data ttlMs createdAt now => simp [floods] at hflood
  | putVerified metadata data now =>
    cases hverifies : verifies p metadata data now with
    | false => simp [step, putVerified_of_not_verifies hverifies]
    | true =>
      simp only [step, putVerified_of_verifies hverifies]
      refine standing_insert hflood ?_
      intro item hitem
      simpa [sparesVetted, hverifies, hitem] using hspares

theorem standing_run {es : List StoreEvent}
    (h : (system p trustRank).runUnder
      (fun s e => floods trustRank e && s.sparesVetted p trustRank e) s es = some s') :
    s.standing trustRank ≤ s'.standing trustRank := by
  induction es generalizing s with
  | nil =>
    obtain rfl : s = s' := by simpa [System.runUnder] using h
    exact le_rfl
  | cons e es ih =>
    rw [System.runUnder] at h
    split_ifs at h with hcondition
    rw [Bool.and_eq_true] at hcondition
    exact (standing_step hcondition.1 hcondition.2).trans (ih h)

/-- A flood of unvetted publishers that signs no vetted entry again costs a store
at most nine of its vetted entries, and an eviction takes one of them only while
at most eight entries are unvetted. -/
theorem flood_keeps_vetted {es : List StoreEvent}
    (h : (system p trustRank).runUnder
      (fun s e => floods trustRank e && s.sparesVetted p trustRank e) s es = some s') :
    (∀ e contentId item, floods trustRank e = true → s'.items.get? contentId = some item →
      isVettedUrgent trustRank item = true →
      (s'.step p trustRank e).items.get? contentId = none → s'.unvettedCount trustRank ≤ 8) ∧
    s.vettedCount trustRank ≤ s'.vettedCount trustRank + 9 := by
  constructor
  · intro e contentId item hflood hget hvetted hgone
    cases e with
    | put name mimeType data ttlMs createdAt now => simp [floods] at hflood
    | putVerified metadata data now =>
      cases hverifies : verifies p metadata data now with
      | false => simp [step, putVerified_of_not_verifies hverifies, hget] at hgone
      | true =>
        simp only [step, putVerified_of_verifies hverifies] at hgone
        exact unvettedCount_le_of_insert hget hvetted hgone
  · have hstanding := standing_run h
    simp only [standing, maxUnvettedElevatedEntries] at hstanding
    omega

/-- Ten one-byte contents that one publisher signs, all with one claimed priority. -/
def tenNotes (publisherId : String) (priority : JsValue) (first : ℕ) : List StoreEvent :=
  (List.range 10).map fun i =>
    let data : Buffer := [UInt8.ofNat (first + i)]
    .putVerified (ContentNode.signedNote publisherId data priority none) data 1

/-- An operator vetted one publisher. -/
def vetsAda (publisherId : String) : ℤ := if publisherId = "ada" then 3 else 0

/-- A store with room for the ten contents of the vetted publisher. -/
def adasStore : ContentStore :=
  (tenNotes "ada" .undefined 65).foldl (step ContentNode.plainRuntime vetsAda) (create 10)

/-- Ten urgent contents of an unvetted publisher evict nine of them. -/
theorem flood_keeps_vetted_urgent :
    ∃ s', (system ContentNode.plainRuntime vetsAda).runUnder
        (fun s e => floods vetsAda e && s.sparesVetted ContentNode.plainRuntime vetsAda e)
        adasStore (tenNotes "eve" Priority.emergency.toJs 75) = some s' ∧
      adasStore.vettedCount vetsAda = 10 ∧ s'.vettedCount vetsAda = 1 ∧
      adasStore.vettedCount vetsAda ≤ s'.vettedCount vetsAda + 9 := by
  have hrun : ((system ContentNode.plainRuntime vetsAda).runUnder
      (fun s e => floods vetsAda e && s.sparesVetted ContentNode.plainRuntime vetsAda e)
      adasStore (tenNotes "eve" Priority.emergency.toJs 75)).map (fun s => s.vettedCount vetsAda) =
        some 1 := by
    decide +kernel
  obtain ⟨s', hs', hcount⟩ := Option.map_eq_some_iff.mp hrun
  have hten : adasStore.vettedCount vetsAda = 10 := by decide +kernel
  have hkept := (flood_keeps_vetted hs').2
  exact ⟨s', hs', hten, hcount, hkept⟩

/-- Signing the same ten contents again replaces every one of them. -/
theorem flood_replaces_vetted :
    (∀ e ∈ tenNotes "eve" .undefined 65, floods vetsAda e = true) ∧
    ∃ s', (system ContentNode.plainRuntime vetsAda).run adasStore (tenNotes "eve" .undefined 65) = some s' ∧
      ¬adasStore.vettedCount vetsAda ≤ s'.vettedCount vetsAda + 9 := by
  have hflood : ((tenNotes "eve" .undefined 65).all fun e => floods vetsAda e) = true := by
    decide
  refine ⟨List.all_eq_true.mp hflood, ?_⟩
  have hrun : ((system ContentNode.plainRuntime vetsAda).run adasStore
      (tenNotes "eve" .undefined 65)).map (fun s => s.vettedCount vetsAda) = some 0 := by
    decide +kernel
  obtain ⟨s', hs', hcount⟩ := Option.map_eq_some_iff.mp hrun
  have hten : adasStore.vettedCount vetsAda = 10 := by decide +kernel
  refine ⟨s', hs', ?_⟩
  rw [hten, hcount]
  norm_num

end ContentStore
end Arald
