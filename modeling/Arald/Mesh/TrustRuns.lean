import Arald.Foundations.Runs
import Arald.Mesh.Trust

/-!
# Earned and assigned trust

Peers earn `SEEN` and `VERIFIED` by what they send; `TRUSTED` and `ADMIN` are
assigned by the operator. A full table makes room for a newcomer at the expense
of a peer of the lowest level present, so that as long as the operator's
assignments do not fill the table, no crowd of newcomers reaches them. What the
operator last decided for each peer is kept beside the table.
-/

namespace Arald

open Foundations

namespace TrustManager

variable {t : TrustManager} {nodeId peer : String} {level lowest : TrustLevel}

/-- The entries at the levels that only the operator assigns. -/
def assignments (t : TrustManager) : List (String × TrustLevel) :=
  t.levels.entries.filter fun e => meetsTrustLevel e.2 .trusted

/-- The table holds as many peers as it may. -/
def full (t : TrustManager) : Prop := t.maxSize ≤ (((t.levels.size : ℕ) : ℤ) : WithTop ℤ)

theorem meetsTrustLevel_iff {level threshold : TrustLevel} :
    meetsTrustLevel level threshold = true ↔ trustRank threshold ≤ trustRank level :=
  decide_eq_true_iff

theorem zero_le_trustRank (level : TrustLevel) : 0 ≤ trustRank level := by
  cases level <;> decide

theorem mem_assignments : (peer, level) ∈ t.assignments ↔
    t.levels.get? peer = some level ∧ meetsTrustLevel level .trusted = true := by
  rw [assignments, List.mem_filter, OrderedMap.get?_eq_some]

theorem get_of_get? (h : t.levels.get? peer = some level) : t.get peer = level := by
  rw [get, h, Option.getD_some]

/-- A peer below an earned level holds no assignment. -/
theorem not_assigned_of_lt {earned : TrustLevel} (hearned : meetsTrustLevel earned .trusted = false)
    (h : trustRank level < trustRank earned) : meetsTrustLevel level .trusted = false := by
  rw [← Bool.not_eq_true, meetsTrustLevel_iff] at hearned ⊢
  omega

/-! ### The eviction -/

/-- The scan finds a peer of the lowest level, if any is below the starting rank. -/
theorem evictKey_cases {best : Option String} {bound : WithTop ℤ} {l : List (String × TrustLevel)}
    {key : String} (h : evictKey best bound l = some key) :
    (best = some key ∧ ∀ e ∈ l, bound ≤ trustRank e.2) ∨
      ∃ level, (key, level) ∈ l ∧ (trustRank level : WithTop ℤ) < bound ∧
        ∀ e ∈ l, trustRank level ≤ trustRank e.2 := by
  induction l generalizing best bound with
  | nil => exact .inl ⟨h, by simp⟩
  | cons e rest ih =>
    obtain ⟨id, level⟩ := e
    rw [evictKey] at h
    split_ifs at h with hlt hunknown
    · obtain rfl := Option.some_inj.mp h
      refine .inr ⟨level, List.mem_cons_self, hlt, ?_⟩
      intro e _
      rw [hunknown]
      exact zero_le_trustRank e.2
    · right
      rcases ih h with ⟨hkey, hrest⟩ | ⟨level', hmem, hlt', hrest⟩
      · obtain rfl := Option.some_inj.mp hkey
        refine ⟨level, List.mem_cons_self, hlt, ?_⟩
        intro e he
        rcases List.mem_cons.mp he with rfl | he
        · exact le_rfl
        · exact WithTop.coe_le_coe.mp (hrest e he)
      · have hlower : trustRank level' < trustRank level := WithTop.coe_lt_coe.mp hlt'
        refine ⟨level', List.mem_cons_of_mem _ hmem, hlt'.trans hlt, ?_⟩
        intro e he
        rcases List.mem_cons.mp he with rfl | he
        · exact hlower.le
        · exact hrest e he
    · rcases ih h with ⟨hkey, hrest⟩ | ⟨level', hmem, hlt', hrest⟩
      · refine .inl ⟨hkey, ?_⟩
        intro e he
        rcases List.mem_cons.mp he with rfl | he
        · exact not_lt.mp hlt
        · exact hrest e he
      · refine .inr ⟨level', List.mem_cons_of_mem _ hmem, hlt', ?_⟩
        intro e he
        rcases List.mem_cons.mp he with rfl | he
        · exact WithTop.coe_le_coe.mp (hlt'.le.trans (not_lt.mp hlt))
        · exact hrest e he

/-- A scan that has a candidate, or an entry to look at, finds one. -/
theorem evictKey_isSome {best : Option String} {bound : WithTop ℤ} {l : List (String × TrustLevel)}
    (h : best.isSome = true ∨ (l ≠ [] ∧ bound = ⊤)) : (evictKey best bound l).isSome = true := by
  induction l generalizing best bound with
  | nil => exact h.resolve_right fun hne => hne.1 rfl
  | cons e rest ih =>
    obtain ⟨id, level⟩ := e
    rw [evictKey]
    split_ifs with hlt hunknown
    · rfl
    · exact ih (.inl rfl)
    · rcases h with hbest | ⟨-, rfl⟩
      · exact ih (.inl hbest)
      · exact absurd (WithTop.coe_lt_top _) hlt

/-- What making room for a peer does: nothing while the peer is known or there is
room, and the loss of a peer of the lowest level otherwise. -/
theorem ensureCapacityFor_cases (t : TrustManager) (nodeId : String) :
    ((t.levels.has nodeId = true ∨ ¬t.full ∨ t.levels.entries = []) ∧ t.ensureCapacityFor nodeId = t) ∨
      (t.levels.has nodeId = false ∧ t.full ∧ ∃ victim level, (victim, level) ∈ t.levels.entries ∧
        (∀ e ∈ t.levels.entries, trustRank level ≤ trustRank e.2) ∧
        t.ensureCapacityFor nodeId = { t with levels := t.levels.delete victim }) := by
  unfold ensureCapacityFor
  split_ifs with hroom
  · left
    rw [Bool.or_eq_true, decide_eq_true_iff] at hroom
    exact ⟨hroom.imp_right fun hlt => .inl (not_le.mpr hlt), rfl⟩
  · rw [Bool.or_eq_true, decide_eq_true_iff, not_or, Bool.not_eq_true, not_lt] at hroom
    by_cases hempty : t.levels.entries = []
    · left
      rw [hempty]
      exact ⟨.inr (.inr rfl), rfl⟩
    · right
      have hsome : (evictKey none ⊤ t.levels.entries).isSome = true :=
        evictKey_isSome (.inr ⟨hempty, rfl⟩)
      obtain ⟨key, hkey⟩ := Option.isSome_iff_exists.mp hsome
      rw [hkey]
      rcases evictKey_cases hkey with ⟨hnone, -⟩ | ⟨level, hmem, -, hlowest⟩
      · cases hnone
      · exact ⟨hroom.1, hroom.2, key, level, hmem, hlowest, rfl⟩

@[simp] theorem maxSize_ensureCapacityFor : (t.ensureCapacityFor nodeId).maxSize = t.maxSize := by
  rcases t.ensureCapacityFor_cases nodeId with ⟨-, heq⟩ | ⟨-, -, victim, level, -, -, heq⟩ <;> rw [heq]

/-- Room is made only for a peer that is not in the table. -/
theorem get?_ensureCapacityFor_of_none (h : t.levels.get? nodeId = none) :
    (t.ensureCapacityFor nodeId).levels.get? nodeId = none := by
  rcases t.ensureCapacityFor_cases nodeId with ⟨-, heq⟩ | ⟨-, -, victim, level, -, -, heq⟩
  · rw [heq, h]
  · rw [heq, OrderedMap.get?_delete, h, ite_self]

/-- The table with room for one peer more: a bound that survives the insertion. -/
theorem size_ensureCapacityFor (h : (((t.levels.size : ℕ) : ℤ) : WithTop ℤ) ≤ max 1 t.maxSize)
    (hnew : t.levels.has nodeId = false) :
    ((((t.ensureCapacityFor nodeId).levels.size + 1 : ℕ) : ℤ) : WithTop ℤ) ≤ max 1 t.maxSize := by
  rcases t.ensureCapacityFor_cases nodeId with ⟨hwhy, heq⟩ | ⟨-, hfull, victim, level, hmem, -, heq⟩
  · rw [heq]
    rcases hwhy with hhas | hroom | hempty
    · rw [hnew] at hhas
      cases hhas
    · have hlt : (((t.levels.size : ℕ) : ℤ) : WithTop ℤ) < t.maxSize := not_le.mp hroom
      apply le_max_of_le_right
      cases hmax : t.maxSize with
      | top => exact le_top
      | coe limit =>
        rw [hmax, WithTop.coe_lt_coe] at hlt
        rw [WithTop.coe_le_coe]
        push_cast
        omega
    · have hzero : t.levels.size = 0 := by rw [OrderedMap.size, hempty, List.length_nil]
      rw [hzero]
      exact le_max_left _ _
  · have hkey : victim ∈ t.levels.keys := OrderedMap.mem_keys_of_mem hmem
    have hsize : (t.levels.delete victim).size + 1 = t.levels.size :=
      OrderedMap.size_delete_of_mem hkey
    rw [heq, hsize]
    exact h

/-! ### Assignments under the operations -/

theorem filter_setEntries_of_neg {p : String × TrustLevel → Bool} {l : List (String × TrustLevel)}
    (hnew : p (nodeId, level) = false) (hold : ∀ w, (nodeId, w) ∈ l → p (nodeId, w) = false) :
    (OrderedMap.setEntries nodeId level l).filter p = l.filter p := by
  induction l with
  | nil => simp [OrderedMap.setEntries, hnew]
  | cons e rest ih =>
    obtain ⟨id, w⟩ := e
    have hrest := ih fun w' hw' => hold w' (List.mem_cons_of_mem _ hw')
    rw [OrderedMap.setEntries]
    split_ifs with hid
    · subst hid
      rw [List.filter_cons_of_neg (by rw [hnew]; decide),
        List.filter_cons_of_neg (by rw [hold w List.mem_cons_self]; decide)]
    · rw [List.filter_cons, List.filter_cons, hrest]

/-- Writing a level that can be earned over one that is lower touches no assignment. -/
theorem assignments_raiseTo (hearned : meetsTrustLevel level .trusted = false) :
    (t.raiseTo nodeId level).assignments = t.assignments := by
  unfold raiseTo
  split_ifs with hlt
  · apply filter_setEntries_of_neg hearned
    intro w hw
    rw [get_of_get? (OrderedMap.get?_eq_some.mpr hw)] at hlt
    exact not_assigned_of_lt hearned hlt
  · rfl

theorem assignments_ensureCapacityFor_subset :
    (t.ensureCapacityFor nodeId).assignments ⊆ t.assignments := by
  rcases t.ensureCapacityFor_cases nodeId with ⟨-, heq⟩ | ⟨-, -, victim, level, -, -, heq⟩
  · rw [heq]
    exact List.Subset.refl _
  · rw [heq]
    exact (List.filter_sublist.filter _).subset

/-- A table that the assignments do not fill has a cheaper victim than any of them. -/
theorem assignments_ensureCapacityFor
    (hfew : (((t.assignments.length : ℕ) : ℤ) : WithTop ℤ) < t.maxSize) :
    (t.ensureCapacityFor nodeId).assignments = t.assignments := by
  rcases t.ensureCapacityFor_cases nodeId with ⟨-, heq⟩ | ⟨-, hfull, victim, level, hmem, hlowest, heq⟩
  · rw [heq]
  · have hlength : t.assignments.length < t.levels.entries.length := by
      exact_mod_cast hfew.trans_le hfull
    have hearned : ∃ e ∈ t.levels.entries, meetsTrustLevel e.2 .trusted = false := by
      by_contra hnone
      have hall : ∀ e ∈ t.levels.entries, meetsTrustLevel e.2 .trusted = true := by
        intro e he
        by_contra hlow
        exact hnone ⟨e, he, Bool.not_eq_true _ ▸ hlow⟩
      rw [assignments, List.filter_eq_self.mpr hall] at hlength
      exact hlength.false
    obtain ⟨e, he, hlow⟩ := hearned
    have hvictim : meetsTrustLevel level .trusted = false := by
      have hle := hlowest e he
      rw [← Bool.not_eq_true, meetsTrustLevel_iff] at hlow ⊢
      omega
    rw [heq, assignments, assignments]
    change (t.levels.entries.filter _).filter _ = _
    rw [List.filter_filter]
    apply List.filter_congr
    rintro ⟨id, w⟩ hw
    rcases eq_or_ne id victim with rfl | hne
    · obtain rfl := OrderedMap.eq_of_mem_entries hw hmem
      simp [hvictim]
    · simp [hne]

/-! ### Levels under the operations -/

/-- An earned level is given to a peer. -/
def earn (t : TrustManager) (nodeId : String) (level : TrustLevel) : TrustManager :=
  (t.ensureCapacityFor nodeId).raiseTo nodeId level

@[simp] theorem maxSize_raiseTo : (t.raiseTo nodeId level).maxSize = t.maxSize := by
  unfold raiseTo
  split_ifs <;> rfl

theorem get_raiseTo (peer : String) :
    (t.raiseTo nodeId level).get peer =
      if peer = nodeId ∧ trustRank (t.get nodeId) < trustRank level then level else t.get peer := by
  unfold raiseTo
  split_ifs with hlt hpeer hpeer
  · rw [hpeer.1, get, OrderedMap.get?_set_self, Option.getD_some]
  · rw [get, OrderedMap.get?_set_of_ne _ _ fun hid => hpeer ⟨hid, hlt⟩, ← get]
  · exact absurd hpeer.2 hlt
  · rfl

theorem trustRank_get_raiseTo (peer : String) :
    trustRank (t.get peer) ≤ trustRank ((t.raiseTo nodeId level).get peer) := by
  rw [get_raiseTo]
  split_ifs with h
  · rw [h.1]
    exact h.2.le
  · exact le_rfl

/-- An earned level lowers nobody, except that one peer of the lowest level present
is forgotten when a newcomer meets a full table. -/
theorem earn_cases (t : TrustManager) (nodeId : String) (level : TrustLevel) :
    (∀ peer, trustRank (t.get peer) ≤ trustRank ((t.earn nodeId level).get peer)) ∨
      (t.levels.has nodeId = false ∧ t.full ∧ ∃ victim lowest, (victim, lowest) ∈ t.levels.entries ∧
        (∀ e ∈ t.levels.entries, trustRank lowest ≤ trustRank e.2) ∧
        ∀ peer, peer ≠ victim → trustRank (t.get peer) ≤ trustRank ((t.earn nodeId level).get peer)) := by
  rcases t.ensureCapacityFor_cases nodeId with ⟨-, heq⟩ | ⟨hnew, hfull, victim, lowest, hmem, hlowest, heq⟩
  · left
    intro peer
    rw [earn, heq]
    exact trustRank_get_raiseTo peer
  · right
    refine ⟨hnew, hfull, victim, lowest, hmem, hlowest, ?_⟩
    intro peer hpeer
    have hkept : (t.ensureCapacityFor nodeId).get peer = t.get peer := by
      rw [heq, get, OrderedMap.get?_delete_of_ne _ hpeer, ← get]
    rw [earn, ← hkept]
    exact trustRank_get_raiseTo peer

theorem assignments_earn (hearned : meetsTrustLevel level .trusted = false)
    (hfew : (((t.assignments.length : ℕ) : ℤ) : WithTop ℤ) < t.maxSize) :
    (t.earn nodeId level).assignments = t.assignments := by
  rw [earn, assignments_raiseTo hearned, assignments_ensureCapacityFor hfew]

theorem assignments_earn_subset (hearned : meetsTrustLevel level .trusted = false) :
    (t.earn nodeId level).assignments ⊆ t.assignments := by
  rw [earn, assignments_raiseTo hearned]
  exact assignments_ensureCapacityFor_subset

/-- An operation on one peer leaves the table within its bound. -/
theorem size_set (nodeId : String) (level : TrustLevel) (h : (((t.levels.size : ℕ) : ℤ) : WithTop ℤ) ≤ max 1 t.maxSize) :
    ((((t.set nodeId level).levels.size : ℕ) : ℤ) : WithTop ℤ) ≤ max 1 t.maxSize := by
  by_cases hhas : t.levels.has nodeId = true
  · have hroom : t.ensureCapacityFor nodeId = t := by
      rcases t.ensureCapacityFor_cases nodeId with ⟨-, heq⟩ | ⟨hnew, -⟩
      · exact heq
      · rw [hnew] at hhas
        cases hhas
    rw [set, hroom]
    dsimp only
    rw [OrderedMap.size_set_of_mem _ (OrderedMap.has_iff.mp hhas)]
    exact h
  · rw [Bool.not_eq_true] at hhas
    have hnone : t.levels.get? nodeId = none := by
      rwa [OrderedMap.has, Option.isSome_eq_false_iff, Option.isNone_iff_eq_none] at hhas
    rw [set]
    dsimp only
    rw [OrderedMap.size_set_of_notMem _ (OrderedMap.get?_eq_none.mp (get?_ensureCapacityFor_of_none hnone))]
    exact size_ensureCapacityFor h hhas

theorem size_ensureCapacityFor_le : (t.ensureCapacityFor nodeId).levels.size ≤ t.levels.size := by
  rcases t.ensureCapacityFor_cases nodeId with ⟨-, heq⟩ | ⟨-, -, victim, lowest, -, -, heq⟩
  · rw [heq]
  · rw [heq]
    exact OrderedMap.size_delete_le _ _

theorem size_earn (nodeId : String) (level : TrustLevel) (h : (((t.levels.size : ℕ) : ℤ) : WithTop ℤ) ≤ max 1 t.maxSize) :
    ((((t.earn nodeId level).levels.size : ℕ) : ℤ) : WithTop ℤ) ≤ max 1 t.maxSize := by
  rw [earn, raiseTo]
  split_ifs
  · exact size_set nodeId level h
  · exact le_trans (by exact_mod_cast size_ensureCapacityFor_le) h

/-- The operator's assignment of a peer, and of nobody else. -/
theorem mem_assignments_set (h : (peer, lowest) ∈ (t.set nodeId level).assignments) :
    (peer = nodeId ∧ lowest = level) ∨ (peer ≠ nodeId ∧ (peer, lowest) ∈ t.assignments) := by
  obtain ⟨hget, hassigned⟩ := mem_assignments.mp h
  rw [set] at hget
  rcases eq_or_ne peer nodeId with rfl | hne
  · rw [OrderedMap.get?_set_self] at hget
    exact .inl ⟨rfl, (Option.some_inj.mp hget).symm⟩
  · rw [OrderedMap.get?_set_of_ne _ _ hne] at hget
    exact .inr ⟨hne, assignments_ensureCapacityFor_subset (mem_assignments.mpr ⟨hget, hassigned⟩)⟩

end TrustManager

/-! ### Runs -/

inductive TrustCall where
  | markSeen (nodeId : String)
  | markVerified (nodeId : String)
  /-- The operator assigns a level. -/
  | setTrust (nodeId : String) (level : TrustLevel)

/-- The table, and the operator's last decision on each peer. -/
structure TrustRun where
  trust : TrustManager
  decided : String → Option TrustLevel

namespace TrustRun

/-- The node makes the call by itself. -/
def automatic : TrustCall → Bool
  | .setTrust .. => false
  | _ => true

def call (s : TrustRun) : TrustCall → TrustRun
  | .markSeen nodeId => { s with trust := s.trust.markSeen nodeId }
  | .markVerified nodeId => { s with trust := s.trust.markVerified nodeId }
  | .setTrust nodeId level =>
    { trust := s.trust.set nodeId level, decided := Function.update s.decided nodeId (some level) }

def system : System TrustRun TrustCall where
  Init s := ∃ maxSize, s = ⟨⟨.empty, maxSize⟩, fun _ => none⟩
  step s c := some (s.call c)

variable {s : TrustRun} {c : TrustCall}

/-- An automatic call gives an earned level. -/
theorem call_of_automatic (h : automatic c = true) : ∃ nodeId level,
    meetsTrustLevel level .trusted = false ∧ s.call c = { s with trust := s.trust.earn nodeId level } := by
  cases c with
  | markSeen nodeId => exact ⟨nodeId, .seen, rfl, rfl⟩
  | markVerified nodeId => exact ⟨nodeId, .verified, rfl, rfl⟩
  | setTrust nodeId level => cases h

/-- The table is within its bound, and holds no assignment but the operator's. -/
structure Decided (s : TrustRun) : Prop where
  size : (((s.trust.levels.size : ℕ) : ℤ) : WithTop ℤ) ≤ max 1 s.trust.maxSize
  assigned : ∀ e ∈ s.trust.assignments, s.decided e.1 = some e.2

theorem Decided.call (h : Decided s) (c : TrustCall) : Decided (s.call c) := by
  cases hauto : automatic c with
  | true =>
    obtain ⟨nodeId, level, hearned, heq⟩ := call_of_automatic hauto
    rw [heq]
    constructor
    · simpa [TrustManager.earn] using TrustManager.size_earn nodeId level h.size
    · intro e he
      exact h.assigned e (TrustManager.assignments_earn_subset hearned he)
  | false =>
    cases c with
    | setTrust nodeId level =>
      constructor
      · simpa [TrustRun.call, TrustManager.set] using
          TrustManager.size_set nodeId level h.size
      · rintro ⟨peer, assigned⟩ he
        change Function.update s.decided nodeId (some level) peer = some assigned
        rcases TrustManager.mem_assignments_set he with ⟨rfl, rfl⟩ | ⟨hne, hold⟩
        · exact Function.update_self ..
        · rw [Function.update_of_ne hne]
          exact h.assigned _ hold
    | markSeen nodeId => cases hauto
    | markVerified nodeId => cases hauto

theorem decided_of_reachable (h : system.Reachable s) : Decided s := by
  apply h.invariant
  · rintro _ ⟨maxSize, rfl⟩
    exact ⟨le_max_of_le_left zero_le_one, by simp [TrustManager.assignments]⟩
  · intro s c s' hs _ hstep
    obtain rfl := Option.some_inj.mp hstep
    exact hs.call c

/-- Automatic calls, as many as there may be, leave the assignments of a table that
they do not fill as they are. -/
theorem assignments_of_automatic {calls : List TrustCall} (h : ∀ c ∈ calls, automatic c = true)
    (hfew : (((s.trust.assignments.length : ℕ) : ℤ) : WithTop ℤ) < s.trust.maxSize) :
    (calls.foldl call s).trust.assignments = s.trust.assignments := by
  induction calls generalizing s with
  | nil => rfl
  | cons c calls ih =>
    obtain ⟨nodeId, level, hearned, heq⟩ := call_of_automatic (s := s) (h c List.mem_cons_self)
    have hsame : (s.call c).trust.assignments = s.trust.assignments := by
      rw [heq]
      exact TrustManager.assignments_earn hearned hfew
    have hmax : (s.call c).trust.maxSize = s.trust.maxSize := by
      rw [heq]
      simp [TrustManager.earn]
    rw [List.foldl_cons, ← hsame]
    exact ih (fun c hc => h c (List.mem_cons_of_mem _ hc)) (by rw [hsame, hmax]; exact hfew)

/-- The operator trusts one peer; two others are seen by a table for two. -/
def crowdedRun : List TrustCall := [.setTrust "operator" .admin, .markSeen "a", .markVerified "b"]

end TrustRun
end Arald
