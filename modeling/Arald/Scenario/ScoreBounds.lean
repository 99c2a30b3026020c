import Arald.Scenario.Redundancy

/-!
# The score components are fractions

Covered cells are land cells, arrivals are reported for nodes without a
connection, and a node that a failure cuts off is recovered at most once. So
every component of the score that has a value is a fraction of a whole.
-/

namespace Arald.Scenario

open Foundations

variable (localeCompare : String → String → ℚ) {ctx : ResilienceContext}

/-- A value between none and all of something. -/
def IsFraction (q : ℚ) : Prop := 0 ≤ q ∧ q ≤ 1

theorem isFraction_zero : IsFraction 0 := ⟨le_rfl, zero_le_one⟩

theorem isFraction_div {a b : ℕ} (h : a ≤ b) : IsFraction ((a : ℚ) / b) :=
  ⟨div_nonneg (Nat.cast_nonneg a) (Nat.cast_nonneg b),
    div_le_one_of_le₀ (Nat.cast_le.mpr h) (Nat.cast_nonneg b)⟩

/-! ### Coverage -/

theorem getD_eq_map_range (l : List ℕ) : (List.range l.length).map (fun i => l.getD i 0) = l := by
  refine List.ext_getElem (by simp) fun i hi hi' => ?_
  rw [List.getElem_map, List.getElem_range, List.getD_eq_getElem l 0 hi']

theorem coveredCells_sum_le_land (cov : ResilienceCoverage) (nodes : List String) :
    (coveredCells cov nodes).sum ≤ cov.land.sum := by
  have hcells : (coveredCells cov nodes).sum ≤
      ((List.range cov.land.length).map fun i => cov.land.getD i 0).sum := by
    refine List.sum_le_sum fun i _ => ?_
    split_ifs with hcovers
    · obtain ⟨id, -, hid⟩ := List.any_eq_true.mp hcovers
      rw [coversCell] at hid
      split at hid
      · rw [Bool.and_eq_true, decide_eq_true_eq, decide_eq_true_eq] at hid
        exact Nat.one_le_iff_ne_zero.mpr hid.2
      · cases hid
    · exact Nat.zero_le _
  rwa [getD_eq_map_range] at hcells

theorem coverage_isFraction {st : State} {c : CoverageFractions}
    (h : coverageFractions ctx st = some c) : IsFraction c.connectedFrac ∧ IsFraction c.radioFrac := by
  obtain ⟨cov, -, rfl⟩ := Option.map_eq_some_iff.mp h
  have hfrac : ∀ nodes, IsFraction (if cov.land.sum ≠ 0 then
      ((coveredCells cov nodes).sum : ℚ) / cov.land.sum else 0) := by
    intro nodes
    split_ifs
    · exact isFraction_div (coveredCells_sum_le_land cov nodes)
    · exact isFraction_zero
  exact ⟨hfrac _, hfrac _⟩

/-! ### Arrivals -/

theorem nodup_ids_filter (ctx : ResilienceContext) (p : ResilienceNodeSpec → Bool) :
    ((ctx.spec.nodes.filter p).map ResilienceNodeSpec.id).Nodup :=
  ctx.nodup_ids.sublist (List.filter_sublist.map _)

/-- At most one arrival for each source. -/
theorem size_arrivals_le (ctx : ResilienceContext) (failed : List String)
    (areas : List ResolvedArea) (sources : List String) :
    (opportunisticArrivals ctx failed areas sources).size ≤ sources.length := by
  rw [← OrderedMap.length_keys]
  exact ((OrderedMap.nodup_keys _).subperm fun src hsrc =>
    arrivals_sources ctx failed areas sources src hsrc).length_le

theorem reachable_isFraction {q : ℚ} (h : reachable ctx = some q) : IsFraction q := by
  rw [reachable] at h
  split_ifs at h
  obtain rfl := Option.some.inj h
  have hsize := size_arrivals_le ctx [] []
    (((scoringNodes ctx).filter fun n => !decide (n.id ∈ ctx.baseline.connected)).map
      ResilienceNodeSpec.id)
  rw [List.length_map] at hsize
  have hsplit := List.length_eq_length_filter_add (l := scoringNodes ctx)
    fun n => decide (n.id ∈ ctx.baseline.connected)
  have hle : (baselineConnected ctx).length + (opportunisticArrivals ctx [] []
      (((scoringNodes ctx).filter fun n => !decide (n.id ∈ ctx.baseline.connected)).map
        ResilienceNodeSpec.id)).size ≤ (scoringNodes ctx).length := by
    rw [hsplit]
    exact Nat.add_le_add_left hsize _
  have hfrac := isFraction_div hle
  rwa [Nat.cast_add] at hfrac

/-- What a report calls recoverable are the arrivals. -/
theorem nodup_recoverable (before : State) (arrivals : OrderedMap String ℚ) :
    ((recoverableOf localeCompare before arrivals).map RecoverableNode.id).Nodup := by
  have hperm := (List.perm_insertionSort (fun a b : RecoverableNode => a.compare localeCompare b ≤ 0)
    (arrivals.entries.map fun e => ⟨e.1, e.2, decide (e.1 ∈ before.connected)⟩)).map
      RecoverableNode.id
  refine hperm.nodup_iff.mpr ?_
  rw [List.map_map]
  exact arrivals.nodup

theorem mem_recoverable {before : State} {arrivals : OrderedMap String ℚ} {r : RecoverableNode}
    (h : r ∈ recoverableOf localeCompare before arrivals) :
    arrivals.get? r.id = some r.arrivalS ∧ r.newlyCutOff = decide (r.id ∈ before.connected) := by
  obtain ⟨e, he, rfl⟩ := List.mem_map.mp (List.mem_insertionSort _ |>.mp h)
  exact ⟨OrderedMap.get?_eq_some.mpr he, rfl⟩

/-! ### Recovery after single failures -/

/-- What a failure cuts off and can be recovered, it cuts off. -/
theorem recoverable_sub_cutOff (n : ResilienceNodeSpec) :
    (entryOf localeCompare ctx n).recoverable ⊆ (entryOf localeCompare ctx n).cutOff := by
  intro x hx
  obtain ⟨r, hr, rfl⟩ := List.mem_map.mp hx
  obtain ⟨hr, hkept⟩ := List.mem_filter.mp hr
  obtain ⟨hget, hnew⟩ := mem_recoverable localeCompare hr
  rw [Bool.and_eq_true, hnew] at hkept
  have hsource := arrivals_sources _ _ _ _ _ (OrderedMap.mem_keys_of_get? hget)
  exact List.mem_filter.mpr ⟨List.mem_filter.mpr ⟨hsource, hkept.1⟩, hkept.2⟩

theorem nodup_entry_recoverable (n : ResilienceNodeSpec) :
    (entryOf localeCompare ctx n).recoverable.Nodup :=
  (nodup_recoverable localeCompare _ _).sublist (List.filter_sublist.map _)

theorem recTotal_le_cutTotal {single : List SingleFailureEntry}
    (h : rankSingleFailures localeCompare ctx = .ok single) :
    recTotal ctx single ≤ cutTotal ctx single := by
  refine List.sum_le_sum fun f hf => ?_
  obtain ⟨n, -, rfl⟩ := (mem_rankSingleFailures localeCompare h).mp hf
  refine List.Subperm.length_le (List.Nodup.subperm ?_ fun x hx => ?_)
  · exact (nodup_entry_recoverable localeCompare n).filter _
  · obtain ⟨hx, hscoring⟩ := List.mem_filter.mp hx
    exact List.mem_filter.mpr ⟨recoverable_sub_cutOff localeCompare n hx, hscoring⟩

/-! ### The components -/

theorem redundancy_isFraction {single : List SingleFailureEntry} {q : ℚ}
    (h : redundancy ctx single = some q) : IsFraction q := by
  rw [redundancy] at h
  split_ifs at h
  · obtain rfl := Option.some.inj h
    exact isFraction_div (List.length_filter_le _ _)
  · obtain rfl := Option.some.inj h
    exact isFraction_zero

theorem coverageLoss_nonneg (n : ResilienceNodeSpec) (rep : FailureReport) :
    0 ≤ (singleFailure ctx n rep).coverageLoss := by
  cases hcoverage : rep.coverage with
  | none => simp only [singleFailure, hcoverage, le_refl]
  | some c =>
    simp only [singleFailure, hcoverage]
    exact le_max_left _ _

theorem foldl_add_eq {α : Type*} (f : α → ℚ) (l : List α) (s : ℚ) :
    l.foldl (fun s a => s + f a) s = s + (l.map f).sum := by
  induction l generalizing s with
  | nil => exact (add_zero s).symm
  | cons a l ih => rw [List.foldl_cons, ih, List.map_cons, List.sum_cons, add_assoc]

/-- The mean of fractions is a fraction. -/
theorem isFraction_mean {α : Type*} {f : α → ℚ} {l : List α} (h : ∀ a ∈ l, IsFraction (f a)) :
    IsFraction ((l.map f).sum / l.length) := by
  constructor
  · refine div_nonneg (List.sum_nonneg fun q hq => ?_) (Nat.cast_nonneg _)
    obtain ⟨a, ha, rfl⟩ := List.mem_map.mp hq
    exact (h a ha).1
  · refine div_le_one_of_le₀ ?_ (Nat.cast_nonneg _)
    have hle := List.sum_le_card_nsmul (l.map f) 1 fun q hq => by
      obtain ⟨a, ha, rfl⟩ := List.mem_map.mp hq
      exact (h a ha).2
    rwa [List.length_map, nsmul_one] at hle

theorem coverageUnderFailure_isFraction {single : List SingleFailureEntry} {q : ℚ}
    (hrank : rankSingleFailures localeCompare ctx = .ok single)
    (h : coverageUnderFailure ctx single = some q) : IsFraction q := by
  obtain ⟨c, hc, rfl⟩ := Option.map_eq_some_iff.mp h
  obtain ⟨hfrac, -⟩ := coverage_isFraction hc
  split_ifs
  · rw [foldl_add_eq fun f : SingleFailureEntry => max 0 (c.connectedFrac - f.coverageLoss), zero_add]
    refine isFraction_mean fun f hf => ⟨le_max_left _ _, max_le zero_le_one ?_⟩
    obtain ⟨n, -, rfl⟩ := (mem_rankSingleFailures localeCompare hrank).mp hf
    exact (sub_le_self _ (coverageLoss_nonneg n _)).trans hfrac.2
  · exact hfrac

theorem component_isFraction {single : List SingleFailureEntry} {weights : ResilienceWeights}
    (hrank : rankSingleFailures localeCompare ctx = .ok single) {c : ScoreComponent}
    (hc : c ∈ scoreComponents ctx weights single) {q : ℚ} (hq : c.value = some q) :
    IsFraction q := by
  simp only [scoreComponents, List.mem_cons, List.not_mem_nil, or_false] at hc
  rcases hc with rfl | rfl | rfl | rfl | rfl | rfl
  · obtain ⟨cov, hcov, rfl⟩ := Option.map_eq_some_iff.mp hq
    exact (coverage_isFraction hcov).1
  · dsimp only at hq
    split_ifs at hq
    obtain rfl := Option.some.inj hq
    exact isFraction_div (List.length_filter_le _ _)
  · exact reachable_isFraction hq
  · exact redundancy_isFraction hq
  · exact coverageUnderFailure_isFraction localeCompare hrank hq
  · dsimp only at hq
    split_ifs at hq
    obtain rfl := Option.some.inj hq
    exact isFraction_div (recTotal_le_cutTotal localeCompare hrank)

end Arald.Scenario
