import Arald.Scenario.Reachability

/-!
# Redundancy and critical dependencies

The score enumerates the single failures of active nodes other than phones, the
table of dependencies those of all active nodes. Both find the devices that
depend on a node, so they agree on every node that is not a phone.
-/

namespace Arald.Scenario

open Foundations

variable (localeCompare : String → String → ℚ) {ctx : ResilienceContext} {v x : String}

theorem kindOf_of_mem {n : ResilienceNodeSpec} (hn : n ∈ ctx.spec.nodes) :
    ctx.kindOf n.id = some n.kind := by
  rw [ResilienceContext.kindOf]
  cases hfind : ctx.spec.nodes.find? fun m => decide (m.id = n.id) with
  | none => exact absurd (decide_eq_true rfl) (List.find?_eq_none.mp hfind n hn)
  | some m =>
    have hm := List.mem_of_find?_eq_some hfind
    have hid : m.id = n.id := by simpa using List.find?_some hfind
    rw [List.inj_on_of_nodup_map ctx.nodup_ids hm hn hid]
    rfl

theorem isPhone_of_mem {n : ResilienceNodeSpec} (hn : n ∈ ctx.spec.nodes) :
    isPhone ctx n.id = decide (n.kind = .phone) := by
  rw [isPhone, kindOf_of_mem hn]
  simp only [Option.some.injEq]

/-! ### The ranking -/

/-- The entry of one node in the ranking. -/
def entryOf (ctx : ResilienceContext) (n : ResilienceNodeSpec) : SingleFailureEntry :=
  singleFailure ctx n (failureReport localeCompare ctx (toSet [n.id]) [] false)

/-- The active nodes that the ranking considers. -/
def rankedNodes (ctx : ResilienceContext) : List ResilienceNodeSpec :=
  ctx.spec.nodes.filter fun n => !(n.inactive || decide (n.kind = .phone))

theorem mapM_ok {α β : Type} {f : α → Except String β} {g : α → β} {l : List α}
    (h : ∀ a ∈ l, f a = .ok (g a)) : l.mapM f = .ok (l.map g) := by
  induction l with
  | nil => rfl
  | cons a l ih =>
    rw [List.mapM_cons, h a List.mem_cons_self, ok_bind,
      ih fun b hb => h b (List.mem_cons_of_mem _ hb), ok_bind]
    rfl

theorem rankSingleFailures_eq (ctx : ResilienceContext) :
    rankSingleFailures localeCompare ctx =
      .ok (((rankedNodes ctx).map (entryOf localeCompare ctx)).insertionSort fun a b =>
        a.compare localeCompare b ≤ 0) := by
  have hall : (rankedNodes ctx).mapM (fun n => do
      let rep ← evaluateFailure localeCompare ctx ⟨some [n.id], none⟩ false
      return singleFailure ctx n rep) = .ok ((rankedNodes ctx).map (entryOf localeCompare ctx)) := by
    refine mapM_ok fun n hn => ?_
    have hknown : ∀ id ∈ [n.id], id ∈ ctx.spec.ids := by
      intro id hid
      rw [List.mem_singleton.mp hid]
      exact List.mem_map_of_mem (List.mem_filter.mp hn).1
    rw [evaluateFailure_nodes localeCompare hknown, ok_bind]
    rfl
  rw [rankSingleFailures]
  change (rankedNodes ctx).mapM _ >>= _ = _
  rw [hall, ok_bind]
  rfl

/-- The devices that the failure of a node cuts off are those that depend on it. -/
theorem mem_cutOff {n : ResilienceNodeSpec} :
    x ∈ (entryOf localeCompare ctx n).cutOff ↔ Depends ctx [] [] n.id x := by
  have hreport : x ∈ (entryOf localeCompare ctx n).cutOff ↔
      (x ∈ notConnected ctx (addTo [] n.id) (computeState ctx (addTo [] n.id) []) ∧
        x ∈ ctx.baseline.connected) ∧ isPhone ctx x = false := by
    change x ∈ (List.filter _ _).filter _ ↔ _
    rw [List.mem_filter, List.mem_filter, decide_eq_true_eq, Bool.not_eq_true']
    rfl
  rw [hreport, mem_notConnected, mem_activeNodes_addTo, lost_iff]
  constructor
  · rintro ⟨⟨⟨⟨-, hne⟩, hthrough⟩, hconnected⟩, hdevice⟩
    exact ⟨hne, hdevice, mem_connected.mp hconnected, hthrough⟩
  · rintro ⟨hne, hdevice, hconnected, hthrough⟩
    have hbase := mem_connected.mpr hconnected
    exact ⟨⟨⟨⟨mem_active_of_connected hbase, hne⟩, hthrough⟩, hbase⟩, hdevice⟩

theorem mem_nonRedundant {single : List SingleFailureEntry} :
    x ∈ nonRedundant single ↔ ∃ f ∈ single, x ∈ f.cutOff ∧ x ≠ f.id := by
  suffices hall : ∀ set : List String, x ∈ single.foldl (fun set f =>
      (f.cutOff.filter fun id => decide (id ≠ f.id)).foldl addTo set) set ↔
        x ∈ set ∨ ∃ f ∈ single, x ∈ f.cutOff ∧ x ≠ f.id by
    rw [nonRedundant, hall, or_iff_right List.not_mem_nil]
  induction single with
  | nil => exact fun set => (or_iff_left fun ⟨f, hf, _⟩ => absurd hf List.not_mem_nil).symm
  | cons f single ih =>
    intro set
    rw [List.foldl_cons, ih, mem_foldl_addTo, List.mem_filter, decide_eq_true_eq,
      List.exists_mem_cons_iff, or_assoc]

theorem mem_ranked_activeNodes : (∃ n ∈ rankedNodes ctx, n.id = v) ↔
    v ∈ activeNodes ctx [] ∧ isPhone ctx v = false := by
  rw [mem_activeNodes]
  constructor
  · rintro ⟨n, hn, rfl⟩
    obtain ⟨hn, hkept⟩ := List.mem_filter.mp hn
    rw [Bool.not_eq_true', Bool.or_eq_false_iff] at hkept
    exact ⟨⟨n, hn, rfl, hkept.1, List.not_mem_nil⟩, (isPhone_of_mem hn).trans hkept.2⟩
  · rintro ⟨⟨n, hn, rfl, hactive, -⟩, hphone⟩
    refine ⟨n, List.mem_filter.mpr ⟨hn, ?_⟩, rfl⟩
    rw [isPhone_of_mem hn] at hphone
    rw [hactive, hphone]
    rfl

theorem mem_rankSingleFailures {single : List SingleFailureEntry} {f : SingleFailureEntry}
    (h : rankSingleFailures localeCompare ctx = .ok single) :
    f ∈ single ↔ ∃ n ∈ rankedNodes ctx, entryOf localeCompare ctx n = f := by
  rw [rankSingleFailures_eq] at h
  rw [← Except.ok.inj h, List.mem_insertionSort, List.mem_map]

/-! ### The score -/

theorem resilienceScore_eq (ctx : ResilienceContext) (sortStrings : List String → List String) (weights : ResilienceWeights) :
    ∃ score, resilienceScore localeCompare ctx sortStrings weights = .ok score ∧
      rankSingleFailures localeCompare ctx = .ok score.singleFailures ∧
      score.components = scoreComponents ctx weights score.singleFailures ∧
      score.criticalNodes = (score.singleFailures.filter SingleFailureEntry.critical).map
        SingleFailureEntry.id := by
  have hrank := rankSingleFailures_eq localeCompare ctx
  generalize List.insertionSort (fun a b : SingleFailureEntry => a.compare localeCompare b ≤ 0)
    ((rankedNodes ctx).map (entryOf localeCompare ctx)) = single at hrank
  rw [resilienceScore, hrank]
  exact ⟨_, rfl, rfl, rfl, rfl⟩

/-- Some ranked failure of another node cuts the device off. -/
theorem nonRedundant_iff {single : List SingleFailureEntry}
    (h : rankSingleFailures localeCompare ctx = .ok single) :
    x ∈ nonRedundant single ↔
      ∃ v ∈ activeNodes ctx [], isPhone ctx v = false ∧ Depends ctx [] [] v x := by
  rw [mem_nonRedundant]
  constructor
  · rintro ⟨f, hf, hcut, -⟩
    obtain ⟨n, hn, rfl⟩ := (mem_rankSingleFailures localeCompare h).mp hf
    obtain ⟨hactive, hphone⟩ := mem_ranked_activeNodes.mp ⟨n, hn, rfl⟩
    exact ⟨n.id, hactive, hphone, (mem_cutOff localeCompare).mp hcut⟩
  · rintro ⟨v, hactive, hphone, hdepends⟩
    obtain ⟨n, hn, rfl⟩ := mem_ranked_activeNodes.mpr ⟨hactive, hphone⟩
    exact ⟨_, (mem_rankSingleFailures localeCompare h).mpr ⟨n, hn, rfl⟩,
      (mem_cutOff localeCompare).mpr hdepends, hdepends.ne⟩

theorem critical_iff {single : List SingleFailureEntry}
    (h : rankSingleFailures localeCompare ctx = .ok single) :
    v ∈ (single.filter SingleFailureEntry.critical).map SingleFailureEntry.id ↔
      (v ∈ activeNodes ctx [] ∧ isPhone ctx v = false) ∧ ∃ x, Depends ctx [] [] v x := by
  rw [List.mem_map]
  constructor
  · rintro ⟨f, hf, rfl⟩
    obtain ⟨hf, hcritical⟩ := List.mem_filter.mp hf
    obtain ⟨n, hn, rfl⟩ := (mem_rankSingleFailures localeCompare h).mp hf
    have hpos : 0 < (entryOf localeCompare ctx n).cutOff.length := of_decide_eq_true hcritical
    obtain ⟨x, hx⟩ := List.exists_mem_of_length_pos hpos
    exact ⟨mem_ranked_activeNodes.mp ⟨n, hn, rfl⟩, x, (mem_cutOff localeCompare).mp hx⟩
  · rintro ⟨hranked, x, hx⟩
    obtain ⟨n, hn, rfl⟩ := mem_ranked_activeNodes.mpr hranked
    refine ⟨entryOf localeCompare ctx n, List.mem_filter.mpr ⟨?_, ?_⟩, rfl⟩
    · exact (mem_rankSingleFailures localeCompare h).mpr ⟨n, hn, rfl⟩
    · exact decide_eq_true (List.length_pos_of_mem ((mem_cutOff localeCompare).mpr hx))

theorem stays_connected_iff (hx : x ∈ ctx.baseline.connected) (hdevice : isPhone ctx x = false)
    (hne : x ≠ v) :
    x ∈ (computeState ctx [v] []).connected ↔ ¬Depends ctx [] [] v x := by
  have hlost : x ∉ (computeState ctx (addTo [] v) []).connected ↔ _ := lost_iff
  change x ∈ (computeState ctx (addTo [] v) []).connected ↔ _
  rw [← not_iff_not, not_not, hlost]
  exact ⟨fun hthrough => ⟨hne, hdevice, mem_connected.mp hx, hthrough⟩, fun h => h.through⟩

theorem mem_baselineConnected {n : ResilienceNodeSpec} (hn : n ∈ baselineConnected ctx) :
    n ∈ ctx.spec.nodes ∧ n.id ∈ ctx.baseline.connected := by
  obtain ⟨hscoring, hconnected⟩ := List.mem_filter.mp hn
  exact ⟨(List.mem_filter.mp hscoring).1, of_decide_eq_true hconnected⟩

/-- Two Boxes reach a Card through one phone. -/
def bridgeContext : ResilienceContext where
  spec :=
    { nodes := [⟨"B1", .box, false⟩, ⟨"B2", .box, false⟩, ⟨"S", .phone, false⟩, ⟨"C", .card, false⟩]
      edges := [⟨"B1", "S", .wifi, 1000, none, none, none, none⟩,
        ⟨"B2", "S", .wifi, 1000, none, none, none, none⟩,
        ⟨"S", "C", .ble, 1000, none, none, none, none⟩]
      atS := none, sinkKinds := none, scoreKinds := none, coverage := none, timeline := none
      positions := none, frame := none, reevaluate := none }
  nodup_ids := by decide
  edges_known := by decide

end Arald.Scenario
