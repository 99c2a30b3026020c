import Arald.Scenario.Arrivals

/-!
# Failure analysis and reachability

The report of a failure against the residual graph: connected nodes, hops,
fragments, statuses, and the dependencies of the residual network, which the
source finds by removing each active node in turn.
-/

namespace Arald.Scenario

open Foundations

variable {ctx : ResilienceContext} {failed : List String} {areas : List ResolvedArea}
  {u v x : String}

/-- The active nodes and the edges between them that survive the areas. -/
def residualGraph (ctx : ResilienceContext) (failed : List String) (areas : List ResolvedArea) :
    SimpleGraph String where
  Adj u v := u ≠ v ∧ ∃ e ∈ ctx.spec.edges,
    (e.a ∈ activeNodes ctx failed ∧ e.b ∈ activeNodes ctx failed) ∧
      survives ctx areas (ctx.spec.atS.getD 0) e = true ∧ Joins e u v
  symm := ⟨fun _ _ h =>
    ⟨h.1.symm, h.2.imp fun _ he => ⟨he.1, he.2.1, he.2.2.1, joins_comm.mp he.2.2.2⟩⟩⟩
  loopless := ⟨fun _ h => h.1 rfl⟩

def ActiveSink (ctx : ResilienceContext) (failed : List String) (s : String) : Prop :=
  s ∈ activeNodes ctx failed ∧ isSink ctx s = true

/-- `x` is connected, and every path from it to an active sink passes through another node `v`. -/
structure Depends (ctx : ResilienceContext) (failed : List String) (areas : List ResolvedArea)
    (v x : String) : Prop where
  ne : x ≠ v
  device : isPhone ctx x = false
  connected : ∃ s, ActiveSink ctx failed s ∧ (residualGraph ctx failed areas).Reachable x s
  through : ∀ s, ActiveSink ctx failed s → ∀ p : (residualGraph ctx failed areas).Walk x s,
    v ∈ p.support

def survivingEdges (ctx : ResilienceContext) (failed : List String) (areas : List ResolvedArea) :
    List ResilienceEdge :=
  filterEdges ctx ctx.spec.edges (ctx.spec.atS.getD 0) (activeNodes ctx failed) areas

theorem linkGraph_survivingEdges (ctx : ResilienceContext) (failed : List String)
    (areas : List ResolvedArea) :
    linkGraph (survivingEdges ctx failed areas) = residualGraph ctx failed areas := by
  ext u v
  refine and_congr_right fun _ => exists_congr fun e => ?_
  rw [survivingEdges, mem_filterEdges, and_assoc, and_assoc]

theorem survivingEdges_within (ctx : ResilienceContext) (failed : List String)
    (areas : List ResolvedArea) :
    Within (survivingEdges ctx failed areas) (activeNodes ctx failed) :=
  filterEdges_within _ _ _ _ _

theorem mem_connected : v ∈ (computeState ctx failed areas).connected ↔
    ∃ s, ActiveSink ctx failed s ∧ (residualGraph ctx failed areas).Reachable v s := by
  rw [← linkGraph_survivingEdges]
  exact mem_connected_iff (nodup_activeNodes ctx failed) (survivingEdges_within ctx failed areas)

theorem hops_iff {d : ℕ} : (computeState ctx failed areas).hops.get? v = some d ↔
    ShortestTo (residualGraph ctx failed areas) (ActiveSink ctx failed) v d := by
  rw [← linkGraph_survivingEdges]
  exact get?_hops_iff (nodup_activeNodes ctx failed) (survivingEdges_within ctx failed areas)

theorem fragments_computeState : (computeState ctx failed areas).fragments =
    componentCount (residualGraph ctx failed areas) (activeNodes ctx failed) := by
  rw [← linkGraph_survivingEdges]
  exact fragments_eq ((survivingEdges_within ctx failed areas).mono (activeNodes_subset ctx failed))
    (activeNodes_subset ctx failed)

theorem mem_active_of_connected (h : v ∈ (computeState ctx failed areas).connected) :
    v ∈ activeNodes ctx failed := by
  obtain ⟨s, hs, hr⟩ := mem_connected.mp h
  rw [← linkGraph_survivingEdges] at hr
  exact (survivingEdges_within ctx failed areas).mem_of_reachable hs.1 hr.symm

/-! ### One more failed node -/

theorem mem_activeNodes : v ∈ activeNodes ctx failed ↔
    ∃ n ∈ ctx.spec.nodes, n.id = v ∧ n.inactive = false ∧ v ∉ failed := by
  rw [activeNodes, List.mem_map]
  refine exists_congr fun n => ?_
  rw [List.mem_filter, Bool.and_eq_true, Bool.not_eq_true', Bool.not_eq_true', decide_eq_false_iff_not]
  constructor
  · rintro ⟨⟨hn, hactive, hfailed⟩, rfl⟩
    exact ⟨hn, rfl, hactive, hfailed⟩
  · rintro ⟨hn, rfl, hactive, hfailed⟩
    exact ⟨⟨hn, hactive, hfailed⟩, rfl⟩

theorem mem_activeNodes_addTo : u ∈ activeNodes ctx (addTo failed v) ↔
    u ∈ activeNodes ctx failed ∧ u ≠ v := by
  rw [mem_activeNodes, mem_activeNodes]
  simp only [mem_addTo, not_or]
  constructor
  · rintro ⟨n, hn, rfl, hactive, hfailed, hne⟩
    exact ⟨⟨n, hn, rfl, hactive, hfailed⟩, hne⟩
  · rintro ⟨⟨n, hn, rfl, hactive, hfailed⟩, hne⟩
    exact ⟨n, hn, rfl, hactive, hfailed, hne⟩

/-- Failing `v` leaves the edges that do not touch it. -/
theorem residualGraph_addTo_adj : (residualGraph ctx (addTo failed v) areas).Adj u x ↔
    (residualGraph ctx failed areas).Adj u x ∧ u ≠ v ∧ x ≠ v := by
  constructor
  · rintro ⟨hne, e, he, ⟨ha, hb⟩, hsurvives, hj⟩
    rw [mem_activeNodes_addTo] at ha hb
    refine ⟨⟨hne, e, he, ⟨ha.1, hb.1⟩, hsurvives, hj⟩, ?_⟩
    rcases hj with ⟨rfl, rfl⟩ | ⟨rfl, rfl⟩
    · exact ⟨ha.2, hb.2⟩
    · exact ⟨hb.2, ha.2⟩
  · rintro ⟨⟨hne, e, he, ⟨ha, hb⟩, hsurvives, hj⟩, hu, hx⟩
    refine ⟨hne, e, he, ⟨mem_activeNodes_addTo.mpr ⟨ha, ?_⟩, mem_activeNodes_addTo.mpr ⟨hb, ?_⟩⟩,
      hsurvives, hj⟩
    · rcases hj with ⟨rfl, -⟩ | ⟨rfl, -⟩
      · exact hu
      · exact hx
    · rcases hj with ⟨-, rfl⟩ | ⟨-, rfl⟩
      · exact hx
      · exact hu

theorem activeSink_addTo {s : String} : ActiveSink ctx (addTo failed v) s ↔
    ActiveSink ctx failed s ∧ s ≠ v := by
  rw [ActiveSink, mem_activeNodes_addTo, ActiveSink, and_right_comm]

/-- Walks that avoid `v` are the walks of the graph without it. -/
theorem exists_walk_avoiding_iff {s : String} (hs : s ≠ v) :
    (residualGraph ctx (addTo failed v) areas).Reachable x s ↔
      ∃ p : (residualGraph ctx failed areas).Walk x s, v ∉ p.support := by
  constructor
  · rintro ⟨p⟩
    induction p with
    | nil => exact ⟨.nil, fun hv => hs (List.mem_singleton.mp hv).symm⟩
    | cons hadj p ih =>
      obtain ⟨hadj, hu, -⟩ := residualGraph_addTo_adj.mp hadj
      obtain ⟨q, hq⟩ := ih hs
      refine ⟨.cons hadj q, fun hv => ?_⟩
      rw [SimpleGraph.Walk.support_cons] at hv
      exact (List.mem_cons.mp hv).elim (fun heq => hu heq.symm) hq
  · rintro ⟨p, hp⟩
    induction p with
    | nil => exact .refl _
    | cons hadj p ih =>
      rw [SimpleGraph.Walk.support_cons, List.mem_cons, not_or] at hp
      have hnext : _ ≠ v := fun heq => hp.2 (heq ▸ p.start_mem_support)
      have hstep := residualGraph_addTo_adj.mpr ⟨hadj, Ne.symm hp.1, hnext⟩
      exact hstep.reachable.trans (ih hs hp.2)

/-- Who loses its connection when `v` fails. -/
theorem lost_iff : x ∉ (computeState ctx (addTo failed v) areas).connected ↔
    ∀ s, ActiveSink ctx failed s → ∀ p : (residualGraph ctx failed areas).Walk x s,
      v ∈ p.support := by
  rw [mem_connected, not_exists]
  refine forall_congr' fun s => ?_
  rw [activeSink_addTo]
  constructor
  · intro hno hs p
    by_contra hv
    have hsv : s ≠ v := fun heq => hv (heq ▸ p.end_mem_support)
    exact hno ⟨⟨hs, hsv⟩, (exists_walk_avoiding_iff hsv).mpr ⟨p, hv⟩⟩
  · rintro hall ⟨⟨hs, hsv⟩, hr⟩
    obtain ⟨p, hp⟩ := (exists_walk_avoiding_iff hsv).mp hr
    exact hp (hall hs p)

/-! ### Dependencies -/

/-- The devices that the failure of `v` disconnects. -/
def dependentsOf (ctx : ResilienceContext) (failed : List String) (areas : List ResolvedArea)
    (v : String) : List String :=
  ((computeState ctx failed areas).connected.filter fun x => decide (x ≠ v) &&
    !decide (x ∈ (computeState ctx (addTo failed v) areas).connected)).filter fun x => !isPhone ctx x

theorem mem_dependentsOf : x ∈ dependentsOf ctx failed areas v ↔ Depends ctx failed areas v x := by
  rw [dependentsOf, List.mem_filter, List.mem_filter, Bool.and_eq_true, Bool.not_eq_true',
    Bool.not_eq_true', decide_eq_true_eq, decide_eq_false_iff_not, lost_iff, mem_connected]
  constructor
  · rintro ⟨⟨hconnected, hne, hthrough⟩, hdevice⟩
    exact ⟨hne, hdevice, hconnected, hthrough⟩
  · rintro ⟨hne, hdevice, hconnected, hthrough⟩
    exact ⟨⟨hconnected, hne, hthrough⟩, hdevice⟩

theorem dependencyOn_eq_some {d : Dependency}
    (h : dependencyOn ctx failed areas (computeState ctx failed areas) v = some d) :
    d.id = v ∧ d.dependents = dependentsOf ctx failed areas v ∧
      0 < (dependentsOf ctx failed areas v).length := by
  rw [dependencyOn] at h
  split_ifs at h with hpos
  obtain rfl := Option.some.inj h
  exact ⟨rfl, rfl, hpos⟩

theorem dependencyOn_isSome (h : 0 < (dependentsOf ctx failed areas v).length) :
    ∃ d, dependencyOn ctx failed areas (computeState ctx failed areas) v = some d :=
  ⟨_, if_pos h⟩

variable (localeCompare : String → String → ℚ)

theorem mem_dependenciesOf {d : Dependency} :
    d ∈ dependenciesOf localeCompare ctx failed areas (computeState ctx failed areas) ↔
      ∃ v ∈ activeNodes ctx failed,
        dependencyOn ctx failed areas (computeState ctx failed areas) v = some d := by
  rw [dependenciesOf, List.mem_insertionSort, List.mem_filterMap]
  rfl

/-- The reported dependents of a node are those that depend on it. -/
theorem dependents_of_mem {d : Dependency}
    (h : d ∈ dependenciesOf localeCompare ctx failed areas (computeState ctx failed areas)) :
    d.id ∈ activeNodes ctx failed ∧ ∀ x, x ∈ d.dependents ↔ Depends ctx failed areas d.id x := by
  obtain ⟨v, hv, hsome⟩ := (mem_dependenciesOf localeCompare).mp h
  obtain ⟨hid, hdependents, -⟩ := dependencyOn_eq_some hsome
  rw [hid, hdependents]
  exact ⟨hv, fun x => mem_dependentsOf⟩

theorem listed_iff (hv : v ∈ activeNodes ctx failed) :
    (∃ d ∈ dependenciesOf localeCompare ctx failed areas (computeState ctx failed areas),
      d.id = v) ↔ ∃ x, Depends ctx failed areas v x := by
  constructor
  · rintro ⟨d, hd, rfl⟩
    obtain ⟨w, -, hsome⟩ := (mem_dependenciesOf localeCompare).mp hd
    obtain ⟨hid, -, hpos⟩ := dependencyOn_eq_some hsome
    obtain ⟨x, hx⟩ := List.exists_mem_of_length_pos hpos
    exact ⟨x, hid ▸ mem_dependentsOf.mp hx⟩
  · rintro ⟨x, hx⟩
    obtain ⟨d, hd⟩ := dependencyOn_isSome (List.length_pos_of_mem (mem_dependentsOf.mpr hx))
    exact ⟨d, (mem_dependenciesOf localeCompare).mpr ⟨v, hv, hd⟩, (dependencyOn_eq_some hd).1⟩

/-! ### Statuses -/

theorem get?_assignState {states : OrderedMap String NodeStatus} {id : String} {status : NodeStatus}
    (k : String) : (assignState states id status).get? k =
      if k = id ∧ id ≠ "__proto__" then some status else states.get? k := by
  rw [assignState]
  by_cases hproto : id = "__proto__"
  · rw [if_pos hproto, if_neg fun h => h.2 hproto]
  · rw [if_neg hproto, OrderedMap.get?_set]
    by_cases hk : k = id
    · rw [if_pos hk, if_pos ⟨hk, hproto⟩]
    · rw [if_neg hk, if_neg fun h => hk h.1]

/-- The statuses before arrivals: those of the nodes, but for the name that objects reserve. -/
theorem get?_statuses (after : State) {nodes : List ResilienceNodeSpec}
    (hnodup : (nodes.map ResilienceNodeSpec.id).Nodup) {states : OrderedMap String NodeStatus} :
    ∀ n ∈ nodes, (nodes.foldl (fun states n =>
      assignState states n.id (statusOf failed after n)) states).get? n.id =
        if n.id = "__proto__" then states.get? n.id else some (statusOf failed after n) := by
  induction nodes generalizing states with
  | nil => exact fun n hn => absurd hn List.not_mem_nil
  | cons m nodes ih =>
    rw [List.map_cons, List.nodup_cons] at hnodup
    intro n hn
    rw [List.foldl_cons]
    rcases List.mem_cons.mp hn with rfl | hn
    · have hkept : ∀ (rest : List ResilienceNodeSpec) (states : OrderedMap String NodeStatus),
          n.id ∉ rest.map ResilienceNodeSpec.id → (rest.foldl (fun states n =>
            assignState states n.id (statusOf failed after n)) states).get? n.id =
              states.get? n.id := by
        intro rest
        induction rest with
        | nil => exact fun _ _ => rfl
        | cons r rest ihr =>
          intro states hnot
          rw [List.map_cons, List.mem_cons, not_or] at hnot
          rw [List.foldl_cons, ihr _ hnot.2, get?_assignState, if_neg fun h => hnot.1 h.1]
      rw [hkept nodes _ hnodup.1, get?_assignState]
      by_cases hproto : n.id = "__proto__"
      · rw [if_pos hproto, if_neg fun h => h.2 hproto]
      · rw [if_neg hproto, if_pos ⟨rfl, hproto⟩]
    · have hne : n.id ≠ m.id := fun heq => hnodup.1 (heq ▸ List.mem_map_of_mem hn)
      have hkeep : (assignState states m.id (statusOf failed after m)).get? n.id =
          states.get? n.id := by
        rw [get?_assignState, if_neg fun h => hne h.1]
      rw [ih hnodup.2 n hn, hkeep]

/-- Arrivals overwrite the status of the nodes they are reported for. -/
theorem get?_recoverable (arrivals : List (String × ℚ)) {states : OrderedMap String NodeStatus}
    (k : String) : (arrivals.foldl (fun states e =>
      assignState states e.1 .recoverable) states).get? k =
        if k ∈ arrivals.map Prod.fst ∧ k ≠ "__proto__" then some .recoverable
        else states.get? k := by
  induction arrivals generalizing states with
  | nil => exact (if_neg fun h => absurd h.1 List.not_mem_nil).symm
  | cons e arrivals ih =>
    rw [List.foldl_cons, ih, get?_assignState, List.map_cons]
    by_cases hproto : k = "__proto__"
    · rw [if_neg fun h => h.2 hproto, if_neg fun h => h.2 (h.1 ▸ hproto),
        if_neg fun h => h.2 hproto]
    · by_cases hrest : k ∈ arrivals.map Prod.fst
      · rw [if_pos ⟨hrest, hproto⟩, if_pos ⟨List.mem_cons_of_mem _ hrest, hproto⟩]
      · rw [if_neg fun h => hrest h.1]
        by_cases hk : k = e.1
        · rw [if_pos ⟨hk, hk ▸ hproto⟩, if_pos ⟨hk ▸ List.mem_cons_self, hproto⟩]
        · rw [if_neg fun h => hk h.1, if_neg fun h => (List.mem_cons.mp h.1).elim hk hrest]

/-! ### The report -/

/-- What a report says about connections, hops, fragments, statuses and dependencies is true of the
residual graph. -/
structure TrueReachability (ctx : ResilienceContext) (failed : List String)
    (areas : List ResolvedArea) (rep : FailureReport) : Prop where
  connected : ∀ v ∈ activeNodes ctx failed, rep.states.get? v = some .connected ↔
    ∃ s, ActiveSink ctx failed s ∧ (residualGraph ctx failed areas).Reachable v s
  hops : ∀ v d, (computeState ctx failed areas).hops.get? v = some d ↔
    ShortestTo (residualGraph ctx failed areas) (ActiveSink ctx failed) v d
  rerouted : ∀ r ∈ rep.rerouted,
    ShortestTo (residualGraph ctx [] []) (ActiveSink ctx []) r.id r.hopsBefore ∧
      ShortestTo (residualGraph ctx failed areas) (ActiveSink ctx failed) r.id r.hopsAfter
  fragments : rep.fragmentsAfter =
    componentCount (residualGraph ctx failed areas) (activeNodes ctx failed)
  status : ∀ v ∈ ctx.spec.ids, ∃! status, (v, status) ∈ rep.states.entries
  dependents : ∀ d ∈ rep.dependencies,
    d.id ∈ activeNodes ctx failed ∧ ∀ x, x ∈ d.dependents ↔ Depends ctx failed areas d.id x
  listed : ∀ v ∈ activeNodes ctx failed,
    (∃ d ∈ rep.dependencies, d.id = v) ↔ ∃ x, Depends ctx failed areas v x

theorem mem_notConnected {after : State} : v ∈ notConnected ctx failed after ↔
    v ∈ activeNodes ctx failed ∧ v ∉ after.connected := by
  rw [mem_activeNodes, notConnected, List.mem_map]
  constructor
  · rintro ⟨n, hn, rfl⟩
    obtain ⟨hn, hkept⟩ := List.mem_filter.mp hn
    simp only [Bool.and_eq_true, Bool.not_eq_true', decide_eq_false_iff_not] at hkept
    exact ⟨⟨n, hn, rfl, hkept.1.2, hkept.1.1⟩, hkept.2⟩
  · rintro ⟨⟨n, hn, rfl, hactive, hfailed⟩, hconnected⟩
    refine ⟨n, List.mem_filter.mpr ⟨hn, ?_⟩, rfl⟩
    simp only [Bool.and_eq_true, Bool.not_eq_true', decide_eq_false_iff_not]
    exact ⟨⟨hfailed, hactive⟩, hconnected⟩

theorem statusOf_eq_connected {after : State} {n : ResilienceNodeSpec}
    (hactive : n.inactive = false) (hfailed : n.id ∉ failed) :
    statusOf failed after n = .connected ↔ n.id ∈ after.connected := by
  rw [statusOf, if_neg hfailed, if_neg (Bool.eq_false_iff.mp hactive)]
  split_ifs with hconnected hdegree
  · exact iff_of_true rfl hconnected
  · exact iff_of_false not_false hconnected
  · exact iff_of_false not_false hconnected

/-- The statuses of a report, for a node of any other name. -/
theorem get?_states (failed : List String) (areas : List ResolvedArea) (dependencies : Bool)
    {n : ResilienceNodeSpec} (hn : n ∈ ctx.spec.nodes) :
    (failureReport localeCompare ctx failed areas dependencies).states.get? n.id =
      if n.id = "__proto__" then none
      else if n.id ∈ (opportunisticArrivals ctx failed areas
          (notConnected ctx failed (computeState ctx failed areas))).keys then some .recoverable
      else some (statusOf failed (computeState ctx failed areas) n) := by
  change ((OrderedMap.entries _).foldl (fun states e =>
    assignState states e.1 .recoverable) (ctx.spec.nodes.foldl (fun states n =>
      assignState states n.id (statusOf failed (computeState ctx failed areas) n)) .empty)).get? _ = _
  rw [get?_recoverable, get?_statuses _ ctx.nodup_ids n hn]
  by_cases hproto : n.id = "__proto__"
  · rw [if_pos hproto, if_pos hproto, if_neg fun h => h.2 hproto]
    rfl
  · rw [if_neg hproto, if_neg hproto]
    by_cases harrival : n.id ∈ (opportunisticArrivals ctx failed areas
        (notConnected ctx failed (computeState ctx failed areas))).keys
    · rw [if_pos harrival]
      exact if_pos ⟨harrival, hproto⟩
    · rw [if_neg harrival]
      exact if_neg fun h => harrival h.1

theorem mem_rerouted {before after : State} {r : ReroutedNode}
    (h : r ∈ reroutedOf localeCompare failed before after) :
    before.hops.get? r.id = some r.hopsBefore ∧ after.hops.get? r.id = some r.hopsAfter := by
  rw [reroutedOf, List.mem_insertionSort, List.mem_filterMap] at h
  obtain ⟨id, -, hsome⟩ := h
  cases hb : before.hops.get? id with
  | none => rw [hb] at hsome; cases hsome
  | some b =>
    cases ha : after.hops.get? id with
    | none => rw [hb, ha] at hsome; cases hsome
    | some a =>
      rw [hb, ha] at hsome
      dsimp only at hsome
      split_ifs at hsome
      obtain rfl := Option.some.inj hsome
      exact ⟨hb, ha⟩

/-- Reports are true when no node has the reserved name; a node of that name has no status. -/
theorem trueReachability_iff (failed : List String) (areas : List ResolvedArea) :
    TrueReachability ctx failed areas (failureReport localeCompare ctx failed areas true) ↔
      "__proto__" ∉ ctx.spec.ids := by
  constructor
  · intro htrue hmem
    obtain ⟨status, hstatus, -⟩ := htrue.status _ hmem
    obtain ⟨n, hn, hid⟩ := List.mem_map.mp hmem
    rw [← OrderedMap.get?_eq_some, ← hid, get?_states localeCompare failed areas true hn,
      if_pos hid] at hstatus
    cases hstatus
  · intro hproto
    have hname : ∀ n ∈ ctx.spec.nodes, n.id ≠ "__proto__" := fun n hn heq =>
      hproto (heq ▸ List.mem_map_of_mem hn)
    refine ⟨fun v hv => ?_, fun v d => hops_iff, fun r hr => ?_, fragments_computeState,
      fun v hv => ?_, fun d hd => dependents_of_mem localeCompare hd,
      fun v hv => listed_iff localeCompare hv⟩
    · obtain ⟨n, hn, rfl, hactive, hfailed⟩ := mem_activeNodes.mp hv
      rw [get?_states localeCompare failed areas true hn, if_neg (hname n hn), ← mem_connected]
      split_ifs with harrival
      · have hnot := (mem_notConnected.mp (arrivals_sources _ _ _ _ _ harrival)).2
        refine iff_of_false (fun h => ?_) hnot
        cases h
      · rw [Option.some.injEq, statusOf_eq_connected hactive hfailed]
    · obtain ⟨hbefore, hafter⟩ := mem_rerouted localeCompare hr
      exact ⟨hops_iff.mp hbefore, hops_iff.mp hafter⟩
    · obtain ⟨n, hn, rfl⟩ := List.mem_map.mp hv
      have hget := get?_states localeCompare failed areas true hn
      rw [if_neg (hname n hn), ← apply_ite some] at hget
      refine ⟨_, OrderedMap.get?_eq_some.mp hget, fun status hstatus => ?_⟩
      exact (OrderedMap.eq_of_mem_entries (OrderedMap.get?_eq_some.mp hget) hstatus).symm

/-- A failure of known nodes is always evaluated. -/
theorem failNodes_known {nodes : List String} (h : ∀ id ∈ nodes, id ∈ ctx.spec.ids)
    (set : List String) : nodes.foldlM (failNode ctx) set = .ok (nodes.foldl addTo set) := by
  induction nodes generalizing set with
  | nil => rfl
  | cons id nodes ih =>
    rw [List.foldlM_cons, failNode, if_pos (h id List.mem_cons_self), ok_bind]
    exact ih (fun id' hid' => h id' (List.mem_cons_of_mem _ hid')) _

theorem evaluateFailure_nodes {nodes : List String} (h : ∀ id ∈ nodes, id ∈ ctx.spec.ids)
    (dependencies : Bool) :
    evaluateFailure localeCompare ctx ⟨some nodes, none⟩ dependencies =
      .ok (failureReport localeCompare ctx (toSet nodes) [] dependencies) := by
  have hfailed : resolveFailed ctx ⟨some nodes, none⟩ [] = .ok (toSet nodes) := by
    rw [resolveFailed, Option.getD_some, failNodes_known h]
    rfl
  have hareas : resolveAreas ctx none = .ok [] := rfl
  rw [evaluateFailure, hareas, ok_bind, hfailed]
  rfl

theorem evaluateFailure_eq_ok {spec : FailureSpec} {dependencies : Bool} {rep : FailureReport}
    (h : evaluateFailure localeCompare ctx spec dependencies = .ok rep) :
    ∃ areas, resolveAreas ctx spec.areas = .ok areas ∧
      rep = failureReport localeCompare ctx rep.failed areas dependencies := by
  rw [evaluateFailure] at h
  cases hareas : resolveAreas ctx spec.areas with
  | error e => rw [hareas] at h; cases h
  | ok areas =>
    rw [hareas, ok_bind] at h
    cases hfailed : resolveFailed ctx spec areas with
    | error e => rw [hfailed] at h; cases h
    | ok failed =>
      rw [hfailed, ok_bind] at h
      obtain rfl := Except.ok.inj h
      exact ⟨areas, rfl, rfl⟩

/-- Every failure of known nodes has a report, and a report is true exactly when no node has the
name that objects reserve. -/
theorem failure_reports_true_iff (ctx : ResilienceContext) :
    (∀ nodes : List String, (∀ id ∈ nodes, id ∈ ctx.spec.ids) →
      ∃ rep, evaluateFailure localeCompare ctx ⟨some nodes, none⟩ true = .ok rep ∧
        ∀ id, id ∈ rep.failed ↔ id ∈ nodes) ∧
      ∀ spec rep, evaluateFailure localeCompare ctx spec true = .ok rep →
        ∃ areas, resolveAreas ctx spec.areas = .ok areas ∧
          (TrueReachability ctx rep.failed areas rep ↔ "__proto__" ∉ ctx.spec.ids) := by
  refine ⟨fun nodes hknown => ⟨_, evaluateFailure_nodes localeCompare hknown true, fun id => mem_toSet⟩,
    fun spec rep hrep => ?_⟩
  obtain ⟨areas, hareas, heq⟩ := evaluateFailure_eq_ok localeCompare hrep
  refine ⟨areas, hareas, ?_⟩
  rw [heq]
  exact trueReachability_iff localeCompare _ areas

/-- One Box, whose name objects reserve. -/
def reservedContext : ResilienceContext where
  spec :=
    { nodes := [⟨"__proto__", .box, false⟩], edges := [], atS := none, sinkKinds := none
      scoreKinds := none, coverage := none, timeline := none, positions := none, frame := none
      reevaluate := none }
  nodup_ids := by decide
  edges_known := fun e he => absurd he List.not_mem_nil

/-- It is active and connected, and the report gives it no status. -/
theorem failure_report_without_status :
    ∃ rep, evaluateFailure (fun _ _ => 0) reservedContext ⟨none, none⟩ true = .ok rep ∧
      "__proto__" ∈ activeNodes reservedContext rep.failed ∧
      "__proto__" ∈ (computeState reservedContext rep.failed []).connected ∧
      rep.states.entries = [] :=
  ⟨_, rfl, by decide +kernel, by decide +kernel, by decide +kernel⟩

end Arald.Scenario
