import Arald.Scenario.ScoreBounds

/-!
# More damage

A failure that adds failed nodes or areas to another leaves a subgraph: fewer
nodes, and fewer edges as the obstacle losses add up. Connections, hops, coverage
and arrivals are compared over the two runs, and the components of the score are
bounded.
-/

namespace Arald.Scenario

open Foundations

variable {ctx : ResilienceContext} {failed failed' active active' : List String}
  {areas areas' : List ResolvedArea} {t : ℚ} {u v src : String}

/-- More extra loss never makes a link. -/
def MonotoneReevaluate (ctx : ResilienceContext) : Prop :=
  ∀ reevaluate, ctx.spec.reevaluate = some reevaluate →
    ∀ (e : ResilienceEdge) (t loss loss' : ℚ), loss ≤ loss' → reevaluate e t loss' = true →
      reevaluate e t loss = true

/-- `spec'` fails the nodes of `spec` and has its areas, and may add to both. -/
structure Adds (spec spec' : FailureSpec) : Prop where
  nodes : spec.nodes.getD [] ⊆ spec'.nodes.getD []
  areas : (spec.areas.getD []).Subperm (spec'.areas.getD [])

/-- The same, once areas and failed nodes are resolved. -/
structure Worse (failed failed' : List String) (areas areas' : List ResolvedArea) : Prop where
  failed_sub : failed ⊆ failed'
  areas_sub : areas.Subperm areas'

/-! ### Edges -/

theorem sum_le_sum_of_subperm {l l' : List ℚ} (h : l.Subperm l') (hnonneg : ∀ x ∈ l', 0 ≤ x) :
    l.sum ≤ l'.sum := by
  obtain ⟨m, hperm, hsub⟩ := h
  rw [← hperm.sum_eq]
  exact hsub.sum_le_sum hnonneg

theorem map_subperm {α β : Type*} (f : α → β) {l l' : List α} (h : l.Subperm l') :
    (l.map f).Subperm (l'.map f) := by
  obtain ⟨m, hperm, hsub⟩ := h
  exact ⟨m.map f, hperm.map f, hsub.map f⟩

def blockingAreas (areas : List ResolvedArea) : List ResolvedArea :=
  areas.filter fun a => decide (a.lossDb > 0)

theorem obstacleLoss_eq (blocking : List ResolvedArea) (a b : Pt) :
    obstacleLoss blocking a b =
      ((blocking.filter fun area => segmentTouchesArea area.shape a b).map
        ResolvedArea.lossDb).sum := by
  suffices hall : ∀ loss : ℚ, blocking.foldl (fun loss area =>
      if segmentTouchesArea area.shape a b then loss + area.lossDb else loss) loss =
        loss + ((blocking.filter fun area => segmentTouchesArea area.shape a b).map
          ResolvedArea.lossDb).sum by
    rw [obstacleLoss, hall, zero_add]
  induction blocking with
  | nil => exact fun loss => (add_zero loss).symm
  | cons area blocking ih =>
    intro loss
    rw [List.foldl_cons, ih, List.filter_cons]
    split_ifs
    · rw [List.map_cons, List.sum_cons, add_assoc]
    · rfl

theorem lossDb_pos {a : ResolvedArea} (h : a ∈ blockingAreas areas) : 0 < a.lossDb :=
  of_decide_eq_true (List.mem_filter.mp h).2

theorem obstacleLoss_mono (h : areas.Subperm areas') (a b : Pt) :
    obstacleLoss (blockingAreas areas) a b ≤ obstacleLoss (blockingAreas areas') a b := by
  rw [obstacleLoss_eq, obstacleLoss_eq]
  refine sum_le_sum_of_subperm (map_subperm _ ((h.filter _).filter _)) fun x hx => ?_
  obtain ⟨area, harea, rfl⟩ := List.mem_map.mp hx
  exact (lossDb_pos (List.mem_filter.mp harea).1).le

theorem obstacleLoss_nil (a b : Pt) : obstacleLoss [] a b = 0 := rfl

/-- An edge with positions survives when nothing it touches costs anything, or the link model
accepts the loss. -/
theorem survives_iff {e : ResilienceEdge} {ax ay bx bY : ℚ} (hax : e.ax = some ax)
    (hay : e.ay = some ay) (hbx : e.bx = some bx) (hbY : e.bY = some bY) :
    survives ctx areas t e = true ↔
      ¬0 < obstacleLoss (blockingAreas areas) (ax, ay) (bx, bY) ∨
        ∃ reevaluate, ctx.spec.reevaluate = some reevaluate ∧
          reevaluate e t (obstacleLoss (blockingAreas areas) (ax, ay) (bx, bY)) = true := by
  rw [survives, hax, hay, hbx, hbY]
  change (if 0 < (blockingAreas areas).length then
    if obstacleLoss (blockingAreas areas) (ax, ay) (bx, bY) > 0 then _ else true else true) = true ↔ _
  by_cases hblocking : 0 < (blockingAreas areas).length
  · rw [if_pos hblocking]
    split_ifs with hloss
    · rw [or_iff_right (not_not.mpr hloss)]
      cases ctx.spec.reevaluate with
      | none => exact iff_of_false Bool.false_ne_true fun ⟨_, h, _⟩ =>
        Option.some_ne_none _ h.symm
      | some reevaluate =>
        exact ⟨fun h => ⟨reevaluate, rfl, h⟩, fun ⟨_, heq, h⟩ => (Option.some.inj heq) ▸ h⟩
    · exact iff_of_true rfl (Or.inl hloss)
  · rw [if_neg hblocking]
    have hnil := List.length_eq_zero_iff.mp (Nat.eq_zero_of_not_pos hblocking)
    refine iff_of_true rfl (Or.inl ?_)
    rw [hnil, obstacleLoss_nil]
    exact lt_irrefl 0

theorem survives_mono (hmono : MonotoneReevaluate ctx) (h : areas.Subperm areas')
    {e : ResilienceEdge} (hsurvives : survives ctx areas' t e = true) :
    survives ctx areas t e = true := by
  cases hax : e.ax with
  | none => rw [survives, hax]
  | some ax =>
    cases hay : e.ay with
    | none => rw [survives, hax, hay]
    | some ay =>
      cases hbx : e.bx with
      | none => rw [survives, hax, hay, hbx]
      | some bx =>
        cases hbY : e.bY with
        | none => rw [survives, hax, hay, hbx, hbY]
        | some bY =>
          have hle := obstacleLoss_mono h (ax, ay) (bx, bY)
          rw [survives_iff hax hay hbx hbY] at hsurvives ⊢
          rcases hsurvives with hzero | ⟨reevaluate, hsome, haccepts⟩
          · exact Or.inl fun hpos => hzero (hpos.trans_le hle)
          · exact Or.inr ⟨reevaluate, hsome, hmono reevaluate hsome e t _ _ hle haccepts⟩

/-! ### Connections, hops and coverage -/

theorem Worse.active_sub (h : Worse failed failed' areas areas') :
    activeNodes ctx failed' ⊆ activeNodes ctx failed := by
  intro v hv
  obtain ⟨n, hn, rfl, hactive, hfailed⟩ := mem_activeNodes.mp hv
  exact mem_activeNodes.mpr ⟨n, hn, rfl, hactive, fun hmem => hfailed (h.failed_sub hmem)⟩

theorem Worse.sink (h : Worse failed failed' areas areas') (hs : ActiveSink ctx failed' v) :
    ActiveSink ctx failed v := ⟨h.active_sub hs.1, hs.2⟩

theorem Worse.residualGraph_le (h : Worse failed failed' areas areas')
    (hmono : MonotoneReevaluate ctx) :
    residualGraph ctx failed' areas' ≤ residualGraph ctx failed areas := by
  rintro u v ⟨hne, e, he, ⟨ha, hb⟩, hsurvives, hj⟩
  exact ⟨hne, e, he, ⟨h.active_sub ha, h.active_sub hb⟩, survives_mono hmono h.areas_sub hsurvives, hj⟩

theorem Worse.connected_sub (h : Worse failed failed' areas areas')
    (hmono : MonotoneReevaluate ctx) :
    (computeState ctx failed' areas').connected ⊆ (computeState ctx failed areas).connected := by
  intro v hv
  obtain ⟨s, hs, hr⟩ := mem_connected.mp hv
  exact mem_connected.mpr ⟨s, h.sink hs, hr.mono (h.residualGraph_le hmono)⟩

theorem Worse.hops_le (h : Worse failed failed' areas areas') (hmono : MonotoneReevaluate ctx)
    {d d' : ℕ} (hd : (computeState ctx failed areas).hops.get? v = some d)
    (hd' : (computeState ctx failed' areas').hops.get? v = some d') : d ≤ d' := by
  obtain ⟨⟨s, hs, p, rfl⟩, -⟩ := hops_iff.mp hd'
  have hle := (hops_iff.mp hd).2 s (h.sink hs) (p.mapLe (h.residualGraph_le hmono))
  rwa [SimpleGraph.Walk.length_map] at hle

theorem coveredCells_sum_le (cov : ResilienceCoverage) {nodes nodes' : List String}
    (h : nodes' ⊆ nodes) : (coveredCells cov nodes').sum ≤ (coveredCells cov nodes).sum := by
  refine List.sum_le_sum fun i _ => ?_
  by_cases hany : nodes'.any (coversCell cov i) = true
  · obtain ⟨id, hid, hcovers⟩ := List.any_eq_true.mp hany
    rw [if_pos hany, if_pos (List.any_eq_true.mpr ⟨id, h hid, hcovers⟩)]
  · rw [if_neg hany]
    exact Nat.zero_le _

theorem frac_le {a b land : ℕ} (h : a ≤ b) :
    (if land ≠ 0 then (a : ℚ) / land else 0) ≤ if land ≠ 0 then (b : ℚ) / land else 0 := by
  split_ifs
  · exact div_le_div_of_nonneg_right (Nat.cast_le.mpr h) (Nat.cast_nonneg _)
  · exact le_rfl

/-- Coverage of a state that has no more active and no more connected nodes. -/
theorem coverage_le {st st' : State} (hactive : st'.active ⊆ st.active)
    (hconnected : st'.connected ⊆ st.connected) {c c' : CoverageFractions}
    (hc : coverageFractions ctx st = some c) (hc' : coverageFractions ctx st' = some c') :
    c'.connectedFrac ≤ c.connectedFrac ∧ c'.radioFrac ≤ c.radioFrac := by
  obtain ⟨cov, hcov, rfl⟩ := Option.map_eq_some_iff.mp hc
  obtain ⟨cov', hcov', rfl⟩ := Option.map_eq_some_iff.mp hc'
  obtain rfl := Option.some.inj (hcov.symm.trans hcov')
  refine ⟨frac_le (coveredCells_sum_le cov fun v hv => ?_), frac_le (coveredCells_sum_le cov hactive)⟩
  obtain ⟨hv, hvc⟩ := List.mem_filter.mp hv
  exact List.mem_filter.mpr ⟨hactive hv, decide_eq_true (hconnected (of_decide_eq_true hvc))⟩

theorem Worse.coverage_le (h : Worse failed failed' areas areas') (hmono : MonotoneReevaluate ctx)
    {c c' : CoverageFractions} (hc : coverageFractions ctx (computeState ctx failed areas) = some c)
    (hc' : coverageFractions ctx (computeState ctx failed' areas') = some c') :
    c'.connectedFrac ≤ c.connectedFrac ∧ c'.radioFrac ≤ c.radioFrac :=
  Scenario.coverage_le h.active_sub (h.connected_sub hmono) hc hc'

/-! ### Arrivals -/

/-- A snapshot leaves fewer links after more damage. -/
theorem Worse.snapshot_le (h : Worse failed failed' areas areas') (hmono : MonotoneReevaluate ctx)
    (step : TimelineStep) :
    linkGraph (snapshot ctx (activeNodes ctx failed') areas' step) ≤
      linkGraph (snapshot ctx (activeNodes ctx failed) areas step) := by
  rintro u v ⟨hne, e, he, hj⟩
  obtain ⟨he, ⟨ha, hb⟩, hsurvives⟩ := mem_filterEdges.mp he
  have hkept := mem_filterEdges.mpr
    ⟨he, ⟨h.active_sub ha, h.active_sub hb⟩, survives_mono hmono h.areas_sub hsurvives⟩
  exact ⟨hne, e, hkept, hj⟩

/-- Fewer carriers reach fewer nodes over a snapshot. -/
theorem Worse.spread_sub (h : Worse failed failed' areas areas') (hmono : MonotoneReevaluate ctx)
    (step : TimelineStep) {mine mine' : Finset String} (hmine : mine' ⊆ mine) :
    spread (componentsOf ctx (activeNodes ctx failed')
        (snapshot ctx (activeNodes ctx failed') areas' step)) mine' ⊆
      spread (componentsOf ctx (activeNodes ctx failed)
        (snapshot ctx (activeNodes ctx failed) areas step)) mine := by
  intro v hv
  have hwithin : ∀ active areas, Within (snapshot ctx active areas step) active := fun _ _ =>
    filterEdges_within _ _ _ _ _
  rw [mem_spread_componentsOf (hwithin _ _) (activeNodes_subset ctx _)] at hv ⊢
  rcases hv with hv | ⟨hv, u, hu, humine, hr⟩
  · exact Or.inl (hmine hv)
  · exact Or.inr ⟨h.active_sub hv, u, h.active_sub hu, hmine humine,
      hr.mono (h.snapshot_le hmono step)⟩

/-- An arrival is at one of the snapshots. -/
theorem exists_step_of_arrivalFrom {active : List String} {startT d : ℚ}
    {steps : List TimelineStep} {mine : Finset String}
    (h : arrivalFrom ctx active areas startT steps mine = some d) :
    ∃ step ∈ steps, d = step.t - startT := by
  induction steps generalizing mine with
  | nil => cases h
  | cons step steps ih =>
    rw [arrivalFrom] at h
    dsimp only at h
    split_ifs at h
    · obtain ⟨s, hs, heq⟩ := ih h
      exact ⟨s, List.mem_cons_of_mem _ hs, heq⟩
    · exact ⟨step, List.mem_cons_self, (Option.some.inj h).symm⟩
    · obtain ⟨s, hs, heq⟩ := ih h
      exact ⟨s, List.mem_cons_of_mem _ hs, heq⟩

/-- Both searches see the same snapshots; the one with more carriers stops first. -/
theorem Worse.arrivalFrom_le (h : Worse failed failed' areas areas')
    (hmono : MonotoneReevaluate ctx) {startT d' : ℚ} {steps : List TimelineStep}
    {mine mine' : Finset String} (hsorted : steps.Pairwise fun a b => a.t ≤ b.t)
    (hmine : mine' ⊆ mine)
    (hd' : arrivalFrom ctx (activeNodes ctx failed') areas' startT steps mine' = some d') :
    ∃ d, arrivalFrom ctx (activeNodes ctx failed) areas startT steps mine = some d ∧ d ≤ d' := by
  induction steps generalizing mine mine' with
  | nil => cases hd'
  | cons step steps ih =>
    obtain ⟨hlater, hsorted⟩ := List.pairwise_cons.mp hsorted
    rw [arrivalFrom] at hd' ⊢
    by_cases hbefore : step.t < startT
    · rw [if_pos hbefore] at hd' ⊢
      exact ih hsorted hmine hd'
    rw [if_neg hbefore] at hd' ⊢
    have hspread := h.spread_sub hmono step hmine
    dsimp only at hd' ⊢
    split_ifs at hd' with hmeets'
    · obtain ⟨v, hv, hsink⟩ := hmeets'
      rw [if_pos ⟨v, hspread hv, hsink⟩]
      exact ⟨_, rfl, (Option.some.inj hd').le⟩
    · split_ifs with hmeets
      · obtain ⟨s, hs, rfl⟩ := exists_step_of_arrivalFrom hd'
        exact ⟨_, rfl, sub_le_sub_right (hlater s hs) startT⟩
      · exact ih hsorted hspread hd'

/-- The snapshots are in order of time. -/
def Chronological (ctx : ResilienceContext) : Prop :=
  ∀ tl, ctx.spec.timeline = some tl → tl.steps.Pairwise fun a b => a.t ≤ b.t

theorem Worse.arrival_le (h : Worse failed failed' areas areas') (hmono : MonotoneReevaluate ctx)
    (htime : Chronological ctx) {sources sources' : List String} (hsrc : src ∈ sources) {d' : ℚ}
    (hd' : (opportunisticArrivals ctx failed' areas' sources').get? src = some d') :
    ∃ d, (opportunisticArrivals ctx failed areas sources).get? src = some d ∧ d ≤ d' := by
  cases htl : ctx.spec.timeline with
  | none =>
    rw [opportunisticArrivals, htl] at hd'
    cases hd'
  | some tl =>
    rw [get?_opportunisticArrivals ctx failed' areas' htl] at hd'
    rw [get?_opportunisticArrivals ctx failed areas htl, if_pos hsrc]
    split_ifs at hd'
    exact h.arrivalFrom_le hmono (htime tl htl) (Finset.Subset.refl _) hd'

/-! ### From failures to damage -/

theorem filterMap_subperm {α β : Type*} (f : α → Option β) {l l' : List α} (h : l.Subperm l') :
    (l.filterMap f).Subperm (l'.filterMap f) := by
  obtain ⟨m, hperm, hsub⟩ := h
  exact ⟨m.filterMap f, hperm.filterMap f, hsub.filterMap f⟩

theorem Adds.areas_sub {spec spec' : FailureSpec} (h : Adds spec spec')
    (hareas : resolveAreas ctx spec.areas = .ok areas)
    (hareas' : resolveAreas ctx spec'.areas = .ok areas') : areas.Subperm areas' := by
  rw [eq_filterMap_of_mapM hareas, eq_filterMap_of_mapM hareas']
  exact filterMap_subperm _ h.areas

theorem mem_failNodes {nodes set set' : List String}
    (h : nodes.foldlM (failNode ctx) set = .ok set') : v ∈ set' ↔ v ∈ set ∨ v ∈ nodes := by
  induction nodes generalizing set with
  | nil => rw [← Except.ok.inj h, or_iff_left List.not_mem_nil]
  | cons id nodes ih =>
    rw [List.foldlM_cons, failNode] at h
    split_ifs at h
    · rw [ok_bind] at h
      rw [ih h, mem_addTo, List.mem_cons, or_assoc]
    · cases h

/-- The node has a position inside an area that fails nodes. -/
def FailsIn (ctx : ResilienceContext) (a : ResolvedArea) (v : String) : Prop :=
  a.failNodes = true ∧ ∃ positions, ctx.spec.positions = some positions ∧
    ∃ p, (v, p) ∈ positions ∧ pointInArea a.shape p.1 p.2 = true

theorem mem_failPositions {positions : List (String × Pt)} {a : ResolvedArea} {set : List String} :
    v ∈ positions.foldl (fun failed e =>
      if pointInArea a.shape e.2.1 e.2.2 then addTo failed e.1 else failed) set ↔
        v ∈ set ∨ ∃ p, (v, p) ∈ positions ∧ pointInArea a.shape p.1 p.2 = true := by
  induction positions generalizing set with
  | nil => exact (or_iff_left fun ⟨_, hp, _⟩ => absurd hp List.not_mem_nil).symm
  | cons e positions ih =>
    rw [List.foldl_cons, ih]
    have hcons : (∃ p, (v, p) ∈ e :: positions ∧ pointInArea a.shape p.1 p.2 = true) ↔
        v = e.1 ∧ pointInArea a.shape e.2.1 e.2.2 = true ∨
          ∃ p, (v, p) ∈ positions ∧ pointInArea a.shape p.1 p.2 = true := by
      constructor
      · rintro ⟨p, hp, hin⟩
        rcases List.mem_cons.mp hp with rfl | hp
        · exact Or.inl ⟨rfl, hin⟩
        · exact Or.inr ⟨p, hp, hin⟩
      · rintro (⟨rfl, hin⟩ | ⟨p, hp, hin⟩)
        · exact ⟨e.2, List.mem_cons_self, hin⟩
        · exact ⟨p, List.mem_cons_of_mem _ hp, hin⟩
    rw [hcons, ← or_assoc]
    refine or_congr_left ?_
    split_ifs with hin
    · rw [mem_addTo, and_iff_left hin]
    · exact (or_iff_left fun h => hin h.2).symm

theorem mem_failArea {a : ResolvedArea} {set set' : List String}
    (h : failArea ctx set a = .ok set') : v ∈ set' ↔ v ∈ set ∨ FailsIn ctx a v := by
  rw [failArea] at h
  split_ifs at h with hnot
  · have hkeeps : ¬FailsIn ctx a v := by
      rintro ⟨hfails, -⟩
      rw [hfails] at hnot
      cases hnot
    rw [← Except.ok.inj h, or_iff_left hkeeps]
  · have hfails : a.failNodes = true := by simpa using hnot
    cases hpositions : ctx.spec.positions with
    | none => rw [hpositions] at h; cases h
    | some positions =>
      rw [hpositions] at h
      rw [← Except.ok.inj h, mem_failPositions]
      refine or_congr_right ⟨fun hin => ⟨hfails, positions, hpositions, hin⟩, ?_⟩
      rintro ⟨-, positions', hsome, hin⟩
      rwa [Option.some.inj (hpositions.symm.trans hsome)]

theorem mem_failAreas {set set' : List String} (h : areas.foldlM (failArea ctx) set = .ok set') :
    v ∈ set' ↔ v ∈ set ∨ ∃ a ∈ areas, FailsIn ctx a v := by
  induction areas generalizing set with
  | nil => rw [← Except.ok.inj h, or_iff_left fun ⟨_, ha, _⟩ => absurd ha List.not_mem_nil]
  | cons a areas ih =>
    rw [List.foldlM_cons] at h
    cases hset : failArea ctx set a with
    | error e => rw [hset] at h; cases h
    | ok mid =>
      rw [hset, ok_bind] at h
      rw [ih h, mem_failArea hset, List.exists_mem_cons_iff, or_assoc]

/-- The failed nodes are those that are named and those inside the areas. -/
theorem mem_resolveFailed {spec : FailureSpec} (h : resolveFailed ctx spec areas = .ok failed) :
    v ∈ failed ↔ v ∈ spec.nodes.getD [] ∨ ∃ a ∈ areas, FailsIn ctx a v := by
  rw [resolveFailed] at h
  cases hnodes : (spec.nodes.getD []).foldlM (failNode ctx) [] with
  | error e => rw [hnodes] at h; cases h
  | ok set =>
    rw [hnodes, ok_bind] at h
    rw [mem_failAreas h, mem_failNodes hnodes, or_iff_right List.not_mem_nil]

theorem Adds.worse {spec spec' : FailureSpec} (h : Adds spec spec')
    (hareas : resolveAreas ctx spec.areas = .ok areas)
    (hareas' : resolveAreas ctx spec'.areas = .ok areas')
    (hfailed : resolveFailed ctx spec areas = .ok failed)
    (hfailed' : resolveFailed ctx spec' areas' = .ok failed') :
    Worse failed failed' areas areas' := by
  have hsub := h.areas_sub hareas hareas'
  refine ⟨fun v hv => (mem_resolveFailed hfailed').mpr ?_, hsub⟩
  rcases (mem_resolveFailed hfailed).mp hv with hv | ⟨a, ha, hin⟩
  · exact Or.inl (h.nodes hv)
  · exact Or.inr ⟨a, hsub.subset ha, hin⟩

/-! ### Two failures -/

/-- Nothing is better after the second failure: connections, hops, coverage and arrivals. -/
structure NoBetter (ctx : ResilienceContext) (failed failed' : List String)
    (areas areas' : List ResolvedArea) : Prop where
  connected : (computeState ctx failed' areas').connected ⊆ (computeState ctx failed areas).connected
  hops : ∀ v d d', (computeState ctx failed areas).hops.get? v = some d →
    (computeState ctx failed' areas').hops.get? v = some d' → d ≤ d'
  coverage : ∀ c c', coverageFractions ctx (computeState ctx failed areas) = some c →
    coverageFractions ctx (computeState ctx failed' areas') = some c' →
      c'.connectedFrac ≤ c.connectedFrac ∧ c'.radioFrac ≤ c.radioFrac
  arrivals : Chronological ctx → ∀ sources sources' src d', src ∈ sources →
    (opportunisticArrivals ctx failed' areas' sources').get? src = some d' →
      ∃ d, (opportunisticArrivals ctx failed areas sources).get? src = some d ∧ d ≤ d'

theorem Worse.noBetter (h : Worse failed failed' areas areas') (hmono : MonotoneReevaluate ctx) :
    NoBetter ctx failed failed' areas areas' :=
  ⟨h.connected_sub hmono, fun _ _ _ hd hd' => h.hops_le hmono hd hd',
    fun _ _ hc hc' => h.coverage_le hmono hc hc',
    fun htime _ _ _ _ hsrc hd' => h.arrival_le hmono htime hsrc hd'⟩

section Reports

variable (localeCompare : String → String → ℚ)

theorem evaluateFailure_resolved {spec : FailureSpec} {dependencies : Bool} {rep : FailureReport}
    (h : evaluateFailure localeCompare ctx spec dependencies = .ok rep) :
    ∃ areas, resolveAreas ctx spec.areas = .ok areas ∧
      resolveFailed ctx spec areas = .ok rep.failed ∧
      rep = failureReport localeCompare ctx rep.failed areas dependencies := by
  rw [evaluateFailure] at h
  cases hareas : resolveAreas ctx spec.areas with
  | error e => rw [hareas] at h; cases h
  | ok areas =>
    rw [hareas, ok_bind] at h
    cases hfailed : resolveFailed ctx spec areas with
    | error e => rw [hfailed] at h; cases h
    | ok failed =>
      rw [hfailed, ok_bind] at h
      obtain rfl := Except.ok.inj h
      exact ⟨areas, rfl, hfailed, rfl⟩

theorem report_coverage {dependencies : Bool} {c : CoverageReport}
    (h : (failureReport localeCompare ctx failed areas dependencies).coverage = some c) :
    ∃ before after, coverageFractions ctx ctx.baseline = some before ∧
      coverageFractions ctx (computeState ctx failed areas) = some after ∧
      c = ⟨before.connectedFrac, after.connectedFrac, before.radioFrac, after.radioFrac⟩ := by
  rw [failureReport] at h
  dsimp only at h
  split at h
  · next before after hbefore hafter =>
    exact ⟨before, after, hbefore, hafter, (Option.some.inj h).symm⟩
  · cases h

/-- More damage never helps, where the snapshots are in order of time: after a failure that adds
nodes or areas to another nothing is better. So no single failure improves anything, and every
component of the score is a fraction. -/
theorem more_damage_never_helps (ctx : ResilienceContext) (hmono : MonotoneReevaluate ctx) :
    (∀ spec spec' dependencies dependencies' rep rep', Adds spec spec' →
      evaluateFailure localeCompare ctx spec dependencies = .ok rep →
      evaluateFailure localeCompare ctx spec' dependencies' = .ok rep' →
        ∃ areas areas', resolveAreas ctx spec.areas = .ok areas ∧
          resolveAreas ctx spec'.areas = .ok areas' ∧
          NoBetter ctx rep.failed rep'.failed areas areas' ∧
          (Chronological ctx → ∀ r ∈ rep.recoverable, ∀ r' ∈ rep'.recoverable, r.id = r'.id →
            r.arrivalS ≤ r'.arrivalS)) ∧
      (∀ n ∈ ctx.spec.nodes, ∀ dependencies, ∃ rep,
        evaluateFailure localeCompare ctx ⟨some [n.id], none⟩ dependencies = .ok rep ∧
          NoBetter ctx [] rep.failed [] [] ∧
          ∀ c, rep.coverage = some c →
            c.connectedAfter ≤ c.connectedBefore ∧ c.radioAfter ≤ c.radioBefore) ∧
      ∀ sortStrings weights, ∃ score,
        resilienceScore localeCompare ctx sortStrings weights = .ok score ∧
          ∀ c ∈ score.components, ∀ q, c.value = some q → 0 ≤ q ∧ q ≤ 1 := by
  refine ⟨fun spec spec' dependencies dependencies' rep rep' hadds hrep hrep' => ?_,
    fun n hn dependencies => ?_, fun sortStrings weights => ?_⟩
  · obtain ⟨areas, hareas, hfailed, heq⟩ := evaluateFailure_resolved localeCompare hrep
    obtain ⟨areas', hareas', hfailed', heq'⟩ := evaluateFailure_resolved localeCompare hrep'
    have hnone := (hadds.worse hareas hareas' hfailed hfailed').noBetter hmono
    refine ⟨areas, areas', hareas, hareas', hnone, fun htime r hr r' hr' hid => ?_⟩
    rw [heq] at hr
    rw [heq'] at hr'
    obtain ⟨hget, -⟩ := mem_recoverable localeCompare hr
    obtain ⟨hget', -⟩ := mem_recoverable localeCompare hr'
    have hsrc := arrivals_sources _ _ _ _ _ (OrderedMap.mem_keys_of_get? hget)
    obtain ⟨d, hd, hle⟩ := hnone.arrivals htime _ _ _ _ hsrc (hid ▸ hget')
    rwa [Option.some.inj (hget.symm.trans hd)]
  · have hknown : ∀ id ∈ [n.id], id ∈ ctx.spec.ids := by
      intro id hid
      rw [List.mem_singleton.mp hid]
      exact List.mem_map_of_mem hn
    have hworse : Worse [] (toSet [n.id]) [] [] := ⟨List.nil_subset _, List.Subperm.refl _⟩
    refine ⟨_, evaluateFailure_nodes localeCompare hknown dependencies, hworse.noBetter hmono,
      fun c hc => ?_⟩
    obtain ⟨before, after, hbefore, hafter, rfl⟩ := report_coverage localeCompare hc
    exact hworse.coverage_le hmono hbefore hafter
  · obtain ⟨score, hscore, hrank, hcomponents, -⟩ :=
      resilienceScore_eq localeCompare ctx sortStrings weights
    refine ⟨score, hscore, fun c hc q hq => ?_⟩
    rw [hcomponents] at hc
    exact component_isFraction localeCompare hrank hc hq

end Reports

/-- A Card that a relay takes to the Box at 10 s, in the first snapshot, and that meets the Box at
5 s, in the second. -/
def shuffledContext : ResilienceContext where
  spec :=
    { nodes := [⟨"BOX", .box, false⟩, ⟨"A", .card, false⟩, ⟨"X", .relay, false⟩]
      edges := [], atS := none, sinkKinds := none, scoreKinds := none, coverage := none
      timeline := some ⟨0, [⟨10, [⟨"A", "X", .lora, 1000, none, none, none, none⟩,
        ⟨"X", "BOX", .lora, 1000, none, none, none, none⟩]⟩,
        ⟨5, [⟨"A", "BOX", .lora, 1000, none, none, none, none⟩]⟩]⟩
      positions := none, frame := none, reevaluate := none }
  nodup_ids := by decide
  edges_known := fun e he => absurd he List.not_mem_nil

/-- Without the relay the Card arrives earlier. -/
theorem earlier_arrival_in_shuffled_timeline :
    MonotoneReevaluate shuffledContext ∧ Adds ⟨none, none⟩ ⟨some ["X"], none⟩ ∧
      ∃ rep rep', evaluateFailure (fun _ _ => 0) shuffledContext ⟨none, none⟩ false = .ok rep ∧
        evaluateFailure (fun _ _ => 0) shuffledContext ⟨some ["X"], none⟩ false = .ok rep' ∧
        ("A", (10 : ℚ)) ∈ rep.recoverable.map (fun r => (r.id, r.arrivalS)) ∧
        rep'.recoverable.map (fun r => (r.id, r.arrivalS)) = [("A", 5)] := by
  refine ⟨fun reevaluate h => absurd h.symm (Option.some_ne_none _), ⟨List.nil_subset _, ?_⟩,
    _, _, rfl, rfl, ?_, ?_⟩
  · exact List.Subperm.refl _
  · decide +kernel
  · decide +kernel

/-- A Card 100 m from a Box, over a link that bears a loss of up to 10 dB. -/
def ridgeContext : ResilienceContext where
  spec :=
    { nodes := [⟨"BOX", .box, false⟩, ⟨"A", .card, false⟩]
      edges := [⟨"A", "BOX", .lora, 1000, some 0, some 0, some 100, some 0⟩], atS := none
      sinkKinds := none, scoreKinds := none, coverage := none, timeline := none, positions := none
      frame := none, reevaluate := some fun _ _ loss => decide (loss ≤ 10) }
  nodup_ids := by decide
  edges_known := by decide

/-- A ridge between the two that costs 6 dB. -/
def ridge : FailureArea := ⟨.circle (.xy (50, 0)) 10, some false, some 6⟩

/-- One ridge leaves the Card connected, a second one does not. -/
theorem more_damage_never_helps_ridge :
    (∃ areas areas', resolveAreas ridgeContext (some [ridge]) = .ok areas ∧
      resolveAreas ridgeContext (some [ridge, ridge]) = .ok areas' ∧
        NoBetter ridgeContext [] [] areas areas' ∧
        (computeState ridgeContext [] areas).connected = ["BOX", "A"] ∧
        (computeState ridgeContext [] areas').connected = ["BOX"]) ∧
      ∃ score, resilienceScore (fun _ _ => 0) ridgeContext id ⟨1, 1, 1, 1, 1, 1⟩ = .ok score ∧
        ∀ c ∈ score.components, ∀ q, c.value = some q → 0 ≤ q ∧ q ≤ 1 := by
  have hmono : MonotoneReevaluate ridgeContext := by
    intro reevaluate h e t loss loss' hle haccepts
    obtain rfl := Option.some.inj h
    exact decide_eq_true (hle.trans (of_decide_eq_true haccepts))
  have hadds : Adds ⟨none, some [ridge]⟩ ⟨none, some [ridge, ridge]⟩ :=
    ⟨List.nil_subset _, (List.sublist_cons_self ridge [ridge]).subperm⟩
  obtain ⟨hfailures, -, hscore⟩ := more_damage_never_helps (fun _ _ => 0) ridgeContext hmono
  obtain ⟨areas, areas', hareas, hareas', hnone, -⟩ :=
    hfailures _ _ false false _ _ hadds rfl rfl
  refine ⟨⟨areas, areas', hareas, hareas', hnone, ?_, ?_⟩, hscore id ⟨1, 1, 1, 1, 1, 1⟩⟩
  · rw [← Except.ok.inj hareas]
    decide +kernel
  · rw [← Except.ok.inj hareas']
    decide +kernel

end Arald.Scenario
