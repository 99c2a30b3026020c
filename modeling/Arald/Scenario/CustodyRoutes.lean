import Arald.Foundations.LeastCosts
import Arald.Scenario.SimulationRuns

/-!
# Routes of the custody policy

Under the custody policy a node that has a path to a pending destination hands the message to one
neighbour. The costs it compares are least costs over the links of the instant, from a breadth-first
search or from Dijkstra's algorithm as the metric says, and every transfer of a run goes along a
cheapest path.
-/

namespace Arald.Scenario

open Foundations

variable {opts : SimOptions} {s s' : Sim} {t : ℚ} {m : Message} {links : List NodeLink}

/-- What a link costs for the routing metric. -/
def SimOptions.edgeCost (opts : SimOptions) (l : LinkState) : ℚ :=
  if opts.routingMetric.getD .hops = .hops then 1 else linkAirtimeCost opts.params l

/-- The costs of paths to `v` from one of the nodes `dests`. -/
def SimOptions.costsTo (opts : SimOptions) (adj : String → List (String × LinkState)) (dests : List String)
    (v : String) : Set ℚ := {c | LeastCosts.Path adj opts.edgeCost dests c v}

/-! ### The two searches -/

theorem nearest_eq (dist : OrderedMap String ℚ) (done : List String) :
    nearest dist done = LeastCosts.nearest dist done := by
  unfold nearest LeastCosts.nearest
  congr 2
  funext cur e
  unfold LeastCosts.nearer
  by_cases hdone : e.1 ∈ done
  · rw [if_pos hdone, if_pos hdone]
  · rewrite [if_neg hdone, if_neg hdone]
    cases cur with
    | none => rfl
    | some best => exact if_congr Iff.rfl rfl rfl

theorem relax_eq (cost : LinkState → ℚ) (cur : String) : relax cost cur = LeastCosts.relax cost cur := by
  funext dist edge
  unfold relax LeastCosts.relax
  dsimp only
  cases dist.get? edge.1 with
  | none => rfl
  | some d => exact if_congr Iff.rfl rfl rfl

theorem dijkstra_eq (nodes : List NodeSpec) (adj : String → List (String × LinkState)) (roots : List String)
    (cost : LinkState → ℚ) : dijkstra nodes adj roots cost =
      LeastCosts.loop adj cost (nodes.length + roots.length) (LeastCosts.start roots) [] := by
  have hloop : ∀ fuel dist done,
      dijkstraLoop adj cost fuel dist done = LeastCosts.loop adj cost fuel dist done := by
    intro fuel
    induction fuel with
    | zero => exact fun _ _ => rfl
    | succ fuel ih =>
      intro dist done
      rw [dijkstraLoop, LeastCosts.loop, nearest_eq]
      cases LeastCosts.nearest dist done with
      | none => rfl
      | some cur =>
        dsimp only
        rw [ih, relax_eq]
  exact hloop _ _ _

/-- Paths that count hops. -/
theorem path_one_iff {adj : String → List (String × LinkState)} {dests : List String} {v : String} {c : ℚ} :
    LeastCosts.Path adj (fun _ => (1 : ℚ)) dests c v ↔
      ∃ n : ℕ, (n : ℚ) = c ∧ Search.Path (fun id => (adj id).map Prod.fst) dests n v := by
  constructor
  · intro h
    induction h with
    | source hv => exact ⟨0, Nat.cast_zero, .source hv⟩
    | step _ hadj ih =>
      obtain ⟨n, rfl, hpath⟩ := ih
      exact ⟨n + 1, Nat.cast_succ n, .step hpath (List.mem_map_of_mem (f := Prod.fst) hadj)⟩
  · rintro ⟨n, rfl, hpath⟩
    induction hpath with
    | source hv =>
      rw [Nat.cast_zero]
      exact .source hv
    | @step n u v _ hadj ih =>
      obtain ⟨e, he, rfl⟩ := List.mem_map.mp hadj
      rw [Nat.cast_succ]
      exact LeastCosts.Path.step ih he

/-! ### The links of an instant -/

/-- Neighbours are nodes, links go both ways, and their costs are positive. -/
structure Navigable (opts : SimOptions) (adj : String → List (String × LinkState)) : Prop where
  known : ∀ u, ∀ c ∈ adj u, ∃ n ∈ opts.nodes, n.id = c.1
  symmetric : LeastCosts.Symmetric adj
  pos : ∀ u, ∀ c ∈ adj u, 0 < opts.edgeCost c.2

theorem mem_adjacencyOf_iff {u : String} {c : String × LinkState} : c ∈ adjacencyOf links u ↔
    ∃ l ∈ links, c.2 = l.link ∧ (l.a = u ∧ l.b = c.1 ∨ l.a = c.1 ∧ l.b = u) := by
  have hupdate : ∀ (adj : String → List (String × LinkState)) (v nb : String) (link : LinkState),
      c ∈ Function.update adj v (adj v ++ [(nb, link)]) u ↔ c ∈ adj u ∨ v = u ∧ nb = c.1 ∧ c.2 = link := by
    intro adj v nb link
    by_cases hv : u = v
    · rw [hv, Function.update_self, List.mem_append, List.mem_singleton, Prod.ext_iff]
      exact or_congr_right ⟨fun h => ⟨rfl, h.1.symm, h.2⟩, fun h => ⟨h.2.1.symm, h.2.2⟩⟩
    · rw [Function.update_of_ne hv]
      exact (or_iff_left fun h => hv h.1.symm).symm
  suffices hall : ∀ (l : List NodeLink) (adj : String → List (String × LinkState)),
      c ∈ l.foldl (fun adj l =>
        let adj := Function.update adj l.a (adj l.a ++ [(l.b, l.link)])
        Function.update adj l.b (adj l.b ++ [(l.a, l.link)])) adj u ↔
        c ∈ adj u ∨ ∃ e ∈ l, c.2 = e.link ∧ (e.a = u ∧ e.b = c.1 ∨ e.a = c.1 ∧ e.b = u) by
    rw [adjacencyOf, hall]
    exact or_iff_right List.not_mem_nil
  intro l
  induction l with
  | nil => exact fun adj => (or_iff_left fun ⟨e, he, _⟩ => List.not_mem_nil he).symm
  | cons e l ih =>
    intro adj
    rw [List.foldl_cons, ih, hupdate, hupdate, or_assoc, or_assoc]
    refine or_congr_right ⟨?_, ?_⟩
    · rintro (⟨ha, hb, hlink⟩ | ⟨hb, ha, hlink⟩ | ⟨f, hf, hends⟩)
      · exact ⟨e, List.mem_cons_self, hlink, Or.inl ⟨ha, hb⟩⟩
      · exact ⟨e, List.mem_cons_self, hlink, Or.inr ⟨ha, hb⟩⟩
      · exact ⟨f, List.mem_cons_of_mem e hf, hends⟩
    · rintro ⟨f, hf, hlink, hends⟩
      rcases List.mem_cons.mp hf with rfl | hf
      · rcases hends with ⟨ha, hb⟩ | ⟨ha, hb⟩
        · exact Or.inl ⟨ha, hb, hlink⟩
        · exact Or.inr (Or.inl ⟨hb, ha, hlink⟩)
      · exact Or.inr (Or.inr ⟨f, hf, hlink, hends⟩)

theorem mem_pairLinks {p : ModelParams} {extraLossDb : ℚ} {placed : List (NodeSpec × Point3)} {l : NodeLink}
    (h : l ∈ pairLinks p t extraLossDb placed) :
    ∃ a ∈ placed, ∃ b ∈ placed, a.1.id = l.a ∧ b.1.id = l.b ∧
      p.env.bestLink a.1 a.2 b.1 b.2 extraLossDb = some l.link := by
  induction placed with
  | nil => cases h
  | cons n placed ih =>
    rw [pairLinks] at h
    rcases List.mem_append.mp h with h | h
    · split_ifs at h with hon
      · obtain ⟨k, hk, hlink⟩ := List.mem_filterMap.mp h
        dsimp only at hlink
        split_ifs at hlink
        obtain ⟨link, hbest, rfl⟩ := Option.map_eq_some_iff.mp hlink
        exact ⟨n, List.mem_cons_self, k, List.mem_cons_of_mem n hk, rfl, rfl, hbest⟩
      · cases h
    · obtain ⟨a, ha, b, hb, hends⟩ := ih h
      exact ⟨a, List.mem_cons_of_mem n ha, b, List.mem_cons_of_mem n hb, hends⟩

/-- The two ends of a link are nodes, and it is the best link between them. -/
theorem mem_linksAt (h : opts.linksAt t = .ok links) {l : NodeLink} (hl : l ∈ links) :
    ∃ a ∈ opts.nodes, ∃ b ∈ opts.nodes, a.id = l.a ∧ b.id = l.b ∧
      ∃ pa pb extraLossDb, opts.params.env.bestLink a pa b pb extraLossDb = some l.link := by
  rw [SimOptions.linksAt, snapshotLinks] at h
  cases hpos : opts.nodes.mapM fun n => do
      return (n, ← nodePosition n t opts.params.env.elevationAt) with
  | error e =>
    rw [hpos] at h
    cases h
  | ok placed =>
    rw [hpos, ok_bind] at h
    have hplaced : ∀ n ∈ placed, n.1 ∈ opts.nodes := by
      intro n hn
      rw [eq_filterMap_of_mapM hpos] at hn
      obtain ⟨k, hk, hsome⟩ := List.mem_filterMap.mp hn
      cases hposition : nodePosition k t opts.params.env.elevationAt with
      | error e =>
        rw [hposition] at hsome
        cases hsome
      | ok point =>
        rw [hposition] at hsome
        cases hsome
        exact hk
    rw [← Except.ok.inj h] at hl
    obtain ⟨a, ha, b, hb, hida, hidb, hbest⟩ := mem_pairLinks hl
    exact ⟨a.1, hplaced a ha, b.1, hplaced b hb, hida, hidb, a.2, b.2, _, hbest⟩

/-! ### Costs of links -/

theorem shrinkFrame_bounds (fits : ℕ → Bool) {fuel lo hi : ℕ} (h : lo < hi) :
    lo ≤ shrinkFrame fits fuel lo hi ∧ shrinkFrame fits fuel lo hi < hi := by
  induction fuel generalizing lo hi with
  | zero => exact ⟨le_rfl, h⟩
  | succ fuel ih =>
    rw [shrinkFrame]
    dsimp only
    split_ifs with hgap
    · have hupper : (lo + hi) / 2 < hi := by omega
      obtain ⟨hle, hlt⟩ := ih hupper
      exact ⟨by omega, hlt⟩
    · have hlower : lo < (lo + hi) / 2 := by omega
      obtain ⟨hle, hlt⟩ := ih hlower
      exact ⟨hle, by omega⟩
    · exact ⟨le_rfl, h⟩

/-- A frame that is used has room for content. -/
theorem overhead_lt_loraFrameBytesFor {sf : SpreadingFactor} {p : ModelParams} (h : 0 < loraFrameBytesFor sf p) :
    p.loraFrameOverheadBytes < loraFrameBytesFor sf p ∧ p.loraFrameOverheadBytes < p.loraFrameBytes := by
  rw [loraFrameBytesFor] at h ⊢
  split_ifs at h ⊢ with hroom
  · exact absurd h (Nat.lt_irrefl 0)
  · refine ⟨?_, not_le.mp hroom⟩
    cases hdwell : p.reg.maxDwellS with
    | none => exact not_le.mp hroom
    | some dwell =>
      rw [hdwell] at h
      dsimp only at h ⊢
      split_ifs at h ⊢ with hfull hfirst
      · exact not_le.mp hroom
      · exact absurd h (Nat.lt_irrefl 0)
      · rcases (Nat.succ_le_of_lt (not_le.mp hroom)).lt_or_eq with hlt | heq
        · exact (shrinkFrame_bounds _ hlt).1
        · rw [← heq, Nat.sub_self, shrinkFrame]
          exact Nat.lt_succ_self _

/-- A spreading factor with frames to send, or a rate above zero. -/
def LinkState.Usable (p : ModelParams) : LinkState → Prop
  | .lora sf _ => 0 < loraFrameBytesFor sf p
  | .wifi rateBps => 0 < rateBps.getD p.shortRange.wifiBps
  | .ble rateBps => 0 < rateBps.getD p.shortRange.bleBps

theorem linkAirtimeCost_pos {p : ModelParams} {l : LinkState} (hframe : 0 < p.loraFrameBytes)
    (h : l.Usable p) : 0 < linkAirtimeCost p l := by
  have hbits : (0 : ℚ) < 8 * p.loraFrameBytes := mul_pos (by norm_num) (Nat.cast_pos.mpr hframe)
  cases l with
  | wifi rateBps => exact div_pos hbits h
  | ble rateBps => exact div_pos hbits h
  | lora sf rateBps =>
    obtain ⟨hused, hfull⟩ := overhead_lt_loraFrameBytesFor h
    have happ : 0 < loraAppBytesPerFrame p (some sf) :=
      div_pos (Nat.cast_pos.mpr (Nat.sub_pos_of_lt hused)) p.overhead_pos
    have happFull : 0 < loraAppBytesPerFrame p none :=
      div_pos (Nat.cast_pos.mpr (Nat.sub_pos_of_lt hfull)) p.overhead_pos
    exact mul_pos (div_pos (loraTimeOnAir_pos _ _ _) happ) happFull

/-- Links are over what the parameters leave usable. -/
structure LinksUsable (opts : SimOptions) : Prop where
  frame : 0 < opts.params.loraFrameBytes
  usable : ∀ a pa b pb extraLossDb link, opts.params.env.bestLink a pa b pb extraLossDb = some link →
    link.Usable opts.params

theorem edgeCost_pos (h : LinksUsable opts) {l : LinkState} (hl : l.Usable opts.params) :
    0 < opts.edgeCost l := by
  rw [SimOptions.edgeCost]
  split_ifs
  · exact one_pos
  · exact linkAirtimeCost_pos h.frame hl

theorem navigable_of_linksAt (husable : LinksUsable opts) (h : opts.linksAt t = .ok links) :
    Navigable opts (adjacencyOf links) := by
  refine ⟨fun u c hc => ?_, fun u v e he => ?_, fun u c hc => ?_⟩
  · obtain ⟨l, hl, -, hends⟩ := mem_adjacencyOf_iff.mp hc
    obtain ⟨a, ha, b, hb, hida, hidb, -⟩ := mem_linksAt h hl
    rcases hends with ⟨-, hnb⟩ | ⟨hnb, -⟩
    · exact ⟨b, hb, hidb.trans hnb⟩
    · exact ⟨a, ha, hida.trans hnb⟩
  · obtain ⟨l, hl, hlink, hends⟩ := mem_adjacencyOf_iff.mp he
    exact mem_adjacencyOf_iff.mpr ⟨l, hl, hlink, hends.symm⟩
  · obtain ⟨l, hl, hlink, -⟩ := mem_adjacencyOf_iff.mp hc
    obtain ⟨a, -, b, -, -, -, pa, pb, loss, hbest⟩ := mem_linksAt h hl
    exact hlink ▸ edgeCost_pos husable (husable.usable a pa b pb loss l.link hbest)

/-! ### Costs -/

/-- The map gives the least costs of paths to one of `dests`. -/
def GivesCosts (opts : SimOptions) (adj : String → List (String × LinkState)) (dests : List String)
    (cost : OrderedMap String ℚ) : Prop :=
  LeastCosts.Answers adj opts.edgeCost dests cost

theorem mem_of_path {adj : String → List (String × LinkState)} {dests : List String} (h : Navigable opts adj)
    {edge : LinkState → ℚ} {c : ℚ} {v : String} (hpath : LeastCosts.Path adj edge dests c v) :
    v ∈ opts.nodes.map NodeSpec.id ++ dests := by
  cases hpath with
  | source hv => exact List.mem_append_right _ hv
  | step _ hadj =>
    obtain ⟨n, hn, hid⟩ := h.known _ _ hadj
    exact List.mem_append_left _ (List.mem_map.mpr ⟨n, hn, hid⟩)

theorem givesCosts_dijkstra {adj : String → List (String × LinkState)} (h : Navigable opts adj)
    (hmetric : opts.routingMetric.getD .hops ≠ .hops) (dests : List String) :
    GivesCosts opts adj dests (dijkstra opts.nodes adj dests (linkAirtimeCost opts.params)) := by
  have hedge : opts.edgeCost = linkAirtimeCost opts.params := by
    funext l
    exact if_neg hmetric
  rw [dijkstra_eq, GivesCosts, hedge]
  refine LeastCosts.answers_loop (fun c w hw => mem_of_path h hw) (fun u e he => ?_) ?_
  · exact hedge ▸ (h.pos u e he).le
  · rw [List.length_append, List.length_map]

theorem givesCosts_bfsHops {adj : String → List (String × LinkState)} (h : Navigable opts adj)
    (hmetric : opts.routingMetric.getD .hops = .hops) {dests : List String}
    (hknown : ∀ d ∈ dests, ∃ n ∈ opts.nodes, n.id = d) :
    GivesCosts opts adj dests ((bfsHops opts.nodes adj dests).mapValues fun _ n => (n : ℚ)) := by
  have hedge : opts.edgeCost = fun _ => 1 := by
    funext l
    exact if_pos hmetric
  have hall : ∀ n w, Search.Path (fun id => (adj id).map Prod.fst) dests n w →
      w ∈ opts.nodes.map NodeSpec.id := by
    intro n w hpath
    rcases List.mem_append.mp (mem_of_path h (path_one_iff.mpr ⟨n, rfl, hpath⟩)) with hw | hw
    · exact hw
    · exact List.mem_map.mpr (hknown w hw)
  have hhops : ∀ v n, (bfsHops opts.nodes adj dests).get? v = some n ↔
      IsLeast {k | Search.Path (fun id => (adj id).map Prod.fst) dests k v} n := fun v n =>
    Search.get?_loop_roots_iff hall (by rw [List.length_map]) v n
  rw [GivesCosts, hedge]
  refine ⟨fun v d hv => ?_, fun c v hpath => ?_⟩
  · rw [OrderedMap.get?_mapValues, Option.map_eq_some_iff] at hv
    obtain ⟨n, hn, rfl⟩ := hv
    exact path_one_iff.mpr ⟨n, rfl, ((hhops v n).mp hn).1⟩
  · obtain ⟨n, rfl, hn⟩ := path_one_iff.mp hpath
    obtain ⟨k, hk, hmin⟩ := WellFounded.has_min wellFounded_lt
      {k | Search.Path (fun id => (adj id).map Prod.fst) dests k v} ⟨n, hn⟩
    have hleast := (hhops v k).mpr ⟨hk, fun j hj => not_lt.mp (hmin j hj)⟩
    refine ⟨k, Nat.cast_le.mpr (not_lt.mp (hmin n hn)), ?_⟩
    rw [OrderedMap.get?_mapValues, hleast, Option.map_some]

theorem path_of_mem {adj : String → List (String × LinkState)} {dests dests' : List String} {c : ℚ} {v : String}
    (hsame : ∀ d, d ∈ dests ↔ d ∈ dests') (h : LeastCosts.Path adj opts.edgeCost dests c v) :
    LeastCosts.Path adj opts.edgeCost dests' c v := by
  induction h with
  | source hv => exact .source ((hsame _).mp hv)
  | step _ hadj ih => exact .step ih hadj

theorem GivesCosts.of_mem {adj : String → List (String × LinkState)} {dests dests' : List String}
    {cost : OrderedMap String ℚ} (h : GivesCosts opts adj dests cost) (hsame : ∀ d, d ∈ dests ↔ d ∈ dests') :
    GivesCosts opts adj dests' cost :=
  ⟨fun v d hv => path_of_mem hsame (h.sound v d hv),
    fun c v hpath => h.short c v (path_of_mem (fun d => (hsame d).symm) hpath)⟩

/-! ### Keys of the caches -/

/-- Lists with the same key have the same elements, where no element has a comma. -/
theorem mem_iff_of_sortedKey {a b : List String} (ha : a ≠ []) (hb : b ≠ [])
    (hcommaA : ∀ d ∈ a, ',' ∉ d.toList) (hcommaB : ∀ d ∈ b, ',' ∉ d.toList)
    (h : sortedKey a = sortedKey b) (d : String) : d ∈ a ↔ d ∈ b := by
  have hsplit : ∀ {l : List String}, l ≠ [] → (∀ d ∈ l, ',' ∉ d.toList) →
      (sortedKey l).toList.splitOn ',' =
        (l.insertionSort fun a b => !before b a).map String.toList := by
    intro l hne hcomma
    rw [sortedKey, String.toList_intercalate]
    refine List.splitOn_intercalate ',' (fun part hpart => ?_) ?_
    · obtain ⟨d, hd, rfl⟩ := List.mem_map.mp hpart
      exact hcomma d ((List.mem_insertionSort _).mp hd)
    · intro hnil
      have hlength := congrArg List.length hnil
      rw [List.length_map, List.length_insertionSort] at hlength
      exact hne (List.length_eq_zero_iff.mp hlength)
  have hmap := (hsplit ha hcommaA).symm.trans ((congrArg (fun k : String => k.toList.splitOn ',') h).trans
    (hsplit hb hcommaB))
  have hsorted := List.map_injective_iff.mpr (fun _ _ htext => String.toList_injective htext) hmap
  rw [← List.mem_insertionSort (fun a b => !before b a), hsorted, List.mem_insertionSort]

/-- Destinations that are nodes. -/
structure Known (opts : SimOptions) (dests : List String) : Prop where
  ne_nil : dests ≠ []
  known : ∀ d ∈ dests, ∃ n ∈ opts.nodes, n.id = d

/-- The distances kept during a step are those to the destinations of their keys. -/
structure Turn.Fresh (opts : SimOptions) (view : Snapshot) (turn : Turn) : Prop where
  hops : ∀ key hops, turn.hopsToDest.get? key = some hops →
    ∃ dests, Known opts dests ∧ sortedKey dests = key ∧ hops = bfsHops opts.nodes view.adj dests
  cost : ∀ key cost, turn.costToDest.get? key = some cost →
    ∃ dests, Known opts dests ∧ sortedKey dests = key ∧ GivesCosts opts view.adj dests cost

section
variable {view : Snapshot} {turn : Turn} {dests : List String} {sender : String}

theorem Turn.Fresh.hopsFor (h : turn.Fresh opts view) (hdests : Known opts dests) :
    (hopsFor opts view dests turn).2.Fresh opts view ∧ ∃ dests', Known opts dests' ∧
      sortedKey dests' = sortedKey dests ∧
        (Scenario.hopsFor opts view dests turn).1 = bfsHops opts.nodes view.adj dests' := by
  rw [Scenario.hopsFor]
  dsimp only
  split
  · next hops hkept => exact ⟨h, h.hops _ _ hkept⟩
  · refine ⟨⟨fun key hops hkept => ?_, h.cost⟩, dests, hdests, rfl, rfl⟩
    rw [OrderedMap.get?_set] at hkept
    split_ifs at hkept with hkey
    · exact ⟨dests, hdests, hkey.symm, (Option.some.inj hkept).symm⟩
    · exact h.hops key hops hkept

theorem Turn.Fresh.costFor (h : turn.Fresh opts view) (hnav : Navigable opts view.adj)
    (hcomma : ∀ n ∈ opts.nodes, ',' ∉ n.id.toList) (hdests : Known opts dests) :
    (costFor opts view dests turn).2.Fresh opts view ∧
      GivesCosts opts view.adj dests (Scenario.costFor opts view dests turn).1 := by
  have hclean : ∀ {dests}, Known opts dests → ∀ d ∈ dests, ',' ∉ d.toList := by
    intro dests hdests d hd
    obtain ⟨n, hn, rfl⟩ := hdests.known d hd
    exact hcomma n hn
  have hsame : ∀ {dests' cost}, Known opts dests' → sortedKey dests' = sortedKey dests →
      GivesCosts opts view.adj dests' cost → GivesCosts opts view.adj dests cost := by
    intro dests' cost hdests' hkey hcost
    exact hcost.of_mem (mem_iff_of_sortedKey hdests'.ne_nil hdests.ne_nil (hclean hdests') (hclean hdests) hkey)
  rw [Scenario.costFor]
  split_ifs with hmetric
  · obtain ⟨hfresh, dests', hdests', hkey, hhops⟩ := h.hopsFor hdests
    refine ⟨hfresh, hsame hdests' hkey ?_⟩
    dsimp only
    rw [hhops]
    exact givesCosts_bfsHops hnav hmetric hdests'.known
  · dsimp only
    split
    · next cost hkept =>
      obtain ⟨dests', hdests', hkey, hcost⟩ := h.cost _ _ hkept
      exact ⟨h, hsame hdests' hkey hcost⟩
    · have hcost := givesCosts_dijkstra hnav hmetric dests
      refine ⟨⟨h.hops, fun key cost hkept => ?_⟩, hcost⟩
      rw [OrderedMap.get?_set] at hkept
      split_ifs at hkept with hkey
      · exact ⟨dests, hdests, hkey.symm, Option.some.inj hkept ▸ hcost⟩
      · exact h.cost key cost hkept

/-! ### Next hops -/

/-- The first of a list sorted by `f`, then by `g`. -/
theorem le_of_mem_sorted {α : Type*} (f g : α → ℚ) {l : List α} {c : α}
    (hc : c ∈ (l.insertionSort fun x y =>
      (if f x - f y ≠ 0 then f x - f y else g x - g y) ≤ 0).take 1) : c ∈ l ∧ ∀ x ∈ l, f c ≤ f x := by
  have hiff : ∀ x y, (if f x - f y ≠ 0 then f x - f y else g x - g y) ≤ 0 ↔
      f x < f y ∨ f x = f y ∧ g x ≤ g y := by
    intro x y
    split_ifs with hne
    · rw [sub_nonpos, le_iff_lt_or_eq]
      exact or_congr_right (iff_of_false (sub_ne_zero.mp hne) fun h => sub_ne_zero.mp hne h.1)
    · have heq := sub_eq_zero.mp (not_not.mp hne)
      rw [sub_nonpos, and_iff_right heq, or_iff_right heq.not_lt]
  let r : α → α → Prop := fun x y => (if f x - f y ≠ 0 then f x - f y else g x - g y) ≤ 0
  have htotal : Std.Total r := by
    refine ⟨fun x y => ?_⟩
    change (_ ≤ (0 : ℚ)) ∨ (_ ≤ (0 : ℚ))
    rw [hiff, hiff]
    rcases lt_trichotomy (f x) (f y) with hlt | heq | hlt
    · exact Or.inl (Or.inl hlt)
    · exact (le_total (g x) (g y)).imp (fun hle => Or.inr ⟨heq, hle⟩) fun hle => Or.inr ⟨heq.symm, hle⟩
    · exact Or.inr (Or.inl hlt)
  have htrans : IsTrans α r := by
    refine ⟨fun x y z hxy hyz => ?_⟩
    rcases (hiff x y).mp hxy with hlt | ⟨heq, hle⟩
    · rcases (hiff y z).mp hyz with hlt' | ⟨heq', -⟩
      · exact (hiff x z).mpr (Or.inl (hlt.trans hlt'))
      · exact (hiff x z).mpr (Or.inl (heq' ▸ hlt))
    · rcases (hiff y z).mp hyz with hlt' | ⟨heq', hle'⟩
      · exact (hiff x z).mpr (Or.inl (heq ▸ hlt'))
      · exact (hiff x z).mpr (Or.inr ⟨heq.trans heq', hle.trans hle'⟩)
  refine ⟨(List.mem_insertionSort _).mp (List.mem_of_mem_take hc), fun x hx => ?_⟩
  have hsorted : (l.insertionSort r).Pairwise r := List.pairwise_insertionSort r l
  have hx' : x ∈ l.insertionSort r := (List.mem_insertionSort r).mpr hx
  change c ∈ (l.insertionSort r).take 1 at hc
  cases hlist : l.insertionSort r with
  | nil =>
    rw [hlist] at hx'
    cases hx'
  | cons first rest =>
    rw [hlist] at hc hx' hsorted
    obtain rfl := List.mem_singleton.mp hc
    rcases List.mem_cons.mp hx' with rfl | hx'
    · exact le_rfl
    · have hle := (hiff c x).mp ((List.pairwise_cons.mp hsorted).1 x hx')
      exact hle.elim le_of_lt fun h => h.1.le

/-- The only candidate is on a cheapest path, if there is a path at all. -/
theorem least_of_candidatesOf {cost : OrderedMap String ℚ} (hnav : Navigable opts view.adj)
    (hcost : GivesCosts opts view.adj dests cost) {c : String × LinkState}
    (hc : c ∈ candidatesOf opts view (some cost) sender) {d : ℚ}
    (hd : IsLeast (opts.costsTo view.adj dests sender) d) :
    ∃ d', IsLeast (opts.costsTo view.adj dests c.1) d' ∧ d' + opts.edgeCost c.2 = d := by
  rw [candidatesOf] at hc
  dsimp only at hc
  rw [hcost.get?_iff.mpr hd] at hc
  obtain ⟨hcloser, hfirst⟩ := le_of_mem_sorted (fun c : String × LinkState =>
    opts.edgeCost c.2 + (cost.get? c.1).getD 0) (fun c => c.2.rank) hc
  obtain ⟨hadj, hnear⟩ := List.mem_filter.mp hcloser
  obtain ⟨d', hd', hlt⟩ : ∃ d', cost.get? c.1 = some d' ∧ d' < d := by
    cases hget : cost.get? c.1 with
    | none =>
      rw [hget] at hnear
      cases hnear
    | some d' =>
      rw [hget] at hnear
      exact ⟨d', rfl, of_decide_eq_true hnear⟩
  have hleast := hcost.get?_iff.mp hd'
  refine ⟨d', hleast, le_antisymm ?_ (LeastCosts.le_through hnav.symmetric hd hadj hleast)⟩
  have hnonneg : ∀ u, ∀ e ∈ view.adj u, 0 ≤ opts.edgeCost e.2 := fun u e he => (hnav.pos u e he).le
  have hout : sender ∉ dests := by
    intro hmem
    have hzero : d ≤ 0 := hd.2 (LeastCosts.Path.source hmem)
    exact ((LeastCosts.Path.nonneg hnonneg hleast.1).trans_lt hlt).not_ge hzero
  obtain ⟨e, he, dNext, hnext, hsum⟩ := LeastCosts.exists_next hnav.symmetric hd hout
  have hget := hcost.get?_iff.mpr hnext
  have hcloser' : e ∈ (view.adj sender).filter fun c => (cost.get? c.1).any fun d' => d' < d := by
    refine List.mem_filter.mpr ⟨he, ?_⟩
    rw [hget]
    refine decide_eq_true ?_
    rw [← hsum]
    exact lt_add_of_pos_right dNext (hnav.pos sender e he)
  have hle := hfirst e hcloser'
  rw [hd', hget, Option.getD_some, Option.getD_some] at hle
  rw [← hsum, add_comm, add_comm dNext]
  exact hle

/-! ### Transfers -/

/-- The receiver of a transfer is on a cheapest path from its sender to a destination that was
pending, if the sender has a path. -/
def Transfer.Routed (opts : SimOptions) (e : Transfer) : Prop :=
  ∃ m ∈ opts.messages, ∃ links dests, m.id = e.message ∧ opts.linksAt e.t = .ok links ∧ dests ≠ [] ∧
    (∀ d ∈ dests, d ∈ destinationsOf m ∧ ∃ n, opts.byId d = some n ∧ isOn n e.t = true) ∧
      ((opts.costsTo (adjacencyOf links) dests e.sender).Nonempty →
        ∃ link d d', (e.receiver, link) ∈ adjacencyOf links e.sender ∧
          IsLeast (opts.costsTo (adjacencyOf links) dests e.sender) d ∧
          IsLeast (opts.costsTo (adjacencyOf links) dests e.receiver) d' ∧ d' + opts.edgeCost link = d)

/-- The distances kept during a step are right, and so is every transfer so far. -/
structure Turn.OnRoute (opts : SimOptions) (view : Snapshot) (turn : Turn) : Prop where
  fresh : turn.Fresh opts view
  routed : ∀ e ∈ turn.sim.transfers, e.Routed opts

theorem receive_transfers (opts : SimOptions) (t : ℚ) (m : Message) (pending : List String)
    (sender nb : String) (newHeld : ℚ) (s : Sim) :
    (s.receive opts t m pending sender nb newHeld).transfers = s.transfers ++ [⟨m.id, sender, nb, t, newHeld⟩] := by
  unfold Sim.receive
  dsimp only
  split_ifs
  all_goals rfl

theorem Turn.OnRoute.sendTo {pending : List String} {available : ℚ} {candidate : String × LinkState}
    (h : turn.OnRoute opts view)
    (hroute : ∀ newHeld, (⟨m.id, sender, candidate.1, t, newHeld⟩ : Transfer).Routed opts) :
    (sendTo opts t m pending sender available turn candidate).OnRoute opts view := by
  have hreceive : ∀ (s : Sim) (newHeld : ℚ), s.transfers = turn.sim.transfers →
      ∀ e ∈ (s.receive opts t m pending sender candidate.1 newHeld).transfers, e.Routed opts := by
    intro s newHeld hsame e he
    rw [receive_transfers, hsame] at he
    rcases List.mem_append.mp he with he | he
    · exact h.routed e he
    · rw [List.mem_singleton.mp he]
      exact hroute newHeld
  have hshort : ∀ want recvHeld bps,
      (sendShort opts t m pending sender want recvHeld candidate.1 bps turn).OnRoute opts view := by
    intro want recvHeld bps
    rw [sendShort]
    split_ifs
    · exact h
    · exact ⟨⟨h.fresh.hops, h.fresh.cost⟩, hreceive _ _ rfl⟩
  rw [Scenario.sendTo]
  dsimp only
  split_ifs
  · exact h
  · exact h
  · exact h
  · cases candidate.2 with
    | lora sf rateBps =>
      dsimp only
      rw [sendLora]
      dsimp only
      split_ifs
      · exact h
      · exact ⟨⟨h.fresh.hops, h.fresh.cost⟩, h.routed⟩
      · exact ⟨⟨h.fresh.hops, h.fresh.cost⟩, hreceive _ _ rfl⟩
    | wifi rateBps => exact hshort _ _ _
    | ble rateBps => exact hshort _ _ _

theorem expireCopy_transfers (opts : SimOptions) (t : ℚ) (m : Message) (reach : OrderedMap String ℕ)
    (sender : String) (s : Sim) : (expireCopy opts t m reach sender s).1.transfers = s.transfers := by
  rw [expireCopy]
  cases opts.relayCarryTtlS with
  | none => rfl
  | some ttl =>
    dsimp only
    split_ifs
    all_goals rfl

theorem Turn.OnRoute.sendFrom {pending : List String} {reach : OrderedMap String ℕ}
    {cost : OrderedMap String ℚ} (h : turn.OnRoute opts view) (node : NodeSpec)
    (hroute : ∀ c ∈ candidatesOf opts view (some cost) node.id, ∀ newHeld,
      (⟨m.id, node.id, c.1, t, newHeld⟩ : Transfer).Routed opts) :
    (Scenario.sendFrom opts t view m pending reach (some cost) turn node).OnRoute opts view := by
  have hexpire : ({ turn with sim := (expireCopy opts t m reach node.id turn.sim).1 } : Turn).OnRoute
      opts view := by
    refine ⟨⟨h.fresh.hops, h.fresh.cost⟩, fun e he => ?_⟩
    rw [expireCopy_transfers] at he
    exact h.routed e he
  rw [Scenario.sendFrom]
  dsimp only
  split_ifs
  · exact h
  · exact h
  · exact hexpire
  · exact List.foldlRecOn (motive := fun turn : Turn => turn.OnRoute opts view) _ _ hexpire
      fun turn hturn c hc => hturn.sendTo (hroute c hc)

/-- The destinations that are pending are some of the message's, and nodes that are on. -/
theorem mem_pending {pending : List String} {s : Sim}
    (h : (destinationsOf m).filterM (isPending opts t m s) = .ok pending) {d : String} (hd : d ∈ pending) :
    d ∈ destinationsOf m ∧ s.reachedAt m.id d = none ∧ ∃ n, opts.byId d = some n ∧ isOn n t = true := by
  obtain ⟨hdest, hpending⟩ := mem_filterM h d hd
  rw [isPending] at hpending
  split_ifs at hpending with hreached
  · cases hpending
  · refine ⟨hdest, not_not.mp hreached, ?_⟩
    cases hid : opts.byId d with
    | none =>
      rw [hid] at hpending
      cases hpending
    | some n =>
      rw [hid] at hpending
      exact ⟨n, rfl, Except.ok.inj hpending⟩

theorem Turn.OnRoute.sendMessage {turn' : Turn} (h : turn.OnRoute opts view)
    (hcustody : opts.policy = .custody) (hcomma : ∀ n ∈ opts.nodes, ',' ∉ n.id.toList)
    (hm : m ∈ opts.messages) (hlinks : opts.linksAt t = .ok links) (hadj : view.adj = adjacencyOf links)
    (hnav : Navigable opts view.adj) (hturn' : Scenario.sendMessage opts t view turn m = .ok turn') :
    turn'.OnRoute opts view := by
  rw [Scenario.sendMessage] at hturn'
  split_ifs at hturn'
  · exact Except.ok.inj hturn' ▸ h
  · cases hpending : (destinationsOf m).filterM (isPending opts t m turn.sim) with
    | error e =>
      rw [hpending] at hturn'
      cases hturn'
    | ok pending =>
      rw [hpending, ok_bind] at hturn'
      split_ifs at hturn' with hnone
      · exact Except.ok.inj hturn' ▸ h
      · have hne : pending ≠ [] := fun hnil => hnone (List.length_eq_zero_iff.mpr hnil)
        have hknown : Known opts pending := by
          refine ⟨hne, fun d hd => ?_⟩
          obtain ⟨-, -, n, hn, -⟩ := mem_pending hpending hd
          exact ⟨n, List.mem_of_find?_eq_some hn, of_decide_eq_true (List.find?_some (p := fun n => decide (NodeSpec.id n = d)) hn)⟩
        have hfresh := (h.fresh.hopsFor hknown).1
        have hcost := hfresh.costFor hnav hcomma hknown
        dsimp only at hturn'
        rw [hcustody] at hturn'
        obtain rfl := Except.ok.inj hturn'
        refine List.foldlRecOn (motive := fun turn : Turn => turn.OnRoute opts view) _ _
          ⟨hcost.1, ?_⟩ fun turn hturn node _ => hturn.sendFrom node fun c hc newHeld => ?_
        · rw [costFor_sim, hopsFor_sim]
          exact h.routed
        · refine ⟨m, hm, links, pending, rfl, hlinks, hne, fun d hd => ?_, fun hpath => ?_⟩
          · obtain ⟨hdest, -, hon⟩ := mem_pending hpending hd
            exact ⟨hdest, hon⟩
          · rw [← hadj] at hpath ⊢
            obtain ⟨d, hd⟩ := hcost.2.exists_isLeast hpath
            obtain ⟨d', hd', hsum⟩ := least_of_candidatesOf hnav hcost.2 hc hd
            exact ⟨c.2, d, d', candidatesOf_subset opts view _ node.id hc, hd, hd', hsum⟩

end

/-! ### Runs -/

theorem createMessage_transfers (h : createMessage opts t s m = .ok s') : s'.transfers = s.transfers := by
  rw [createMessage] at h
  split_ifs at h
  · cases hsource : opts.byId m.source with
    | none =>
      rw [hsource] at h
      cases h
    | some n =>
      rw [hsource] at h
      dsimp only at h
      split_ifs at h
      · rw [← Except.ok.inj h]
      · rw [← Except.ok.inj h]
  · rw [← Except.ok.inj h]

theorem routed_simStep (hcustody : opts.policy = .custody) (hcomma : ∀ n ∈ opts.nodes, ',' ∉ n.id.toList)
    (husable : LinksUsable opts) (h : ∀ e ∈ s.transfers, e.Routed opts) (hs' : simStep opts t s = .ok s') :
    ∀ e ∈ s'.transfers, e.Routed opts := by
  rw [simStep] at hs'
  cases hcreated : opts.messages.foldlM (createMessage opts t) { s with steps := s.steps + 1 } with
  | error e =>
    rw [hcreated] at hs'
    cases hs'
  | ok created =>
    rw [hcreated, ok_bind] at hs'
    have htransfers : created.transfers = s.transfers := by
      refine foldlM_invariant (fun s' : Sim => s'.transfers = s.transfers) (fun m _ a b ha hb => ?_) ?_ hcreated
      · exact (createMessage_transfers hb).trans ha
      · rfl
    dsimp only at hs'
    cases hlinks : opts.linksAt t with
    | error e =>
      rw [hlinks] at hs'
      cases hs'
    | ok links =>
      rw [hlinks, ok_bind] at hs'
      generalize hstart : creditChannel opts (observe opts t links (refillBuckets opts created)) = start
        at hs'
      have hkept : start.transfers = s.transfers := by
        rw [← hstart]
        exact htransfers
      cases hsent : opts.sorted.foldlM (sendMessage opts t ⟨adjacencyOf links, start.held⟩)
          (Turn.start start) with
      | error e =>
        rw [hsent] at hs'
        cases hs'
      | ok turn =>
        rw [hsent, ok_bind] at hs'
        obtain rfl := Except.ok.inj hs'
        have hnav := navigable_of_linksAt husable hlinks
        refine (foldlM_invariant (fun turn : Turn => turn.OnRoute opts ⟨adjacencyOf links, start.held⟩)
          (fun m hm a b ha hb => ?_) ?_ hsent).routed
        · exact ha.sendMessage hcustody hcomma ((List.mem_insertionSort _).mp hm) hlinks rfl hnav hb
        · refine ⟨⟨fun key hops hkept => ?_, fun key cost hkept => ?_⟩, fun e he => h e (hkept ▸ he)⟩
          · cases hkept
          · cases hkept

/-- A hiker and a shelter that reach each other over a slow link, and both a portable node over Wi-Fi. -/
def shelterRun : SimOptions where
  nodes := ["hiker", "portable", "shelter"].map fun id => ⟨id, .box, [⟨⟨0, 0, 0⟩, 0⟩], none, none⟩
  messages := [⟨"sos", 1000, 0, "hiker", .one "shelter", 0⟩]
  params := {
    env := {
      bestLink := fun a _ b _ _ =>
        if a.id = "hiker" ∧ b.id = "shelter" then some (.lora .sf12 none) else some (.wifi none)
      elevationAt := none }
    reg := { dutyCycle := 1 / 100, maxDwellS := none }
    phy := ⟨125000, 5, 8, true, true, by norm_num⟩
    shortRange := ⟨200000, 8000000⟩
    loraFrameBytes := 200
    loraFrameOverheadBytes := 20
    protocolOverhead := 2
    channelEfficiency := 1 / 2
    overhead_pos := two_pos }
  horizonS := 20
  stepS := 10
  policy := .custody
  relayCarryTtlS := none
  extraLossDb := none
  routingMetric := some .airtime
  nodup_nodes := by decide
  nodup_messages := by decide
  step_pos := by norm_num

end Arald.Scenario
