import Arald.Scenario.FailureReports

/-!
# The residual graph

What the state of a failure means: a simple graph on the node ids whose edges
join active nodes and survive the areas. The union-find represents its
components, and the breadth-first search its distances from the sinks.
-/

namespace Arald.Scenario

open Foundations

def Joins (e : ResilienceEdge) (u v : String) : Prop := e.a = u ∧ e.b = v ∨ e.a = v ∧ e.b = u

theorem joins_comm {e : ResilienceEdge} {u v : String} : Joins e u v ↔ Joins e v u := Or.comm

/-- The graph of a list of edges. -/
def linkGraph (edges : List ResilienceEdge) : SimpleGraph String where
  Adj u v := u ≠ v ∧ ∃ e ∈ edges, Joins e u v
  symm := ⟨fun _ _ h => ⟨h.1.symm, h.2.imp fun _ he => ⟨he.1, joins_comm.mp he.2⟩⟩⟩
  loopless := ⟨fun _ h => h.1 rfl⟩

variable {edges : List ResilienceEdge} {active : List String} {u v w : String}

theorem reachable_of_joins {e : ResilienceEdge} (he : e ∈ edges) (h : Joins e u v) :
    (linkGraph edges).Reachable u v := by
  by_cases huv : u = v
  · rw [huv]
  · exact SimpleGraph.Adj.reachable ⟨huv, e, he, h⟩

/-- The edges join nodes of the list. -/
def Within (edges : List ResilienceEdge) (nodes : List String) : Prop :=
  ∀ e ∈ edges, e.a ∈ nodes ∧ e.b ∈ nodes

theorem Within.of_joins (h : Within edges active) {e : ResilienceEdge} (he : e ∈ edges)
    (hj : Joins e u v) : u ∈ active ∧ v ∈ active := by
  obtain ⟨ha, hb⟩ := h e he
  rcases hj with ⟨rfl, rfl⟩ | ⟨rfl, rfl⟩
  · exact ⟨ha, hb⟩
  · exact ⟨hb, ha⟩

theorem Within.mem_of_reachable (h : Within edges active) (hu : u ∈ active)
    (hr : (linkGraph edges).Reachable u v) : v ∈ active := by
  obtain ⟨p⟩ := hr
  induction p with
  | nil => exact hu
  | cons hadj _ ih =>
    obtain ⟨-, e, he, hj⟩ := hadj
    exact ih (h.of_joins he hj).2

/-! ### Adjacency and search -/

theorem mem_linkEnds {adj : String → List String} {e : ResilienceEdge} :
    v ∈ linkEnds adj e u ↔ v ∈ adj u ∨ Joins e u v := by
  unfold linkEnds Joins
  by_cases hb : u = e.b
  · rw [hb, Function.update_self]
    by_cases hba : e.b = e.a
    · rw [hba, Function.update_self, List.mem_append, List.mem_append, List.mem_singleton]
      constructor
      · rintro ((h | h) | h)
        · exact Or.inl h
        · exact Or.inr (Or.inl ⟨rfl, h.symm⟩)
        · exact Or.inr (Or.inl ⟨rfl, h.symm⟩)
      · rintro (h | ⟨-, h⟩ | ⟨h, -⟩)
        · exact Or.inl (Or.inl h)
        · exact Or.inr h.symm
        · exact Or.inr h.symm
    · rw [Function.update_of_ne hba, List.mem_append, List.mem_singleton]
      constructor
      · rintro (h | h)
        · exact Or.inl h
        · exact Or.inr (Or.inr ⟨h.symm, rfl⟩)
      · rintro (h | ⟨h, -⟩ | ⟨h, -⟩)
        · exact Or.inl h
        · exact absurd h.symm hba
        · exact Or.inr h.symm
  · rw [Function.update_of_ne hb]
    by_cases ha : u = e.a
    · rw [ha, Function.update_self, List.mem_append, List.mem_singleton]
      constructor
      · rintro (h | h)
        · exact Or.inl h
        · exact Or.inr (Or.inl ⟨rfl, h.symm⟩)
      · rintro (h | ⟨-, h⟩ | ⟨-, h⟩)
        · exact Or.inl h
        · exact Or.inr h.symm
        · exact absurd (ha.trans h.symm) hb
    · rw [Function.update_of_ne ha]
      constructor
      · exact Or.inl
      · rintro (h | ⟨h, -⟩ | ⟨-, h⟩)
        · exact h
        · exact absurd h.symm ha
        · exact absurd h.symm hb

theorem mem_foldl_linkEnds {adj : String → List String} :
    v ∈ edges.foldl linkEnds adj u ↔ v ∈ adj u ∨ ∃ e ∈ edges, Joins e u v := by
  induction edges generalizing adj with
  | nil => simp only [List.foldl_nil, List.not_mem_nil, false_and, exists_false, or_false]
  | cons e edges ih => rw [List.foldl_cons, ih, mem_linkEnds, List.exists_mem_cons_iff, or_assoc]

theorem mem_adjacency : v ∈ adjacency edges u ↔ ∃ e ∈ edges, Joins e u v := by
  rw [adjacency, mem_foldl_linkEnds, or_iff_right List.not_mem_nil]

/-- A path of the search is a walk, a path over an edge from a node to itself a shorter one. -/
theorem exists_walk_of_path {sources : List String} {n : ℕ}
    (h : Search.Path (adjacency edges) sources n v) :
    ∃ s ∈ sources, ∃ p : (linkGraph edges).Walk v s, p.length ≤ n := by
  induction h with
  | source hv => exact ⟨_, hv, .nil, le_rfl⟩
  | @step n u v _ hadj ih =>
    obtain ⟨s, hs, p, hp⟩ := ih
    obtain ⟨e, he, hj⟩ := mem_adjacency.mp hadj
    by_cases huv : v = u
    · subst huv
      exact ⟨s, hs, p, hp.trans (Nat.le_succ n)⟩
    · have hstep : (linkGraph edges).Adj v u := ⟨huv, e, he, joins_comm.mp hj⟩
      exact ⟨s, hs, .cons hstep p, Nat.succ_le_succ hp⟩

theorem path_of_walk {sources : List String} {s : String} (hs : s ∈ sources)
    (p : (linkGraph edges).Walk v s) : Search.Path (adjacency edges) sources p.length v := by
  induction p with
  | nil => exact .source hs
  | cons hadj p ih =>
    obtain ⟨-, e, he, hj⟩ := hadj
    exact .step (ih hs) (mem_adjacency.mpr ⟨e, he, joins_comm.mp hj⟩)

/-- `d` is the length of a shortest walk from `v` to one of the sinks. -/
def ShortestTo (G : SimpleGraph String) (sink : String → Prop) (v : String) (d : ℕ) : Prop :=
  (∃ s, sink s ∧ ∃ p : G.Walk v s, p.length = d) ∧ ∀ s, sink s → ∀ p : G.Walk v s, d ≤ p.length

variable {ctx : ResilienceContext}

theorem mem_sources : u ∈ active.filter (isSink ctx) ↔ u ∈ active ∧ isSink ctx u = true :=
  List.mem_filter

theorem get?_hops_iff (hactive : active.Nodup) (hwithin : Within edges active) {d : ℕ} :
    (stateFromEdges ctx active edges).hops.get? v = some d ↔
      ShortestTo (linkGraph edges) (fun s => s ∈ active ∧ isSink ctx s = true) v d := by
  have hall : ∀ n w, Search.Path (adjacency edges) (active.filter (isSink ctx)) n w → w ∈ active := by
    intro n w hpath
    obtain ⟨s, hs, p, -⟩ := exists_walk_of_path hpath
    exact hwithin.mem_of_reachable (mem_sources.mp hs).1 ⟨p.reverse⟩
  refine (Search.get?_loop_iff (hactive.filter _) hall le_rfl v d).trans ⟨?_, ?_⟩
  · rintro ⟨hpath, hmin⟩
    obtain ⟨s, hs, p, hp⟩ := exists_walk_of_path hpath
    have hle := hmin _ (path_of_walk hs p)
    exact ⟨⟨s, mem_sources.mp hs, p, le_antisymm hp hle⟩, fun s' hs' p' =>
      hmin _ (path_of_walk (mem_sources.mpr hs') p')⟩
  · rintro ⟨⟨s, hs, p, rfl⟩, hmin⟩
    refine ⟨path_of_walk (mem_sources.mpr hs) p, fun m hm => ?_⟩
    obtain ⟨s', hs', p', hp'⟩ := exists_walk_of_path hm
    exact (hmin s' (mem_sources.mp hs') p').trans hp'

theorem exists_shortestTo {G : SimpleGraph String} (sink : String → Prop) {s : String}
    (hs : sink s) (hr : G.Reachable v s) : ∃ d, ShortestTo G sink v d := by
  classical
  have hex : ∃ d, ∃ s, sink s ∧ ∃ p : G.Walk v s, p.length = d := by
    obtain ⟨p⟩ := hr
    exact ⟨p.length, s, hs, p, rfl⟩
  exact ⟨Nat.find hex, Nat.find_spec hex, fun s' hs' p => Nat.find_min' hex ⟨s', hs', p, rfl⟩⟩

theorem mem_connected_iff (hactive : active.Nodup) (hwithin : Within edges active) :
    v ∈ (stateFromEdges ctx active edges).connected ↔
      ∃ s, (s ∈ active ∧ isSink ctx s = true) ∧ (linkGraph edges).Reachable v s := by
  have hkeys : v ∈ (stateFromEdges ctx active edges).connected ↔
      ∃ d, (stateFromEdges ctx active edges).hops.get? v = some d :=
    OrderedMap.mem_keys.trans (exists_congr fun d => OrderedMap.get?_eq_some.symm)
  rw [hkeys]
  constructor
  · rintro ⟨d, hd⟩
    obtain ⟨⟨s, hs, p, -⟩, -⟩ := (get?_hops_iff hactive hwithin).mp hd
    exact ⟨s, hs, ⟨p⟩⟩
  · rintro ⟨s, hs, hr⟩
    obtain ⟨d, hd⟩ := exists_shortestTo (fun s => s ∈ active ∧ isSink ctx s = true) hs hr
    exact ⟨d, (get?_hops_iff hactive hwithin).mpr hd⟩

/-! ### Components -/

theorem index_lt (hu : u ∈ ctx.spec.ids) : ctx.index u < ctx.spec.nodes.length := by
  have h := List.idxOf_lt_length_iff.mpr hu
  rwa [ResilienceGraphSpec.ids, List.length_map] at h

theorem index_inj (hu : u ∈ ctx.spec.ids) (h : ctx.index u = ctx.index v) : u = v :=
  (List.idxOf_inj hu).mp h

def indexPairs (ctx : ResilienceContext) (edges : List ResilienceEdge) : List (ℕ × ℕ) :=
  edges.map fun e => (ctx.index e.a, ctx.index e.b)

/-- The classes of the union-find are those of reachability. -/
theorem joined_iff_reachable (hwithin : Within edges ctx.spec.ids) (hu : u ∈ ctx.spec.ids)
    (hv : v ∈ ctx.spec.ids) :
    UnionFind.Joined Eq (indexPairs ctx edges) (ctx.index u) (ctx.index v) ↔
      (linkGraph edges).Reachable u v := by
  constructor
  · have hall : ∀ x y, UnionFind.Joined Eq (indexPairs ctx edges) x y →
        x = y ∨ ∃ u v, u ∈ ctx.spec.ids ∧ v ∈ ctx.spec.ids ∧ ctx.index u = x ∧ ctx.index v = y ∧
          (linkGraph edges).Reachable u v := by
      intro x y hjoined
      induction hjoined with
      | rel x y h =>
        refine h.imp_right fun hmem => ?_
        obtain ⟨e, he, heq⟩ := List.mem_map.mp hmem
        obtain ⟨ha, hb⟩ := hwithin e he
        exact ⟨e.a, e.b, ha, hb, congrArg Prod.fst heq, congrArg Prod.snd heq,
          reachable_of_joins he (Or.inl ⟨rfl, rfl⟩)⟩
      | refl x => exact Or.inl rfl
      | symm x y _ ih =>
        rcases ih with rfl | ⟨u, v, hu, hv, hx, hy, hr⟩
        · exact Or.inl rfl
        · exact Or.inr ⟨v, u, hv, hu, hy, hx, hr.symm⟩
      | trans x y z _ _ ih ih' =>
        rcases ih with rfl | ⟨u, v, hu, hv, hx, hy, hr⟩
        · exact ih'
        · rcases ih' with rfl | ⟨u', v', hu', hv', hy', hz, hr'⟩
          · exact Or.inr ⟨u, v, hu, hv, hx, hy, hr⟩
          · obtain rfl := index_inj hv (hy.trans hy'.symm)
            exact Or.inr ⟨u, v', hu, hv', hx, hz, hr.trans hr'⟩
    intro hjoined
    rcases hall _ _ hjoined with heq | ⟨u', v', hu', hv', hx, hy, hr⟩
    · rw [index_inj hu heq]
    · rwa [index_inj hu' hx, index_inj hv' hy] at hr
  · rintro ⟨p⟩
    induction p with
    | nil => exact .refl _
    | @cons u w v hadj p ih =>
      obtain ⟨-, e, he, hj⟩ := hadj
      have hmem : (ctx.index e.a, ctx.index e.b) ∈ indexPairs ctx edges :=
        List.mem_map_of_mem (f := fun e => (ctx.index e.a, ctx.index e.b)) he
      refine .trans _ _ _ ?_ (ih (hwithin.of_joins he hj).2 hv)
      rcases hj with ⟨rfl, rfl⟩ | ⟨rfl, rfl⟩
      · exact .rel _ _ (Or.inr hmem)
      · exact .symm _ _ (.rel _ _ (Or.inr hmem))

/-- The roots found for nodes separate the components. -/
theorem exists_root (ctx : ResilienceContext) (hwithin : Within edges ctx.spec.ids) :
    ∃ root : String → ℕ,
      (∀ u ∈ ctx.spec.ids, ∀ v ∈ ctx.spec.ids, root u = root v ↔ (linkGraph edges).Reachable u v) ∧
        ∀ nodes : List String, (∀ u ∈ nodes, u ∈ ctx.spec.ids) →
          ((unionEdges ctx edges).findAll (nodes.map ctx.index)).1 = nodes.map root := by
  have hsize : (unionEdges ctx edges).size = ctx.spec.nodes.length := UnionFind.size_unionAll ..
  have hrep : UnionFind.Represents (UnionFind.Joined Eq (indexPairs ctx edges))
      (unionEdges ctx edges) := by
    refine (UnionFind.represents_new _).unionAll fun e he => ?_
    obtain ⟨f, hf, rfl⟩ := List.mem_map.mp he
    obtain ⟨ha, hb⟩ := hwithin f hf
    exact ⟨index_lt ha, index_lt hb⟩
  obtain ⟨root, hroot, hall⟩ := hrep.exists_root
  rw [hsize] at hroot hall
  refine ⟨fun u => root (ctx.index u), fun u hu v hv => ?_, fun nodes hnodes => ?_⟩
  · exact (hroot _ (index_lt hu) _ (index_lt hv)).trans (joined_iff_reachable hwithin hu hv)
  · rw [hall, List.map_map]
    · rfl
    · intro x hx
      obtain ⟨u, hu, rfl⟩ := List.mem_map.mp hx
      exact index_lt (hnodes u hu)

/-- Two functions that identify the same elements of a list have as many values on it. -/
theorem card_image_eq_of_iff {α β γ : Type*} [DecidableEq β] {l : List α} {f : α → β} {g : α → γ}
    (h : ∀ x ∈ l, ∀ y ∈ l, f x = f y ↔ g x = g y) :
    (l.map f).dedup.length = (g '' {x | x ∈ l}).ncard := by
  classical
  have hf : (l.map f).dedup.length = (l.toFinset.image f).card := by
    rw [← List.card_toFinset]
    congr 1
    ext b
    simp only [List.mem_toFinset, List.mem_map, Finset.mem_image]
  have hg : (g '' {x | x ∈ l}).ncard = (l.toFinset.image g).card := by
    rw [← Set.ncard_coe_finset]
    congr 1
    ext c
    simp only [Set.mem_image, Set.mem_ofPred_eq, Finset.coe_image, List.coe_toFinset]
  rw [hf, hg]
  have hchoose : ∀ b ∈ l.toFinset.image f, ∃ x, x ∈ l ∧ f x = b := by
    intro b hb
    obtain ⟨x, hx, hxb⟩ := Finset.mem_image.mp hb
    exact ⟨x, List.mem_toFinset.mp hx, hxb⟩
  choose pick hpick hval using hchoose
  refine Finset.card_bij (fun b hb => g (pick b hb)) (fun b hb => ?_) (fun b hb c hc heq => ?_)
    fun c hc => ?_
  · exact Finset.mem_image_of_mem g (List.mem_toFinset.mpr (hpick b hb))
  · rw [← hval b hb, ← hval c hc]
    exact (h _ (hpick b hb) _ (hpick c hc)).mpr heq
  · obtain ⟨x, hx, rfl⟩ := Finset.mem_image.mp hc
    have hx' := List.mem_toFinset.mp hx
    have hfx : f x ∈ l.toFinset.image f := Finset.mem_image_of_mem f hx
    exact ⟨f x, hfx, (h _ (hpick _ hfx) _ hx').mp (hval _ hfx)⟩

/-- The number of connected components among the nodes of a list. -/
noncomputable def componentCount (G : SimpleGraph String) (nodes : List String) : ℕ :=
  (G.connectedComponentMk '' {v | v ∈ nodes}).ncard

theorem fragments_eq (hwithin : Within edges ctx.spec.ids)
    (hactive : ∀ u ∈ active, u ∈ ctx.spec.ids) :
    (stateFromEdges ctx active edges).fragments = componentCount (linkGraph edges) active := by
  obtain ⟨root, hroot, hall⟩ := exists_root ctx hwithin
  change ((unionEdges ctx edges).findAll (active.map ctx.index)).1.dedup.length = _
  rw [hall active hactive]
  refine card_image_eq_of_iff fun u hu v hv => ?_
  rw [hroot u (hactive u hu) v (hactive v hv), SimpleGraph.ConnectedComponent.eq]

end Arald.Scenario
