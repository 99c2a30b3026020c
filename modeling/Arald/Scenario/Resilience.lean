import Arald.Foundations.BreadthFirst
import Arald.Foundations.Outcomes
import Arald.Foundations.UnionFind
import Arald.Scenario.ObstacleAreas

/-!
# Failure simulation

The graph core of the resilience analysis: a graph of links, the state that is
left after a failure, opportunistic arrivals over a timeline of graphs, the
dependencies on single nodes, the report of a failure and the score.

Instants, losses and fractions are exact. `toLocal` of a frame and the radio
model behind `reevaluate` are parameters of the specification, and so is
`localeCompare`, which only orders lists of the report.
-/

namespace Arald.Scenario

open Foundations

/-! ### Sets in order of insertion -/

def addTo {α : Type*} [DecidableEq α] (set : List α) (a : α) : List α :=
  if a ∈ set then set else set ++ [a]

def toSet {α : Type*} [DecidableEq α] (l : List α) : List α := l.foldl addTo []

theorem mem_addTo {α : Type*} [DecidableEq α] {set : List α} {a b : α} :
    b ∈ addTo set a ↔ b ∈ set ∨ b = a := by
  rw [addTo]
  split_ifs with h
  · exact ⟨Or.inl, fun hb => hb.elim id fun heq => heq ▸ h⟩
  · rw [List.mem_append, List.mem_singleton]

theorem nodup_addTo {α : Type*} [DecidableEq α] {set : List α} (h : set.Nodup) (a : α) :
    (addTo set a).Nodup := by
  rw [addTo]
  split_ifs with ha
  · exact h
  · exact List.nodup_append.mpr ⟨h, List.nodup_singleton a, fun b hb c hc heq =>
      ha (List.mem_singleton.mp hc ▸ heq ▸ hb)⟩

theorem mem_foldl_addTo {α : Type*} [DecidableEq α] {l set : List α} {b : α} :
    b ∈ l.foldl addTo set ↔ b ∈ set ∨ b ∈ l := by
  induction l generalizing set with
  | nil => rw [List.foldl_nil, or_iff_left List.not_mem_nil]
  | cons a l ih => rw [List.foldl_cons, ih, mem_addTo, List.mem_cons, or_assoc]

theorem nodup_foldl_addTo {α : Type*} [DecidableEq α] {l set : List α} (h : set.Nodup) :
    (l.foldl addTo set).Nodup := by
  induction l generalizing set with
  | nil => exact h
  | cons a l ih => exact ih (nodup_addTo h a)

theorem mem_toSet {α : Type*} [DecidableEq α] {l : List α} {b : α} : b ∈ toSet l ↔ b ∈ l := by
  rw [toSet, mem_foldl_addTo, or_iff_right List.not_mem_nil]

theorem nodup_toSet {α : Type*} [DecidableEq α] (l : List α) : (toSet l).Nodup :=
  nodup_foldl_addTo List.nodup_nil

/-! ### The graph -/

inductive NodeKind
  | box | portable | card | phone | relay
  deriving DecidableEq

inductive Medium
  | wifi | ble | lora
  deriving DecidableEq

/-- The positions of the two ends, in metres, may be absent. -/
structure ResilienceEdge where
  a : String
  b : String
  tech : Medium
  rateBps : ℚ
  ax : Option ℚ
  ay : Option ℚ
  bx : Option ℚ
  bY : Option ℚ
  deriving DecidableEq

structure ResilienceNodeSpec where
  id : String
  kind : NodeKind
  inactive : Bool
  deriving DecidableEq

/-- `land` and the halos are byte arrays over the same cells. -/
structure ResilienceCoverage where
  land : List ℕ
  halos : List (String × List ℕ)

structure TimelineStep where
  t : ℚ
  edges : List ResilienceEdge

structure ResilienceTimeline where
  fromS : ℚ
  steps : List TimelineStep

/-- `frame` is `toLocal` of the frame; `reevaluate edge t extraLossDb` tells whether a link still
exists. -/
structure ResilienceGraphSpec where
  nodes : List ResilienceNodeSpec
  edges : List ResilienceEdge
  atS : Option ℚ
  sinkKinds : Option (List NodeKind)
  scoreKinds : Option (List NodeKind)
  coverage : Option ResilienceCoverage
  timeline : Option ResilienceTimeline
  positions : Option (List (String × Pt))
  frame : Option (ℚ → ℚ → Pt)
  reevaluate : Option (ResilienceEdge → ℚ → ℚ → Bool)

inductive AreaPt
  | geo (lat lon : ℚ)
  | xy (p : Pt)

inductive AreaShape
  | circle (center : AreaPt) (radiusM : ℚ)
  | polygon (points : List AreaPt)

structure FailureArea where
  shape : AreaShape
  failNodes : Option Bool
  blockLossDb : Option ℚ

structure FailureSpec where
  nodes : Option (List String)
  areas : Option (List FailureArea)

inductive NodeStatus
  | failed | connected | recoverable | cutOff | isolated
  deriving DecidableEq

structure ResolvedArea where
  shape : ResolvedShape
  lossDb : ℚ
  failNodes : Bool

/-- The state of the graph; `degree` is read at active nodes only. -/
structure State where
  active : List String
  edges : List ResilienceEdge
  degree : String → ℕ
  connected : List String
  hops : OrderedMap String ℕ
  fragments : ℕ

def ResilienceGraphSpec.ids (spec : ResilienceGraphSpec) : List String :=
  spec.nodes.map ResilienceNodeSpec.id

/-- What `createResilienceContext` accepts: distinct nodes, and edges between known ones. -/
structure ResilienceContext where
  spec : ResilienceGraphSpec
  nodup_ids : spec.ids.Nodup
  edges_known : ∀ e ∈ spec.edges, e.a ∈ spec.ids ∧ e.b ∈ spec.ids

namespace ResilienceContext

variable (ctx : ResilienceContext)

def sinkKinds : List NodeKind := ctx.spec.sinkKinds.getD [.box, .portable]

def scoreKinds : List NodeKind := ctx.spec.scoreKinds.getD [.box, .portable, .card, .relay]

def kindOf (id : String) : Option NodeKind :=
  (ctx.spec.nodes.find? fun n => n.id = id).map ResilienceNodeSpec.kind

def index (id : String) : ℕ := ctx.spec.ids.idxOf id

end ResilienceContext

/-- The first node that repeats an id. -/
def firstDuplicate : List String → List ResilienceNodeSpec → Option String
  | _, [] => none
  | ids, n :: rest => if n.id ∈ ids then some n.id else firstDuplicate (n.id :: ids) rest

theorem nodup_of_firstDuplicate {ids : List String} {nodes : List ResilienceNodeSpec}
    (h : firstDuplicate ids nodes = none) :
    (nodes.map ResilienceNodeSpec.id).Nodup ∧ ∀ n ∈ nodes, n.id ∉ ids := by
  induction nodes generalizing ids with
  | nil => exact ⟨List.nodup_nil, fun n hn => absurd hn List.not_mem_nil⟩
  | cons n nodes ih =>
    rw [firstDuplicate] at h
    split_ifs at h with hn
    obtain ⟨hnodup, hnew⟩ := ih h
    refine ⟨List.nodup_cons.mpr ⟨fun hmem => ?_, hnodup⟩, fun m hm => ?_⟩
    · obtain ⟨m, hm, heq⟩ := List.mem_map.mp hmem
      exact hnew m hm (heq ▸ List.mem_cons_self)
    · rcases List.mem_cons.mp hm with rfl | hm
      · exact hn
      · exact fun hmem => hnew m hm (List.mem_cons_of_mem _ hmem)

def createResilienceContext (spec : ResilienceGraphSpec) : Except String ResilienceContext :=
  match hduplicate : firstDuplicate [] spec.nodes with
  | some id => .error ("Nodo duplicato: " ++ id)
  | none =>
    match hunknown : spec.edges.find? fun e => !(decide (e.a ∈ spec.ids) && decide (e.b ∈ spec.ids)) with
    | some e => .error ("Arco verso un nodo sconosciuto: " ++ e.a ++ "–" ++ e.b)
    | none => .ok
        { spec
          nodup_ids := (nodup_of_firstDuplicate hduplicate).1
          edges_known := fun e he => by simpa using List.find?_eq_none.mp hunknown e he }

def isSink (ctx : ResilienceContext) (id : String) : Bool :=
  match ctx.kindOf id with
  | some kind => kind ∈ ctx.sinkKinds
  | none => false

/-! ### Areas -/

def toLocalPt (ctx : ResilienceContext) : AreaPt → Except String Pt
  | .geo lat lon =>
    match ctx.spec.frame with
    | none => .error "Un'area in coordinate geografiche richiede `frame` nel contesto di resilienza"
    | some toLocal => .ok (toLocal lat lon)
  | .xy p => .ok p

def resolveArea (ctx : ResilienceContext) (a : FailureArea) : Except String ResolvedArea := do
  let lossDb := a.blockLossDb.getD 0
  let failNodes := a.failNodes.getD true
  match a.shape with
  | .circle center radiusM =>
    let c ← toLocalPt ctx center
    return { shape := .circle c radiusM, lossDb, failNodes }
  | .polygon points =>
    if points.length < 3 then throw "Un poligono d'area richiede almeno 3 punti"
    let points ← points.mapM (toLocalPt ctx)
    return { shape := .polygon points, lossDb, failNodes }

def resolveAreas (ctx : ResilienceContext) (areas : Option (List FailureArea)) :
    Except String (List ResolvedArea) :=
  (areas.getD []).mapM (resolveArea ctx)

/-- The blocking areas that a link touches add their losses. -/
def obstacleLoss (blocking : List ResolvedArea) (a b : Pt) : ℚ :=
  blocking.foldl (fun loss area =>
    if segmentTouchesArea area.shape a b then loss + area.lossDb else loss) 0

/-- Whether an edge between active nodes survives the areas. -/
def survives (ctx : ResilienceContext) (areas : List ResolvedArea) (t : ℚ) (e : ResilienceEdge) :
    Bool :=
  let blocking := areas.filter fun a => decide (a.lossDb > 0)
  match e.ax, e.ay, e.bx, e.bY with
  | some ax, some ay, some bx, some bY =>
    if 0 < blocking.length then
      let loss := obstacleLoss blocking (ax, ay) (bx, bY)
      if loss > 0 then
        match ctx.spec.reevaluate with
        | some reevaluate => reevaluate e t loss
        | none => false
      else true
    else true
  | _, _, _, _ => true

def filterEdges (ctx : ResilienceContext) (edges : List ResilienceEdge) (t : ℚ)
    (active : List String) (areas : List ResolvedArea) : List ResilienceEdge :=
  edges.filter fun e =>
    decide (e.a ∈ active) && decide (e.b ∈ active) && survives ctx areas t e

/-! ### State -/

def activeNodes (ctx : ResilienceContext) (failed : List String) : List String :=
  (ctx.spec.nodes.filter fun n => !n.inactive && !decide (n.id ∈ failed)).map ResilienceNodeSpec.id

/-- The union-find after all edges. -/
def unionEdges (ctx : ResilienceContext) (edges : List ResilienceEdge) : UnionFind :=
  (UnionFind.new ctx.spec.nodes.length).unionAll (edges.map fun e => (ctx.index e.a, ctx.index e.b))

def degreeOf (edges : List ResilienceEdge) : String → ℕ :=
  edges.foldl (fun degree e =>
    let degree := Function.update degree e.a (degree e.a + 1)
    Function.update degree e.b (degree e.b + 1)) fun _ => 0

def linkEnds (adj : String → List String) (e : ResilienceEdge) : String → List String :=
  let adj := Function.update adj e.a (adj e.a ++ [e.b])
  Function.update adj e.b (adj e.b ++ [e.a])

def adjacency (edges : List ResilienceEdge) : String → List String :=
  edges.foldl linkEnds fun _ => []

def stateFromEdges (ctx : ResilienceContext) (active : List String) (edges : List ResilienceEdge) :
    State :=
  let roots := ((unionEdges ctx edges).findAll (active.map ctx.index)).1.dedup
  let search := Search.loop (adjacency edges) active.length 0 (Search.start (active.filter (isSink ctx)))
  { active, edges, degree := degreeOf edges, connected := search.hops.keys, hops := search.hops
    fragments := roots.length }

def computeState (ctx : ResilienceContext) (failed : List String) (areas : List ResolvedArea) :
    State :=
  let active := activeNodes ctx failed
  stateFromEdges ctx active
    (filterEdges ctx ctx.spec.edges (ctx.spec.atS.getD 0) active areas)

def ResilienceContext.baseline (ctx : ResilienceContext) : State := computeState ctx [] []

/-! ### Coverage -/

structure CoverageFractions where
  connected : List ℕ
  radio : List ℕ
  connectedFrac : ℚ
  radioFrac : ℚ

/-- Whether the halo of a node reaches a cell that is land. -/
def coversCell (cov : ResilienceCoverage) (i : ℕ) (id : String) : Bool :=
  match cov.halos.lookup id with
  | some halo => decide (halo.getD i 0 ≠ 0) && decide (cov.land.getD i 0 ≠ 0)
  | none => false

/-- The land cells that the halo of one of the nodes reaches. -/
def coveredCells (cov : ResilienceCoverage) (nodes : List String) : List ℕ :=
  (List.range cov.land.length).map fun i => if nodes.any (coversCell cov i) then 1 else 0

def coverageFractions (ctx : ResilienceContext) (state : State) : Option CoverageFractions :=
  ctx.spec.coverage.map fun cov =>
    let connected := coveredCells cov (state.active.filter fun id => decide (id ∈ state.connected))
    let radio := coveredCells cov state.active
    let land := cov.land.sum
    { connected, radio
      connectedFrac := if land ≠ 0 then (connected.sum : ℚ) / land else 0
      radioFrac := if land ≠ 0 then (radio.sum : ℚ) / land else 0 }

/-! ### Opportunistic arrivals -/

/-- The components of the active nodes, as `members.values()`. -/
def componentsOf (ctx : ResilienceContext) (active : List String) (edges : List ResilienceEdge) :
    List (List String) :=
  let roots := ((unionEdges ctx edges).findAll (active.map ctx.index)).1
  ((active.zip roots).foldl (fun (members : OrderedMap ℕ (List String)) e =>
    members.set e.2 ((members.get? e.2).getD [] ++ [e.1])) .empty).values

/-- A message spreads to every component that has one of its carriers. -/
def spread (components : List (List String)) (mine : Finset String) : Finset String :=
  components.foldl (fun mine comp =>
    if comp.any (fun id => decide (id ∈ mine)) then mine ∪ comp.toFinset else mine) mine

structure ArrivalSearch where
  reached : String → Finset String
  pending : List String
  result : OrderedMap String ℚ

/-- One source at one instant. -/
def ArrivalSearch.advance (ctx : ResilienceContext) (components : List (List String)) (elapsed : ℚ)
    (s : ArrivalSearch) (src : String) : ArrivalSearch :=
  let mine := spread components (s.reached src)
  let s := { s with reached := Function.update s.reached src mine }
  if ∃ id ∈ mine, isSink ctx id = true then
    { s with result := s.result.set src elapsed, pending := s.pending.erase src }
  else s

def arrivalLoop (ctx : ResilienceContext) (active : List String) (areas : List ResolvedArea)
    (startT : ℚ) : List TimelineStep → ArrivalSearch → ArrivalSearch
  | [], s => s
  | step :: steps, s =>
    if s.pending.length = 0 then s
    else if step.t < startT then arrivalLoop ctx active areas startT steps s
    else
      let components := componentsOf ctx active (filterEdges ctx step.edges step.t active areas)
      arrivalLoop ctx active areas startT steps
        (s.pending.foldl (ArrivalSearch.advance ctx components (step.t - startT)) s)

/-- The instant from which contacts count. -/
def startOf (ctx : ResilienceContext) (tl : ResilienceTimeline) : ℚ :=
  max tl.fromS (ctx.spec.atS.getD tl.fromS)

def opportunisticArrivals (ctx : ResilienceContext) (failed : List String)
    (areas : List ResolvedArea) (sources : List String) : OrderedMap String ℚ :=
  match ctx.spec.timeline with
  | none => .empty
  | some tl =>
    if sources.length = 0 then .empty
    else
      (arrivalLoop ctx (activeNodes ctx failed) areas (startOf ctx tl) tl.steps
        { reached := fun src => {src}, pending := toSet sources, result := .empty }).result

end Arald.Scenario
