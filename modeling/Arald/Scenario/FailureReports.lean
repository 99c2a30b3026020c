import Arald.Scenario.Resilience

/-!
# Failure reports and the resilience score

What is derived from the state of the graph: the dependencies on single nodes,
the report of a failure, the ranking of single failures and the score.
-/

namespace Arald.Scenario

open Foundations

/-- `a || b` of two numbers. -/
def orElse (a b : ℚ) : ℚ := if a ≠ 0 then a else b

structure Dependency where
  id : String
  kind : Option NodeKind
  dependents : List String
  phoneDependents : List String
  coverageLoss : ℚ

structure RecoverableNode where
  id : String
  arrivalS : ℚ
  newlyCutOff : Bool

structure ReroutedNode where
  id : String
  hopsBefore : ℕ
  hopsAfter : ℕ

structure CoverageReport where
  connectedBefore : ℚ
  connectedAfter : ℚ
  radioBefore : ℚ
  radioAfter : ℚ

structure FailureReport where
  failed : List String
  states : OrderedMap String NodeStatus
  total : ℕ
  activeBefore : ℕ
  activeAfter : ℕ
  connectionsBefore : ℕ
  connectionsAfter : ℕ
  fragmentsBefore : ℕ
  fragmentsAfter : ℕ
  isolated : List String
  cutOff : List String
  recoverable : List RecoverableNode
  rerouted : List ReroutedNode
  coverage : Option CoverageReport
  lostCells : List ℕ
  dependencies : List Dependency
  opportunistic : Bool

structure SingleFailureEntry where
  id : String
  kind : NodeKind
  cutOff : List String
  phoneCutOff : List String
  recoverable : List String
  coverageLoss : ℚ
  critical : Bool

section Reports

variable (localeCompare : String → String → ℚ) (ctx : ResilienceContext)

def isPhone (id : String) : Bool := ctx.kindOf id = some .phone

/-- The loss of connected coverage, where coverage is analysed. -/
def lossBetween : Option CoverageFractions → Option CoverageFractions → ℚ
  | some before, some after => max 0 (before.connectedFrac - after.connectedFrac)
  | _, _ => 0

/-! ### Dependencies -/

/-- What depends on one active node, when something does. -/
def dependencyOn (failed : List String) (areas : List ResolvedArea) (state : State) (id : String) :
    Option Dependency :=
  let st := computeState ctx (addTo failed id) areas
  let lost := state.connected.filter fun x => decide (x ≠ id) && !decide (x ∈ st.connected)
  let dependents := lost.filter fun x => !isPhone ctx x
  let phoneDependents := lost.filter fun x => isPhone ctx x
  let coverageLoss := lossBetween (coverageFractions ctx state) (coverageFractions ctx st)
  if dependents.length > 0 then
    some { id, kind := ctx.kindOf id, dependents, phoneDependents, coverageLoss }
  else none

def Dependency.compare (a b : Dependency) : ℚ :=
  orElse (b.dependents.length - a.dependents.length) <|
    orElse (b.coverageLoss - a.coverageLoss) <|
      orElse (b.phoneDependents.length - a.phoneDependents.length) (localeCompare a.id b.id)

def dependenciesOf (failed : List String) (areas : List ResolvedArea) (state : State) :
    List Dependency :=
  (state.active.filterMap (dependencyOn ctx failed areas state)).insertionSort fun a b =>
    a.compare localeCompare b ≤ 0

def criticalDependencies : List Dependency := dependenciesOf localeCompare ctx [] [] ctx.baseline

/-! ### One failure -/

def failNode (failed : List String) (id : String) : Except String (List String) :=
  if id ∈ ctx.spec.ids then .ok (addTo failed id)
  else .error ("Nodo sconosciuto nel guasto: " ++ id)

def failArea (failed : List String) (a : ResolvedArea) : Except String (List String) :=
  if !a.failNodes then .ok failed
  else
    match ctx.spec.positions with
    | none => .error
        "Un guasto d'area che spegne nodi richiede `positions` nel contesto di resilienza"
    | some positions => .ok <| positions.foldl (fun failed e =>
        if pointInArea a.shape e.2.1 e.2.2 then addTo failed e.1 else failed) failed

def resolveFailed (spec : FailureSpec) (areas : List ResolvedArea) : Except String (List String) := do
  let failed ← (spec.nodes.getD []).foldlM (failNode ctx) []
  areas.foldlM (failArea ctx) failed

/-- Assigning a status to the property `__proto__` of a plain object has no effect. -/
def assignState (states : OrderedMap String NodeStatus) (id : String) (status : NodeStatus) :
    OrderedMap String NodeStatus :=
  if id = "__proto__" then states else states.set id status

/-- The status of a node before opportunistic arrivals are looked at. -/
def statusOf (failed : List String) (after : State) (n : ResilienceNodeSpec) : NodeStatus :=
  if n.id ∈ failed then .failed
  else if n.inactive then .failed
  else if n.id ∈ after.connected then .connected
  else if after.degree n.id = 0 then .isolated
  else .cutOff

/-- Active nodes that are not connected after the failure. -/
def notConnected (failed : List String) (after : State) : List String :=
  (ctx.spec.nodes.filter fun n =>
    !decide (n.id ∈ failed) && !n.inactive && !decide (n.id ∈ after.connected)).map
      ResilienceNodeSpec.id

def RecoverableNode.compare (a b : RecoverableNode) : ℚ :=
  orElse (a.arrivalS - b.arrivalS) (localeCompare a.id b.id)

def recoverableOf (before : State) (arrivals : OrderedMap String ℚ) : List RecoverableNode :=
  (arrivals.entries.map fun e =>
    { id := e.1, arrivalS := e.2, newlyCutOff := decide (e.1 ∈ before.connected) }).insertionSort
      fun a b => a.compare localeCompare b ≤ 0

def reroutedOf (failed : List String) (before after : State) : List ReroutedNode :=
  (after.connected.filterMap fun id =>
    match before.hops.get? id, after.hops.get? id with
    | some hb, some ha =>
      if hb ≠ ha ∧ id ∉ failed then some { id, hopsBefore := hb, hopsAfter := ha } else none
    | _, _ => none).insertionSort fun a b => localeCompare a.id b.id ≤ 0

/-- The report once areas and failed nodes are resolved. -/
def failureReport (failed : List String) (areas : List ResolvedArea) (dependencies : Bool) :
    FailureReport :=
  let before := ctx.baseline
  let after := computeState ctx failed areas
  let notConnectedAfter := notConnected ctx failed after
  let arrivals := opportunisticArrivals ctx failed areas notConnectedAfter
  let states := ctx.spec.nodes.foldl (fun states n =>
    assignState states n.id (statusOf failed after n)) .empty
  let covB := coverageFractions ctx before
  let covA := coverageFractions ctx after
  { failed
    states := arrivals.entries.foldl (fun states e => assignState states e.1 .recoverable) states
    total := ctx.spec.nodes.length
    activeBefore := before.active.length
    activeAfter := after.active.length
    connectionsBefore := before.edges.length
    connectionsAfter := after.edges.length
    fragmentsBefore := before.fragments
    fragmentsAfter := after.fragments
    isolated := notConnectedAfter.filter fun id => decide (after.degree id = 0)
    cutOff := notConnectedAfter.filter fun id => decide (id ∈ before.connected)
    recoverable := recoverableOf localeCompare before arrivals
    rerouted := reroutedOf localeCompare failed before after
    coverage :=
      match covB, covA with
      | some b, some a => some ⟨b.connectedFrac, a.connectedFrac, b.radioFrac, a.radioFrac⟩
      | _, _ => none
    lostCells :=
      match covB, covA with
      | some b, some a => (List.range b.connected.length).filter fun i =>
          decide (b.connected.getD i 0 ≠ 0) && decide (a.connected.getD i 0 = 0)
      | _, _ => []
    dependencies := if dependencies then dependenciesOf localeCompare ctx failed areas after else []
    opportunistic := ctx.spec.timeline.isSome }

def evaluateFailure (spec : FailureSpec) (dependencies : Bool) : Except String FailureReport := do
  let areas ← resolveAreas ctx spec.areas
  let failed ← resolveFailed ctx spec areas
  return failureReport localeCompare ctx failed areas dependencies

/-! ### Single failures and score -/

def singleFailure (n : ResilienceNodeSpec) (rep : FailureReport) : SingleFailureEntry :=
  let cutOff := rep.cutOff.filter fun id => !isPhone ctx id
  { id := n.id
    kind := n.kind
    cutOff
    phoneCutOff := rep.cutOff.filter fun id => isPhone ctx id
    recoverable := (rep.recoverable.filter fun r => r.newlyCutOff && !isPhone ctx r.id).map
      RecoverableNode.id
    coverageLoss :=
      match rep.coverage with
      | some c => max 0 (c.connectedBefore - c.connectedAfter)
      | none => 0
    critical := decide (cutOff.length > 0) }

def SingleFailureEntry.compare (a b : SingleFailureEntry) : ℚ :=
  orElse (b.cutOff.length - a.cutOff.length) <|
    orElse (b.coverageLoss - a.coverageLoss) <|
      orElse (b.phoneCutOff.length - a.phoneCutOff.length) (localeCompare a.id b.id)

def rankSingleFailures : Except String (List SingleFailureEntry) := do
  let out ← (ctx.spec.nodes.filter fun n => !(n.inactive || decide (n.kind = .phone))).mapM fun n => do
    let rep ← evaluateFailure localeCompare ctx { nodes := some [n.id], areas := none } false
    return singleFailure ctx n rep
  return out.insertionSort fun a b => a.compare localeCompare b ≤ 0

structure ResilienceWeights where
  coverage : ℚ
  directConnectivity : ℚ
  reachability : ℚ
  redundancy : ℚ
  coverageUnderFailure : ℚ
  opportunisticRecovery : ℚ

inductive ScoreKey
  | coverage | directConnectivity | reachability | redundancy | coverageUnderFailure
  | opportunisticRecovery
  deriving DecidableEq

structure ScoreComponent where
  key : ScoreKey
  value : Option ℚ
  weight : ℚ

structure ResilienceScore where
  score : ℚ
  components : List ScoreComponent
  criticalNodes : List String
  recoverableGaps : List String
  worstSingleFailure : Option (String × ℕ)
  singleFailures : List SingleFailureEntry

/-- The nodes that are scored: active, of a scored kind, and no sinks. -/
def scoringNodes : List ResilienceNodeSpec :=
  ctx.spec.nodes.filter fun n =>
    !n.inactive && decide (n.kind ∈ ctx.scoreKinds) && !isSink ctx n.id

def baselineConnected : List ResilienceNodeSpec :=
  (scoringNodes ctx).filter fun n => decide (n.id ∈ ctx.baseline.connected)

/-- The nodes that some single failure of another node cuts off. -/
def nonRedundant (single : List SingleFailureEntry) : List String :=
  single.foldl (fun set f => (f.cutOff.filter fun id => decide (id ≠ f.id)).foldl addTo set) []

def isScoring (id : String) : Bool := (scoringNodes ctx).any fun s => decide (s.id = id)

def cutTotal (single : List SingleFailureEntry) : ℕ :=
  (single.map fun f => (f.cutOff.filter (isScoring ctx)).length).sum

def recTotal (single : List SingleFailureEntry) : ℕ :=
  (single.map fun f => (f.recoverable.filter (isScoring ctx)).length).sum

/-- Scored nodes that reach a sink directly or in the window. -/
def reachable : Option ℚ :=
  if ctx.spec.timeline.isSome ∧ (scoringNodes ctx).length > 0 then
    let notConnected :=
      ((scoringNodes ctx).filter fun n => !decide (n.id ∈ ctx.baseline.connected)).map
        ResilienceNodeSpec.id
    let arrivals := opportunisticArrivals ctx [] [] notConnected
    some (((baselineConnected ctx).length + arrivals.size : ℚ) / (scoringNodes ctx).length)
  else none

def redundancy (single : List SingleFailureEntry) : Option ℚ :=
  if (scoringNodes ctx).length > 0 then
    if (baselineConnected ctx).length > 0 then
      some ((((baselineConnected ctx).filter fun n =>
        !decide (n.id ∈ nonRedundant single)).length : ℚ) / (baselineConnected ctx).length)
    else some 0
  else none

def coverageUnderFailure (single : List SingleFailureEntry) : Option ℚ :=
  (coverageFractions ctx ctx.baseline).map fun covBase =>
    if single.length > 0 then
      single.foldl (fun s f => s + max 0 (covBase.connectedFrac - f.coverageLoss)) 0 / single.length
    else covBase.connectedFrac

def scoreComponents (weights : ResilienceWeights) (single : List SingleFailureEntry) :
    List ScoreComponent :=
  let scoring := scoringNodes ctx
  [ { key := .coverage
      value := (coverageFractions ctx ctx.baseline).map CoverageFractions.connectedFrac
      weight := weights.coverage },
    { key := .directConnectivity
      value := if scoring.length > 0 then
        some (((baselineConnected ctx).length : ℚ) / scoring.length) else none
      weight := weights.directConnectivity },
    { key := .reachability, value := reachable ctx, weight := weights.reachability },
    { key := .redundancy, value := redundancy ctx single, weight := weights.redundancy },
    { key := .coverageUnderFailure
      value := coverageUnderFailure ctx single
      weight := weights.coverageUnderFailure },
    { key := .opportunisticRecovery
      value := if ctx.spec.timeline.isSome ∧ cutTotal ctx single > 0 then
        some ((recTotal ctx single : ℚ) / cutTotal ctx single) else none
      weight := weights.opportunisticRecovery } ]

/-- The weighted mean of the components that have a value and a positive weight, in percent. -/
def weightedScore (components : List ScoreComponent) : ℚ :=
  let used := components.filter fun c => c.value.isSome && decide (c.weight > 0)
  let wSum := (used.map ScoreComponent.weight).sum
  if wSum > 0 then 100 * (used.map fun c => c.weight * c.value.getD 0).sum / wSum else 0

/-- `sortStrings` is `Array.prototype.sort` without a comparator. -/
def resilienceScore (sortStrings : List String → List String) (weights : ResilienceWeights) :
    Except String ResilienceScore := do
  let single ← rankSingleFailures localeCompare ctx
  let components := scoreComponents ctx weights single
  return {
    score := weightedScore components
    components
    criticalNodes := (single.filter SingleFailureEntry.critical).map SingleFailureEntry.id
    recoverableGaps := sortStrings
      (single.foldl (fun set f => (f.recoverable.filter (isScoring ctx)).foldl addTo set) [])
    worstSingleFailure :=
      match single with
      | f :: _ => if f.cutOff.length > 0 then some (f.id, f.cutOff.length) else none
      | [] => none
    singleFailures := single }

end Reports

end Arald.Scenario
