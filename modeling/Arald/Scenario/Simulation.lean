import Arald.Foundations.BreadthFirst
import Arald.Foundations.JsValue
import Arald.Foundations.Outcomes
import Arald.Foundations.TokenBucket
import Arald.Scenario.Arrivals

/-!
# The discrete-step simulation

Nodes that move, the links between them at every step, and messages that are
replicated over these links: the duty cycle of a node is a token bucket, the
LoRa channel a shared credit, a short link a budget for each step. A node passes
on what it held at the start of the step.

Instants, bytes and air time are exact. The radio budget of a link and the
elevation of the terrain belong to the environment and are parameters.
-/

namespace Arald.Scenario

open Foundations

/-! ### LoRa frames -/

inductive SpreadingFactor
  | sf7 | sf8 | sf9 | sf10 | sf11 | sf12
  deriving DecidableEq

def SpreadingFactor.value : SpreadingFactor → ℕ
  | .sf7 => 7
  | .sf8 => 8
  | .sf9 => 9
  | .sf10 => 10
  | .sf11 => 11
  | .sf12 => 12

structure LoraPhy where
  bandwidthHz : ℚ
  codingRateDenom : ℤ
  preambleSymbols : ℕ
  explicitHeader : Bool
  crc : Bool
  bandwidth_pos : 0 < bandwidthHz

def loraTimeOnAir (payloadBytes : ℕ) (sf : SpreadingFactor) (phy : LoraPhy) : ℚ :=
  let tSym := 2 ^ sf.value / phy.bandwidthHz
  let de : ℤ := if tSym > 0.016 then 1 else 0
  let ih : ℤ := if phy.explicitHeader then 0 else 1
  let crc : ℤ := if phy.crc then 1 else 0
  let cr := phy.codingRateDenom - 4
  let num : ℤ := 8 * payloadBytes - 4 * sf.value + 28 + 16 * crc - 20 * ih
  let nPayload := 8 + max (⌈(num : ℚ) / (4 * (sf.value - 2 * de) : ℤ)⌉ * (cr + 4)) 0
  (phy.preambleSymbols + 4.25 + nPayload) * tSym

structure RegulatoryProfile where
  dutyCycle : ℚ≥0
  maxDwellS : Option ℚ

structure ShortRangeParams where
  bleBps : ℚ
  wifiBps : ℚ

/-- The medium of a link with its rate, and the spreading factor of a LoRa link. -/
inductive LinkState
  | wifi (rateBps : Option ℚ)
  | ble (rateBps : Option ℚ)
  | lora (sf : SpreadingFactor) (rateBps : Option ℚ)

structure Point3 where
  x : ℚ
  y : ℚ
  z : ℚ

structure Waypoint where
  point : Point3
  t : ℚ

structure NodeSpec where
  id : String
  kind : NodeKind
  path : List Waypoint
  heightAglM : Option ℚ
  offFrom : Option ℚ

/-- `bestLink a pa b pb extraLossDb` and `elevationAt` of the terrain. -/
structure Environment where
  bestLink : NodeSpec → Point3 → NodeSpec → Point3 → ℚ → Option LinkState
  elevationAt : Option (ℚ → ℚ → ℚ)

structure ModelParams where
  env : Environment
  reg : RegulatoryProfile
  phy : LoraPhy
  shortRange : ShortRangeParams
  loraFrameBytes : ℕ
  loraFrameOverheadBytes : ℕ
  protocolOverhead : ℚ
  channelEfficiency : ℚ≥0
  overhead_pos : 0 < protocolOverhead

/-- The longest frame that fits the dwell time lies from `lo` to below `hi`. -/
def shrinkFrame (fits : ℕ → Bool) : ℕ → ℕ → ℕ → ℕ
  | 0, lo, _ => lo
  | fuel + 1, lo, hi =>
    if hi - lo > 1 then
      let mid := (lo + hi) / 2
      if fits mid then shrinkFrame fits fuel mid hi else shrinkFrame fits fuel lo mid
    else lo

def loraFrameBytesFor (sf : SpreadingFactor) (p : ModelParams) : ℕ :=
  if p.loraFrameBytes ≤ p.loraFrameOverheadBytes then 0
  else
    match p.reg.maxDwellS with
    | none => p.loraFrameBytes
    | some dwell =>
      let fits bytes := decide (loraTimeOnAir bytes sf p.phy ≤ dwell)
      if fits p.loraFrameBytes then p.loraFrameBytes
      else
        let lo := p.loraFrameOverheadBytes + 1
        if !fits lo then 0 else shrinkFrame fits (p.loraFrameBytes - lo) lo p.loraFrameBytes

def loraAppBytesPerFrame (p : ModelParams) (sf : Option SpreadingFactor) : ℚ :=
  let frame := match sf with
    | none => p.loraFrameBytes
    | some sf => loraFrameBytesFor sf p
  ((frame - p.loraFrameOverheadBytes : ℕ) : ℚ) / p.protocolOverhead

/-! ### Positions and links -/

/-- From the waypoint `a` on, after its instant. -/
def alongPath (t : ℚ) : Waypoint → List Waypoint → Point3
  | a, [] => a.point
  | a, b :: rest =>
    if t ≤ b.t then
      let f := if b.t = a.t then 1 else (t - a.t) / (b.t - a.t)
      { x := a.point.x + f * (b.point.x - a.point.x)
        y := a.point.y + f * (b.point.y - a.point.y)
        z := a.point.z + f * (b.point.z - a.point.z) }
    else alongPath t b rest

def positionAt : List Waypoint → ℚ → Except String Point3
  | [], _ => .error "traiettoria vuota"
  | first :: rest, t => .ok (if t ≤ first.t then first.point else alongPath t first rest)

def nodePosition (n : NodeSpec) (t : ℚ) (elevationAt : Option (ℚ → ℚ → ℚ)) :
    Except String Point3 := do
  let p ← positionAt n.path t
  match elevationAt, n.heightAglM with
  | some elevation, some height => return { p with z := elevation p.x p.y + height }
  | _, _ => return p

def isOn (n : NodeSpec) (t : ℚ) : Bool :=
  match n.offFrom with
  | none => true
  | some off => t < off

structure NodeLink where
  a : String
  b : String
  link : LinkState

/-- The links of each node with the nodes that come after it. -/
def pairLinks (p : ModelParams) (t extraLossDb : ℚ) : List (NodeSpec × Point3) → List NodeLink
  | [] => []
  | (n, pos) :: rest =>
    (if isOn n t then
      rest.filterMap fun (m, posM) =>
        if isOn m t then
          (p.env.bestLink n pos m posM extraLossDb).map fun link => ⟨n.id, m.id, link⟩
        else none
    else []) ++ pairLinks p t extraLossDb rest

def snapshotLinks (nodes : List NodeSpec) (t : ℚ) (p : ModelParams) (extraLossDb : ℚ) :
    Except String (List NodeLink) := do
  let pos ← nodes.mapM fun n => do return (n, ← nodePosition n t p.env.elevationAt)
  return pairLinks p t extraLossDb pos

/-! ### Options and state -/

inductive Destination
  | one (id : String)
  | many (ids : List String)

structure Message where
  id : String
  sizeBytes : ℚ
  priority : ℚ
  source : String
  destination : Destination
  createdAt : ℚ

def destinationsOf (m : Message) : List String :=
  match m.destination with
  | .one id => [id]
  | .many ids => ids

inductive Policy
  | epidemic | custody
  deriving DecidableEq

inductive RoutingMetric
  | hops | airtime
  deriving DecidableEq

/-- Nodes and messages have distinct ids. `relayCarryTtlS` gives `none` for no expiry at all. -/
structure SimOptions where
  nodes : List NodeSpec
  messages : List Message
  params : ModelParams
  horizonS : ℚ
  stepS : ℚ
  policy : Policy
  relayCarryTtlS : Option (ℚ → Option ℚ)
  extraLossDb : Option (ℚ → ℚ)
  routingMetric : Option RoutingMetric
  nodup_nodes : (nodes.map NodeSpec.id).Nodup
  nodup_messages : (messages.map Message.id).Nodup
  step_pos : 0 < stepS

namespace SimOptions

variable (opts : SimOptions)

def byId (id : String) : Option NodeSpec := opts.nodes.find? fun n => n.id = id

def bucketCap : ℚ := opts.params.reg.dutyCycle * 3600

def channelCreditCap : ℚ :=
  opts.stepS * opts.params.channelEfficiency +
    2 * loraTimeOnAir opts.params.loraFrameBytes .sf12 opts.params.phy

def linksAt (t : ℚ) : Except String (List NodeLink) :=
  snapshotLinks opts.nodes t opts.params ((opts.extraLossDb.map fun f => f t).getD 0)

/-- By priority, then by age. -/
def sorted : List Message :=
  opts.messages.insertionSort fun a b =>
    (if a.priority - b.priority ≠ 0 then a.priority - b.priority else a.createdAt - b.createdAt) ≤ 0

/-- The pairs whose instant connectivity is counted. -/
def pairs : List String :=
  toSet (opts.messages.flatMap fun m => (destinationsOf m).map fun d => m.source ++ "->" ++ d)

end SimOptions

/-- One use of the LoRa channel, with the credit that it leaves. -/
structure Emission where
  node : String
  t : ℚ
  airtimeS : ℚ
  channelCredit : ℚ

/-- One transfer over a link, with the bytes that the receiver has after it. -/
structure Transfer where
  message : String
  sender : String
  receiver : String
  t : ℚ
  newHeld : ℚ

/-- The maps of the simulation, and a record of what happened that the source does not keep. -/
structure Sim where
  held : String → String → Option ℚ
  isolatedSince : String → Option ℚ
  dropped : List String
  delivered : String → Option ℚ
  reachedAt : String → String → Option ℚ
  airtime : String → ℚ
  bucket : String → ℚ
  channelCredit : ℚ
  instantCount : String → ℕ
  linkSnapshots : List (ℚ × List NodeLink)
  steps : ℕ
  emissions : List Emission
  transfers : List Transfer

def Sim.start (opts : SimOptions) : Sim where
  held := fun _ _ => none
  isolatedSince := fun _ => none
  dropped := []
  delivered := fun _ => none
  reachedAt := fun _ _ => none
  airtime := fun _ => 0
  bucket := fun _ => opts.bucketCap
  channelCredit := 0
  instantCount := fun _ => 0
  linkSnapshots := []
  steps := 0
  emissions := []
  transfers := []

/-- What `held.get(node)!.get(message) ?? 0` gives. -/
def bytesOf (held : String → String → Option ℚ) (node message : String) : ℚ :=
  (held node message).getD 0

def setHeld (held : String → String → Option ℚ) (node message : String) (bytes : Option ℚ) :
    String → String → Option ℚ :=
  Function.update held node (Function.update (held node) message bytes)

/-! ### Graphs of a step -/

/-- `a < b` of two strings compares code units. -/
def codeUnits (s : String) : List ℕ :=
  s.toList.flatMap fun c =>
    if c.toNat < 0x10000 then [c.toNat]
    else [0xd800 + (c.toNat - 0x10000) / 0x400, 0xdc00 + (c.toNat - 0x10000) % 0x400]

def before (a b : String) : Bool := codeUnits a < codeUnits b

def pairKey (a b : String) : String := if before a b then a ++ "|" ++ b else b ++ "|" ++ a

/-- `[...ids].sort().join(",")` -/
def sortedKey (ids : List String) : String :=
  ",".intercalate (ids.insertionSort fun a b => !before b a)

def adjacencyOf (links : List NodeLink) : String → List (String × LinkState) :=
  links.foldl (fun adj l =>
    let adj := Function.update adj l.a (adj l.a ++ [(l.b, l.link)])
    Function.update adj l.b (adj l.b ++ [(l.a, l.link)])) fun _ => []

/-- Every node enters the queue once, and the roots as often as they are given. -/
def bfsHops (nodes : List NodeSpec) (adj : String → List (String × LinkState))
    (roots : List String) : OrderedMap String ℕ :=
  (Search.loop (fun id => (adj id).map Prod.fst) (nodes.length + roots.length) 0
    (Search.start roots)).hops

def linkAirtimeCost (p : ModelParams) : LinkState → ℚ
  | .lora sf _ =>
    loraTimeOnAir (loraFrameBytesFor sf p) sf p.phy / loraAppBytesPerFrame p (some sf) *
      loraAppBytesPerFrame p none
  | .wifi rateBps => 8 * p.loraFrameBytes / rateBps.getD p.shortRange.wifiBps
  | .ble rateBps => 8 * p.loraFrameBytes / rateBps.getD p.shortRange.bleBps

/-- The first of the nearest nodes that are not done. -/
def nearest (dist : OrderedMap String ℚ) (done : List String) : Option String :=
  (dist.entries.foldl (fun cur e =>
    if e.1 ∈ done then cur
    else
      match cur with
      | none => some e
      | some best => if e.2 < best.2 then some e else cur) none).map Prod.fst

def relax (cost : LinkState → ℚ) (cur : String) (dist : OrderedMap String ℚ)
    (edge : String × LinkState) : OrderedMap String ℚ :=
  let nd := (dist.get? cur).getD 0 + cost edge.2
  match dist.get? edge.1 with
  | some d => if nd < d then dist.set edge.1 nd else dist
  | none => dist.set edge.1 nd

def dijkstraLoop (adj : String → List (String × LinkState)) (cost : LinkState → ℚ) :
    ℕ → OrderedMap String ℚ → List String → OrderedMap String ℚ
  | 0, dist, _ => dist
  | fuel + 1, dist, done =>
    match nearest dist done with
    | none => dist
    | some cur => dijkstraLoop adj cost fuel ((adj cur).foldl (relax cost cur) dist) (cur :: done)

/-- Every node is done once. -/
def dijkstra (nodes : List NodeSpec) (adj : String → List (String × LinkState))
    (roots : List String) (cost : LinkState → ℚ) : OrderedMap String ℚ :=
  dijkstraLoop adj cost (nodes.length + roots.length)
    (roots.foldl (fun dist r => dist.set r 0) .empty) []

/-! ### One step -/

/-- What the source keeps for one step besides the simulation: the budgets of short links, the
senders that wait for air time, and the distances worked out so far. -/
structure Turn where
  sim : Sim
  shortBudget : String → Option ℚ
  loraBlocked : List String
  hopsToDest : OrderedMap String (OrderedMap String ℕ)
  costToDest : OrderedMap String (OrderedMap String ℚ)

def Turn.start (s : Sim) : Turn := ⟨s, fun _ => none, [], .empty, .empty⟩

section Step

variable (opts : SimOptions) (t : ℚ)

/-- What one step looks at throughout. -/
structure Snapshot where
  adj : String → List (String × LinkState)
  startHeld : String → String → Option ℚ

variable (view : Snapshot)

def unknownNode : String := "Cannot read properties of undefined (reading 'offFrom')"

def createMessage (s : Sim) (m : Message) : Except String Sim :=
  if m.createdAt ≤ t ∧ t < m.createdAt + opts.stepS then
    match opts.byId m.source with
    | none => .error unknownNode
    | some n =>
      if isOn n t then .ok { s with held := setHeld s.held m.source m.id (some m.sizeBytes) }
      else .ok s
  else .ok s

def refillBuckets (s : Sim) : Sim :=
  { s with
    bucket := opts.nodes.foldl (fun bucket n => Function.update bucket n.id
      (min opts.bucketCap (bucket n.id + opts.params.reg.dutyCycle * opts.stepS))) s.bucket }

/-- The counters and the tables of links of the result. -/
def observe (links : List NodeLink) (s : Sim) : Sim :=
  let adj := adjacencyOf links
  { s with
    linkSnapshots := if (t / 1800).den = 1 then s.linkSnapshots ++ [(t, links)] else s.linkSnapshots
    instantCount := opts.pairs.foldl (fun count k =>
      match k.splitOn "->" with
      | source :: d :: _ =>
        if (bfsHops opts.nodes adj [source]).has d then Function.update count k (count k + 1)
        else count
      | _ => count) s.instantCount }

def creditChannel (s : Sim) : Sim :=
  { s with
    channelCredit := min opts.channelCreditCap
      (s.channelCredit + opts.stepS * opts.params.channelEfficiency) }

def hopsFor (dests : List String) (turn : Turn) : OrderedMap String ℕ × Turn :=
  let key := sortedKey dests
  match turn.hopsToDest.get? key with
  | some hops => (hops, turn)
  | none =>
    let hops := bfsHops opts.nodes view.adj dests
    (hops, { turn with hopsToDest := turn.hopsToDest.set key hops })

def costFor (dests : List String) (turn : Turn) : OrderedMap String ℚ × Turn :=
  if opts.routingMetric.getD .hops = .hops then
    let (hops, turn) := hopsFor opts view dests turn
    (hops.mapValues fun _ d => (d : ℚ), turn)
  else
    let key := sortedKey dests
    match turn.costToDest.get? key with
    | some cost => (cost, turn)
    | none =>
      let cost := dijkstra opts.nodes view.adj dests (linkAirtimeCost opts.params)
      (cost, { turn with costToDest := turn.costToDest.set key cost })

def LinkState.rank : LinkState → ℚ
  | .wifi _ => 0
  | .ble _ => 1
  | .lora sf _ => 1 + sf.value

/-- A single next hop along a path of least cost, while there is one. -/
def candidatesOf (cost : Option (OrderedMap String ℚ)) (sender : String) :
    List (String × LinkState) :=
  let candidates := view.adj sender
  match cost with
  | none => candidates
  | some cost =>
    match cost.get? sender with
    | none => candidates
    | some dSender =>
      let edge (l : LinkState) :=
        if opts.routingMetric.getD .hops = .hops then 1 else linkAirtimeCost opts.params l
      let through (c : String × LinkState) := edge c.2 + (cost.get? c.1).getD 0
      let closer := candidates.filter fun c => (cost.get? c.1).any fun d => d < dSender
      ((closer.insertionSort fun x y =>
        (if through x - through y ≠ 0 then through x - through y else x.2.rank - y.2.rank) ≤ 0)).take 1

/-- A relay without a path drops its copy after the time to live: the result tells whether it did. -/
def expireCopy (m : Message) (reach : OrderedMap String ℕ) (sender : String) (s : Sim) : Sim × Bool :=
  match opts.relayCarryTtlS with
  | none => (s, false)
  | some ttl =>
    if sender ≠ m.source ∧ s.reachedAt m.id sender = none then
      let key := sender ++ "|" ++ m.id
      if reach.has sender then
        ({ s with isolatedSince := Function.update s.isolatedSince key none }, false)
      else
        let since := (s.isolatedSince key).getD t
        let s := { s with isolatedSince := Function.update s.isolatedSince key (some since) }
        if (ttl m.priority).any fun limit => limit < t - since then
          ({ s with
              held := setHeld s.held sender m.id none
              dropped := addTo s.dropped key }, true)
        else (s, false)
    else (s, false)

/-- `Math.min(Math.floor(budgetS / toa), Math.ceil(want / frameApp))`: a frame without room needs
infinitely many. -/
def framesToSend (budgetS toa want frameApp : ℚ) : ℤ :=
  if frameApp = 0 then ⌊budgetS / toa⌋ else min ⌊budgetS / toa⌋ ⌈want / frameApp⌉

def Sim.spend (s : Sim) (m : Message) (sender : String) (airtimeS : ℚ) : Sim :=
  { s with
    bucket := Function.update s.bucket sender (s.bucket sender - airtimeS)
    channelCredit := s.channelCredit - airtimeS
    airtime := Function.update s.airtime m.id (s.airtime m.id + airtimeS)
    emissions := s.emissions ++ [⟨sender, t, airtimeS, s.channelCredit - airtimeS⟩] }

/-- The receiver has the bytes; a pending destination that has the whole message is reached. -/
def Sim.receive (s : Sim) (m : Message) (pending : List String) (sender nb : String) (newHeld : ℚ) :
    Sim :=
  let s := { s with
    held := setHeld s.held nb m.id (some newHeld)
    transfers := s.transfers ++ [⟨m.id, sender, nb, t, newHeld⟩] }
  if nb ∈ pending ∧ newHeld ≥ m.sizeBytes - 1e-6 ∧ s.reachedAt m.id nb = none then
    let reached := Function.update (s.reachedAt m.id) nb (some (t + opts.stepS))
    { s with
      reachedAt := Function.update s.reachedAt m.id reached
      delivered := if (destinationsOf m).all fun d => (reached d).isSome then
        Function.update s.delivered m.id (some (t + opts.stepS)) else s.delivered }
  else s

/-- A LoRa link: whole frames, as far as the bucket of the sender and the channel go. -/
def sendLora (m : Message) (pending : List String) (sender : String) (want recvHeld : ℚ)
    (nb : String) (sf : SpreadingFactor) (turn : Turn) : Turn :=
  if sender ∈ turn.loraBlocked then turn
  else
    let frameApp := loraAppBytesPerFrame opts.params (some sf)
    let toa := loraTimeOnAir (loraFrameBytesFor sf opts.params) sf opts.params.phy
    let budgetS := min (turn.sim.bucket sender) turn.sim.channelCredit
    let frames := framesToSend budgetS toa want frameApp
    if frames ≤ 0 then { turn with loraBlocked := addTo turn.loraBlocked sender }
    else
      let bytes := min want (frames * frameApp)
      { turn with
        sim := (turn.sim.spend t m sender (frames * toa)).receive opts t m pending sender nb
          (recvHeld + bytes) }

/-- A short link: what is left of its budget for the step. -/
def sendShort (m : Message) (pending : List String) (sender : String) (want recvHeld : ℚ)
    (nb : String) (bps : ℚ) (turn : Turn) : Turn :=
  let key := pairKey sender nb
  let left := (turn.shortBudget key).getD (bps / 8 * opts.stepS)
  let bytes := min want left
  if bytes ≤ 0 then turn
  else
    { turn with
      shortBudget := Function.update turn.shortBudget key (some (left - bytes))
      sim := turn.sim.receive opts t m pending sender nb (recvHeld + bytes) }

/-- One candidate of a sender; once the message is delivered, the loop over candidates breaks. -/
def sendTo (m : Message) (pending : List String) (sender : String) (available : ℚ) (turn : Turn)
    (candidate : String × LinkState) : Turn :=
  let nb := candidate.1
  if turn.sim.delivered m.id ≠ none then turn
  else if nb ++ "|" ++ m.id ∈ turn.sim.dropped then turn
  else
    let recvHeld := bytesOf turn.sim.held nb m.id
    if recvHeld ≥ available then turn
    else
      let want := available - recvHeld
      match candidate.2 with
      | .lora sf _ => sendLora opts t m pending sender want recvHeld nb sf turn
      | .wifi rateBps =>
        sendShort opts t m pending sender want recvHeld nb
          (rateBps.getD opts.params.shortRange.wifiBps) turn
      | .ble rateBps =>
        sendShort opts t m pending sender want recvHeld nb
          (rateBps.getD opts.params.shortRange.bleBps) turn

def sendFrom (m : Message) (pending : List String) (reach : OrderedMap String ℕ)
    (cost : Option (OrderedMap String ℚ)) (turn : Turn) (sender : NodeSpec) : Turn :=
  if !isOn sender t then turn
  else
    let available := bytesOf view.startHeld sender.id m.id
    if available = 0 then turn
    else
      let expired := expireCopy opts t m reach sender.id turn.sim
      let turn := { turn with sim := expired.1 }
      if expired.2 then turn
      else (candidatesOf opts view cost sender.id).foldl
        (sendTo opts t m pending sender.id available) turn

/-- Whether a destination is not reached yet and on. -/
def isPending (m : Message) (s : Sim) (d : String) : Except String Bool :=
  if s.reachedAt m.id d ≠ none then .ok false
  else
    match opts.byId d with
    | none => .error unknownNode
    | some n => .ok (isOn n t)

def sendMessage (turn : Turn) (m : Message) : Except String Turn :=
  if m.createdAt > t ∨ turn.sim.delivered m.id ≠ none then .ok turn
  else do
    let pending ← (destinationsOf m).filterM (isPending opts t m turn.sim)
    if pending.length = 0 then return turn
    let (reach, turn) := hopsFor opts view pending turn
    match opts.policy with
    | .epidemic => return opts.nodes.foldl (sendFrom opts t view m pending reach none) turn
    | .custody =>
      let (cost, turn) := costFor opts view pending turn
      return opts.nodes.foldl (sendFrom opts t view m pending reach (some cost)) turn

def simStep (s : Sim) : Except String Sim := do
  let s ← opts.messages.foldlM (createMessage opts t) { s with steps := s.steps + 1 }
  let s := refillBuckets opts s
  let links ← opts.linksAt t
  let s := creditChannel opts (observe opts t links s)
  let turn ← opts.sorted.foldlM (sendMessage opts t ⟨adjacencyOf links, s.held⟩) (Turn.start s)
  return turn.sim

end Step

/-! ### Runs -/

/-- The simulation after a number of steps, the first of them at 0 s. -/
def simRun (opts : SimOptions) : ℕ → Except String Sim
  | 0 => .ok (Sim.start opts)
  | k + 1 => do
    let s ← simRun opts k
    simStep opts (k * opts.stepS) s

/-- The number of steps up to the horizon. -/
def stepCount (opts : SimOptions) : ℕ :=
  if opts.horizonS < 0 then 0 else ⌊opts.horizonS / opts.stepS⌋₊ + 1

/-- The loop runs for the instants up to the horizon. -/
theorem lt_stepCount {opts : SimOptions} {k : ℕ} :
    k < stepCount opts ↔ k * opts.stepS ≤ opts.horizonS := by
  rw [stepCount]
  split_ifs with hneg
  · refine iff_of_false (Nat.not_lt_zero k) fun hle => ?_
    exact (hneg.trans_le (mul_nonneg (Nat.cast_nonneg k) opts.step_pos.le)).not_ge hle
  · rw [Nat.lt_succ_iff, Nat.le_floor_iff (div_nonneg (not_lt.mp hneg) opts.step_pos.le),
      le_div_iff₀ opts.step_pos]

/-- `bytesAtDestination` is `none` where there is no destination: the maximum of nothing. -/
structure DeliveryResult where
  messageId : String
  deliveredAt : Option ℚ
  deliveredAtByDest : OrderedMap String (Option ℚ)
  bytesAtDestination : Option ℚ
  loraAirtimeS : ℚ

/-- The fractions are `none` where there was no step. -/
structure SimResult where
  deliveries : List DeliveryResult
  instantConnectivity : List (String × Option ℚ)
  linkSnapshots : List (ℚ × List NodeLink)

def heldAt (opts : SimOptions) (s : Sim) (m : Message) (d : String) : Except String ℚ :=
  match opts.byId d with
  | none => .error "Cannot read properties of undefined (reading 'get')"
  | some _ => .ok (bytesOf s.held d m.id)

def deliveryOf (opts : SimOptions) (s : Sim) (m : Message) : Except String DeliveryResult := do
  let bytes ← (destinationsOf m).mapM (heldAt opts s m)
  return {
    messageId := m.id
    deliveredAt := (s.delivered m.id).map fun instant => instant - m.createdAt
    deliveredAtByDest := (destinationsOf m).foldl (fun table d =>
      table.set d ((s.reachedAt m.id d).map fun instant => instant - m.createdAt)) .empty
    bytesAtDestination := bytes.max?.map fun most => min most m.sizeBytes
    loraAirtimeS := s.airtime m.id }

def simulate (opts : SimOptions) : Except String SimResult := do
  let s ← simRun opts (stepCount opts)
  let deliveries ← opts.messages.mapM (deliveryOf opts s)
  return {
    deliveries
    instantConnectivity := opts.pairs.map fun k =>
      (k, if s.steps = 0 then none else some ((s.instantCount k : ℚ) / s.steps))
    linkSnapshots := s.linkSnapshots }

end Arald.Scenario
