import Arald.Foundations.Runs
import Arald.Mesh.PendingDeliveryQueue
import Arald.Mesh.RateLimiter
import Arald.Mesh.RelayPolicy
import Arald.Mesh.RoutingTable
import Arald.Mesh.SeenCache
import Arald.Mesh.Trust

/-!
# The mesh node

The part of `NomadNode` that moves packets: connections, the routing table,
flooding with its asynchronous outcomes, the store-and-forward queue and the
dispatch of an arriving packet. Content, catalog, identity, message and service
handlers read none of this state except through `originate`, `sendToPeer` and
`floodExcept`; in a run, what they send is an event of its own.

A send is synchronous up to the transport, so it is logged when it is handed
over. What the transport makes of it is known later: `floodExcept` leaves an
attempt behind, which is settled by an event.
-/

namespace Arald

open Foundations

structure PeerInfo where
  address : JsValue
  connectedAt : ℤ
  lastSeen : ℤ

/-- The known-peers table of `peer.ts`. -/
abbrev PeerTable := OrderedMap String PeerInfo

namespace PeerTable

def upsert (peers : PeerTable) (id : String) (address : JsValue) (now : ℤ) : PeerTable :=
  match peers.get? id with
  | some existing =>
    peers.set id
      { existing with
        lastSeen := now
        address := if address.truthy then address else existing.address }
  | none => peers.set id ⟨address, now, now⟩

def touch (peers : PeerTable) (id : String) (now : ℤ) : PeerTable :=
  match peers.get? id with
  | some info => peers.set id { info with lastSeen := now }
  | none => peers

end PeerTable

/-- A packet handed to the transport of `recipient`. -/
structure Sent where
  recipient : String
  packet : Packet
  time : ℤ

/-- A flood in progress. `handed` says that a transport took the packet: a send
without a transport can only fail. -/
inductive Attempt where
  /-- Sent to the next hop of a route, the outcome still open. -/
  | routed (packet : Packet) (exceptPeerId : Option String) (nextHop : String) (handed : Bool)
  /-- Sent to every other known peer, the outcomes still open. -/
  | flooding (packet : Packet) (exceptPeerId : Option String) (handed : Bool)

namespace Attempt

def packet : Attempt → Packet
  | routed p _ _ _ => p
  | flooding p _ _ => p

def handed : Attempt → Bool
  | routed _ _ _ h => h
  | flooding _ _ h => h

end Attempt

/-- Emitted as `routing:updated`: the destinations whose routes changed, and
the announcement they were learned from. -/
structure RoutingUpdate where
  fromPeerId : String
  packet : Packet
  changed : List String

structure MeshNode where
  nodeId : String
  ttl : JsNumber
  minTrustToRelay : Option TrustLevel
  relayPolicy : RelayPolicy
  /-- What `getResourceState` returns at present. -/
  resources : ResourceState
  peers : PeerTable
  /-- The transport a connected peer is reached by. -/
  peerTransport : OrderedMap String String
  peerConnectionCounts : OrderedMap String ℤ
  trust : TrustManager
  rateLimiter : RateLimiter
  seenCache : SeenCache
  routingTable : RoutingTable
  pendingDeliveries : PendingDeliveryQueue
  attempts : List Attempt
  sent : List Sent
  updates : List RoutingUpdate
  /-- The successive values of `randomUUID`, and how many have been drawn. -/
  uuid : ℕ → String
  drawn : ℕ

namespace MeshNode

/-- The score function of the routing table, `trustRank(trust.get(nextHop))`. -/
def trustRankOf (n : MeshNode) (nodeId : String) : ℤ := trustRank (n.trust.get nodeId)

structure OriginateOptions where
  type : MessageType
  payload : JsValue
  destination : Option String
  priority : Priority

/-- The packet `originate` returns. -/
def originated (n : MeshNode) (options : OriginateOptions) (now : ℤ) : Packet :=
  createPacket
    { type := options.type
      source := n.nodeId
      payload := options.payload
      destination := options.destination
      ttl := n.ttl
      priority := options.priority }
    (n.uuid n.drawn) now

/-- The node after `originate`: its own packet counts as seen. -/
def afterOriginate (n : MeshNode) (now : ℤ) : MeshNode :=
  { n with
    seenCache := n.seenCache.markSeen (n.uuid n.drawn) now
    drawn := n.drawn + 1 }

/-- Hand a packet to the transport of a peer, if it has one. -/
def sendToPeer (n : MeshNode) (peerId : String) (packet : Packet) (now : ℤ) : MeshNode :=
  if n.peerTransport.has peerId then { n with sent := n.sent ++ [⟨peerId, packet, now⟩] } else n

/-- `sendToPeer(peerId, originate(…))`. -/
def sendOriginated (n : MeshNode) (peerId : String) (options : OriginateOptions) (now : ℤ) :
    MeshNode :=
  (n.afterOriginate now).sendToPeer peerId (n.originated options now) now

/-! ### Flooding -/

/-- Store a unicast packet that could not be delivered; what is not unicast, or
was delivered, needs nothing more. -/
def settleFlood (n : MeshNode) (packet : Packet) (exceptPeerId : Option String)
    (delivered : Bool) (now : ℤ) : MeshNode :=
  if packet.isElsewhere n.nodeId && !delivered then
    { n with pendingDeliveries := n.pendingDeliveries.enqueue packet exceptPeerId now }
  else n

/-- The peers a flood goes to. -/
def floodTargets (n : MeshNode) (exceptPeerId : Option String) : List String :=
  n.peers.keys.filter fun id => exceptPeerId ≠ some id

/-- The part of `floodExcept` that sends to every target. Without a target it
never waits and settles at once. -/
def flood (n : MeshNode) (packet : Packet) (exceptPeerId : Option String) (now : ℤ) : MeshNode :=
  let targets := n.floodTargets exceptPeerId
  if targets.isEmpty then n.settleFlood packet exceptPeerId false now
  else
    let n' := targets.foldl (fun n id => n.sendToPeer id packet now) n
    { n' with
      attempts := n'.attempts ++
        [.flooding packet exceptPeerId (targets.any fun id => n.peerTransport.has id)] }

/-- The next hop `floodExcept` tries before it floods. -/
def unicastHop? (n : MeshNode) (packet : Packet) (exceptPeerId : Option String) : Option String :=
  if packet.isElsewhere n.nodeId then
    match packet.destination.string?.bind n.routingTable.bestRoute with
    | some route => if exceptPeerId = some route.nextHop then none else some route.nextHop
    | none => none
  else none

def floodExcept (n : MeshNode) (packet : Packet) (exceptPeerId : Option String) (now : ℤ) :
    MeshNode :=
  match n.unicastHop? packet exceptPeerId with
  | some nextHop =>
    let n' := n.sendToPeer nextHop packet now
    { n' with
      attempts := n'.attempts ++
        [.routed packet exceptPeerId nextHop (n.peerTransport.has nextHop)] }
  | none => n.flood packet exceptPeerId now

/-- The outcome of an attempt is known. A routed send that failed turns into a flood. -/
def settle (n : MeshNode) (attempt : Attempt) (delivered : Bool) (now : ℤ) : MeshNode :=
  match attempt with
  | .routed packet exceptPeerId _ _ =>
    if delivered then n else n.flood packet exceptPeerId now
  | .flooding packet exceptPeerId _ => n.settleFlood packet exceptPeerId delivered now

/-! ### Relaying on behalf of others -/

inductive RelayGate where
  | trust
  | policy
  | ok
  deriving DecidableEq

def relayGateFor (n : MeshNode) (peerId : String) : RelayGate :=
  if n.minTrustToRelay.any fun level => !meetsTrustLevel (n.trust.get peerId) level then .trust
  else if n.relayPolicy.canRelayNow n.resources then .ok
  else .policy

/-- The gate a queued delivery must pass again before it is retried. -/
def mayRetry (n : MeshNode) (delivery : QueuedDelivery) : Bool :=
  match delivery.exceptPeerId with
  | some peerId => n.relayGateFor peerId = .ok
  | none => true

def retry (n : MeshNode) (delivery : QueuedDelivery) (now : ℤ) : MeshNode :=
  if n.mayRetry delivery then n.floodExcept delivery.packet delivery.exceptPeerId now
  else { n with pendingDeliveries := n.pendingDeliveries.requeue delivery now }

def flushPendingDeliveries (n : MeshNode) (now : ℤ) : MeshNode :=
  let drained := n.pendingDeliveries.drain now
  drained.2.foldl (fun n delivery => n.retry delivery now) { n with pendingDeliveries := drained.1 }

/-! ### Route announcements -/

/-- One element of `routes` in a ROUTE_ANNOUNCE; `none` is the withdrawing `null`. -/
def routeJs (destination : String) (cost : Option ℚ) : JsValue :=
  .obj [("destination", .str destination),
    ("cost", match cost with
      | some c => .num (.finite c)
      | none => .null)]

def routeAnnouncement (peerId : String) (routes : List JsValue) : OriginateOptions where
  type := .routeAnnounce
  payload := .obj [("routes", .arr routes)]
  destination := some peerId
  priority := .control

/-- The routes told to `peerId`: split horizon, and this node itself at cost 0. -/
def routesFor (n : MeshNode) (peerId : String) (destinations : Option (List String)) :
    List JsValue :=
  let wanted := fun d => match destinations with
    | none => true
    | some ds => d ∈ ds
  let known := n.routingTable.routes.entries.filter fun e =>
    e.2.nextHop ≠ peerId && e.1 ≠ peerId && wanted e.1
  let announced := known.map fun e => routeJs e.1 (some e.2.cost)
  if wanted n.nodeId then routeJs n.nodeId (some 0) :: announced else announced

def announceRoutes (n : MeshNode) (peerId : String) (destinations : Option (List String))
    (now : ℤ) : MeshNode :=
  let routes := n.routesFor peerId destinations
  if routes.isEmpty then n else n.sendOriginated peerId (routeAnnouncement peerId routes) now

/-- Announce the given destinations to every known peer but one. -/
def announceToOthers (n : MeshNode) (exceptPeerId : String) (destinations : List String)
    (now : ℤ) : MeshNode :=
  (n.peers.keys.filter fun id => id ≠ exceptPeerId).foldl
    (fun n id => n.announceRoutes id (some destinations) now) n

def broadcastWithdrawal (n : MeshNode) (destinations : List String) (exceptPeerId : String)
    (now : ℤ) : MeshNode :=
  (n.peers.keys.filter fun id => id ≠ exceptPeerId).foldl
    (fun n id => n.sendOriginated id
      (routeAnnouncement id (destinations.map fun d => routeJs d none)) now) n

def maxRoutesPerAnnounce : ℕ := 512

/-- What a well-formed element of `routes` asks for. -/
inductive RouteRequest where
  | withdraw (destination : String)
  | offer (destination : String) (cost : JsNumber)

/-- The checks of the loop in `handleRouteAnnounce`; `none` is a `continue`. -/
def routeRequest? (nodeId : String) (entry : JsValue) : Option RouteRequest :=
  match (entry.prop "destination").string? with
  | none => none
  | some destination =>
    if destination = nodeId then none
    else if (entry.prop "cost").isNull then some (.withdraw destination)
    else (entry.prop "cost").number?.map fun cost => .offer destination cost

/-- The requests one announcement makes of this node, in order. -/
def routeRequests (n : MeshNode) (packet : Packet) : List RouteRequest :=
  (((packet.payload.prop "routes").array?.getD []).take maxRoutesPerAnnounce).filterMap
    (routeRequest? n.nodeId)

/-- The state of the loop in `handleRouteAnnounce`. -/
structure AnnounceLoop where
  table : RoutingTable
  changed : List String
  withdrawn : List String

/-- One turn of the loop: the link to the announcer adds one hop. -/
def applyRequest (trustRankOf : String → ℤ) (fromPeerId : String) (loop : AnnounceLoop) :
    RouteRequest → AnnounceLoop
  | .withdraw destination =>
    let r := loop.table.withdraw destination fromPeerId
    { table := r.1
      changed := loop.changed
      withdrawn := if r.2 then loop.withdrawn ++ [destination] else loop.withdrawn }
  | .offer destination cost =>
    let r := loop.table.offer trustRankOf destination fromPeerId (cost.add (.finite 1))
    { table := r.1
      changed := if r.2 then loop.changed ++ [destination] else loop.changed
      withdrawn := loop.withdrawn }

def announceLoop (n : MeshNode) (packet : Packet) (fromPeerId : String) : AnnounceLoop :=
  (n.routeRequests packet).foldl (applyRequest n.trustRankOf fromPeerId) ⟨n.routingTable, [], []⟩

/-- Tell the other peers which routes changed. -/
def propagateChanges (n : MeshNode) (packet : Packet) (fromPeerId : String)
    (changed : List String) (now : ℤ) : MeshNode :=
  if changed.isEmpty then n
  else announceToOthers { n with updates := n.updates ++ [⟨fromPeerId, packet, changed⟩] }
    fromPeerId changed now

/-- Tell the other peers which destinations were lost. -/
def propagateWithdrawals (n : MeshNode) (withdrawn : List String) (exceptPeerId : String)
    (now : ℤ) : MeshNode :=
  if withdrawn.isEmpty then n else n.broadcastWithdrawal withdrawn exceptPeerId now

def handleRouteAnnounce (n : MeshNode) (packet : Packet) (fromPeerId : String) (now : ℤ) :
    MeshNode :=
  let loop := n.announceLoop packet fromPeerId
  let n := propagateChanges { n with routingTable := loop.table } packet fromPeerId loop.changed now
  n.propagateWithdrawals loop.withdrawn fromPeerId now

/-! ### Arriving packets -/

/-- The entries of a PEER_LIST that pass its checks, with their addresses. -/
def peerListEntries (nodeId : String) (payload : JsValue) : List (String × JsValue) :=
  (payload.array?.getD []).filterMap fun entry =>
    match (entry.prop "id").string? with
    | some id => if id = nodeId then none else some (id, entry.prop "address")
    | none => none

/-- The handlers of `deliver` that touch this part of the node. -/
def deliver (n : MeshNode) (packet : Packet) (fromPeerId : String) (now : ℤ) : MeshNode :=
  match packet.type with
  | .ping =>
    n.sendOriginated fromPeerId
      { type := .pong, payload := .obj [], destination := some packet.source
        priority := .control } now
  | .peerList =>
    { n with
      peers := (peerListEntries n.nodeId packet.payload).foldl
        (fun peers e => PeerTable.upsert peers e.1 e.2 now) n.peers }
  | .data =>
    n.sendOriginated fromPeerId
      { type := .ack, payload := .obj [("ackOf", .str packet.id)]
        destination := some packet.source, priority := .control } now
  | .routeAnnounce => n.handleRouteAnnounce packet fromPeerId now
  | _ => n

/-- Relay a packet onward, or keep it when the gate for its sender is closed. -/
def forward (n : MeshNode) (packet : Packet) (fromPeerId : String) (now : ℤ) : MeshNode :=
  if n.relayGateFor fromPeerId = .ok then n.floodExcept packet (some fromPeerId) now
  else if packet.isElsewhere n.nodeId then
    { n with pendingDeliveries := n.pendingDeliveries.enqueue packet (some fromPeerId) now }
  else n

/-- The packet gets past the rate limiter and is not a handshake. -/
def admits (n : MeshNode) (packet : Packet) (fromPeerId : String) (now : ℤ) : Bool :=
  (n.rateLimiter.allow fromPeerId now).2 && packet.type ≠ .hello

/-- The packet is admitted and not a duplicate: it is delivered, relayed or both. -/
def takesIn (n : MeshNode) (packet : Packet) (fromPeerId : String) (now : ℤ) : Bool :=
  n.admits packet fromPeerId now && !n.seenCache.hasSeen packet.id

def handlePacket (n : MeshNode) (packet : Packet) (fromPeerId : String) (now : ℤ) : MeshNode :=
  let limited := n.rateLimiter.allow fromPeerId now
  let n := { n with rateLimiter := limited.1 }
  if !limited.2 then n
  else
    let n := { n with peers := PeerTable.touch n.peers fromPeerId now }
    if packet.type = .hello then n
    else
      let decided := decideForward packet n.nodeId n.seenCache now
      let decision := decided.2
      let n := { n with seenCache := decided.1 }
      if decision.duplicate then n
      else
        let n := if decision.deliverLocally then n.deliver packet fromPeerId now else n
        match decision.forwardPacket with
        | some onward => n.forward onward fromPeerId now
        | none => n

/-! ### Connections -/

/-- The tables updated first when a peer connects. -/
def link (n : MeshNode) (transport peerId : String) (address : JsValue) (now : ℤ) : MeshNode :=
  { n with
    peers := PeerTable.upsert n.peers peerId address now
    peerTransport := n.peerTransport.set peerId transport
    trust := n.trust.markSeen peerId
    peerConnectionCounts :=
      n.peerConnectionCounts.set peerId ((n.peerConnectionCounts.get? peerId).getD 0 + 1) }

/-- Ask a new peer for the content and the identities it knows. The two lists are
what the catalog and the identity directory of this node know. -/
def startSync (n : MeshNode) (peerId : String) (knownContentIds knownNodeIds : List JsValue)
    (now : ℤ) : MeshNode :=
  let n := n.sendOriginated peerId
    { type := .syncRequest, payload := .obj [("knownContentIds", .arr knownContentIds)]
      destination := some peerId, priority := .control } now
  n.sendOriginated peerId
    { type := .identityRequest, payload := .obj [("knownNodeIds", .arr knownNodeIds)]
      destination := some peerId, priority := .control } now

/-- Offer the direct route to a new peer and announce what changed. -/
def openRoute (n : MeshNode) (peerId : String) (now : ℤ) : MeshNode :=
  let offered := n.routingTable.offer n.trustRankOf peerId peerId (.finite 1)
  let n := announceRoutes { n with routingTable := offered.1 } peerId none now
  if offered.2 then n.announceToOthers peerId [peerId] now else n

/-- The callback `onPeerConnected`. -/
def peerConnected (n : MeshNode) (transport peerId : String) (address : JsValue)
    (knownContentIds knownNodeIds : List JsValue) (now : ℤ) : MeshNode :=
  let n := (n.link transport peerId address now).flushPendingDeliveries now
  (n.startSync peerId knownContentIds knownNodeIds now).openRoute peerId now

/-- The tables after a peer has gone, its routes included. -/
def unlink (n : MeshNode) (peerId : String) : MeshNode :=
  let remaining := (n.peerConnectionCounts.get? peerId).getD 1 - 1
  { n with
    peers := n.peers.delete peerId
    peerTransport := n.peerTransport.delete peerId
    rateLimiter := n.rateLimiter.reset peerId
    peerConnectionCounts :=
      if remaining ≤ 0 then n.peerConnectionCounts.delete peerId
      else n.peerConnectionCounts.set peerId remaining
    routingTable := (n.routingTable.removeRoutesVia peerId).1 }

/-- The callback `onPeerDisconnected`. -/
def peerDisconnected (n : MeshNode) (peerId : String) (now : ℤ) : MeshNode :=
  (n.unlink peerId).propagateWithdrawals (n.routingTable.removeRoutesVia peerId).2 peerId now

end MeshNode

/-- What can happen to a node. -/
inductive NodeEvent where
  | connected (transport peerId : String) (address : JsValue)
      (knownContentIds knownNodeIds : List JsValue) (now : ℤ)
  | disconnected (peerId : String) (now : ℤ)
  /-- A packet arrives from a connected peer. -/
  | received (packet : Packet) (fromPeerId : String) (now : ℤ)
  /-- Another component floods a packet of its own. -/
  | flooded (options : MeshNode.OriginateOptions) (now : ℤ)
  /-- Another component sends a packet of its own to one peer. -/
  | sentTo (peerId : String) (options : MeshNode.OriginateOptions) (now : ℤ)
  /-- The outcome of the attempt at this position becomes known. -/
  | settled (index : ℕ) (delivered : Bool) (now : ℤ)
  /-- A signature was verified, or the operator assigned a level. -/
  | trustChanged (trust : TrustManager)
  | resourcesChanged (resources : ResourceState)

namespace MeshNode

/-- One event. Only `announceRoutes` and `broadcastWithdrawal` originate a
ROUTE_ANNOUNCE, so the other components do not. -/
def step (n : MeshNode) : NodeEvent → Option MeshNode
  | .connected transport peerId address knownContentIds knownNodeIds now =>
    some (n.peerConnected transport peerId address knownContentIds knownNodeIds now)
  | .disconnected peerId now => some (n.peerDisconnected peerId now)
  | .received packet fromPeerId now =>
    if n.peerTransport.has fromPeerId then some (n.handlePacket packet fromPeerId now) else none
  | .flooded options now =>
    if options.type = .routeAnnounce then none
    else some ((n.afterOriginate now).floodExcept (n.originated options now) none now)
  | .sentTo peerId options now =>
    if options.type = .routeAnnounce then none else some (n.sendOriginated peerId options now)
  | .settled index delivered now =>
    match n.attempts[index]? with
    | some attempt =>
      if delivered && !attempt.handed then none
      else some (settle { n with attempts := n.attempts.eraseIdx index } attempt delivered now)
    | none => none
  | .trustChanged trust => some { n with trust := trust }
  | .resourcesChanged resources => some { n with resources := resources }

end MeshNode

/-- The options of the constructor that concern this part of the node. -/
structure MeshOptions where
  defaultTtl : JsNumber := .finite 8
  minTrustToRelay : Option TrustLevel := none
  relayPolicy : RelayPolicy := ⟨.always, .finite 30⟩
  storeAndForwardTtlMs : ℤ := 300000
  maxPendingDeliveries : WithTop ℤ := (256 : ℤ)
  maxTrustEntries : WithTop ℤ := (4096 : ℤ)
  maxPacketsPerWindow : ℤ := 200
  rateLimitWindowMs : ℤ := 1000
  maxRoutingTableEntries : WithTop ℤ := (4096 : ℤ)
  maxRouteCost : JsNumber := .finite 64

namespace MeshNode

/-- A node as the constructor leaves it. -/
def create (nodeId : String) (options : MeshOptions) (resources : ResourceState)
    (uuid : ℕ → String) : MeshNode where
  nodeId := nodeId
  ttl := options.defaultTtl
  minTrustToRelay := options.minTrustToRelay
  relayPolicy := options.relayPolicy
  resources := resources
  peers := OrderedMap.empty
  peerTransport := OrderedMap.empty
  peerConnectionCounts := OrderedMap.empty
  trust := ⟨OrderedMap.empty, options.maxTrustEntries⟩
  rateLimiter := ⟨.empty (4096 : ℤ), options.maxPacketsPerWindow, options.rateLimitWindowMs⟩
  seenCache := ⟨.empty (4096 : ℤ)⟩
  routingTable := .empty options.maxRoutingTableEntries options.maxRouteCost
  pendingDeliveries := .empty options.maxPendingDeliveries options.storeAndForwardTtlMs
  attempts := []
  sent := []
  updates := []
  uuid := uuid
  drawn := 0

/-- Packet ids for concrete runs: pairwise different, as those of `randomUUID`. -/
def sampleIds (i : ℕ) : String :=
  (["u0", "u1", "u2", "u3", "u4", "u5", "u6", "u7", "u8", "u9"][i]?).getD "u"

/-- The ROUTE_ANNOUNCE of concrete runs. -/
def sampleAnnouncement (id source : String) (destination : Option String)
    (routes : List JsValue) : Packet :=
  createPacket
    { type := .routeAnnounce, source := source, payload := .obj [("routes", .arr routes)]
      destination := destination, priority := .control } id 0

/-- The runs of one node. -/
def system : System MeshNode NodeEvent where
  Init n := ∃ nodeId options resources uuid, n = create nodeId options resources uuid
  step := step

end MeshNode
end Arald
