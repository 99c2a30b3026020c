import Arald.Foundations.JsValue

/-!
# Packets

The envelope of `packet.ts`. `decodePacket` checks that `id`, `type` and
`source` are strings and that `ttl` is a number; every other field is whatever
the sender wrote, so it stays a `JsValue` here.
-/

namespace Arald

open Foundations

inductive MessageType where
  | hello
  | ping
  | pong
  | peerList
  | data
  | ack
  | contentQuery
  | contentFound
  | contentNotFound
  | contentRequest
  | contentChunk
  | contentComplete
  | contentAnnounce
  | syncRequest
  | syncResponse
  | identityRequest
  | identityResponse
  | privateMessage
  | routeAnnounce
  | serviceAnnounce
  | serviceQuery
  | serviceRequest
  | serviceResponse
  | groupMessage
  | externalDelivery
  /-- Any other string in the `type` field. -/
  | other (name : String)
  deriving DecidableEq

/-- Traffic classes, the lowest number being the most urgent. -/
inductive Priority where
  | emergency
  | control
  | messaging
  | service
  | content
  | bulk
  deriving DecidableEq

namespace Priority

def toNat : Priority → ℕ
  | emergency => 0
  | control => 1
  | messaging => 2
  | service => 3
  | content => 4
  | bulk => 5

def levelCount : ℕ := 6

def ofNat? : ℕ → Option Priority
  | 0 => some emergency
  | 1 => some control
  | 2 => some messaging
  | 3 => some service
  | 4 => some content
  | 5 => some bulk
  | _ => none

/-- The number a priority is on the wire. -/
def toJs (p : Priority) : JsValue := .num (.finite p.toNat)

@[simp] theorem ofNat?_toNat (p : Priority) : ofNat? p.toNat = some p := by
  cases p <;> rfl

theorem toNat_injective : Function.Injective toNat := by
  intro p q h
  have hof := congrArg ofNat? h
  simpa using hof

theorem toNat_lt_levelCount (p : Priority) : p.toNat < levelCount := by
  cases p <;> decide

end Priority

/-- An untrusted priority; whatever is not a valid level counts as the least
urgent one. -/
def priorityRank : JsValue → Priority
  | .num (.finite q) =>
    if q.den = 1 ∧ 0 ≤ q.num ∧ q.num < Priority.levelCount then
      (Priority.ofNat? q.num.toNat).getD .bulk
    else .bulk
  | _ => .bulk

@[simp] theorem priorityRank_toJs (p : Priority) : priorityRank p.toJs = p := by
  have hlt := p.toNat_lt_levelCount
  simp [priorityRank, Priority.toJs, hlt]

structure Packet where
  version : JsValue
  id : String
  type : MessageType
  source : String
  /-- `undefined` is a broadcast. -/
  destination : JsValue
  ttl : JsNumber
  timestamp : JsValue
  priority : JsValue
  payload : JsValue

namespace Packet

/-- `packet.destination === nodeId`. -/
def isFor (p : Packet) (nodeId : String) : Bool := p.destination.string? = some nodeId

/-- `packet.destination === undefined`. -/
def isBroadcast (p : Packet) : Bool := p.destination.isUndefined

/-- The packet has a destination and it is not `nodeId`. -/
def isElsewhere (p : Packet) (nodeId : String) : Bool := !p.isBroadcast && !p.isFor nodeId

/-- The packet never expires in a store-and-forward queue. -/
def isEmergency (p : Packet) : Bool := priorityRank p.priority = .emergency

theorem not_isBroadcast_of_isFor {p : Packet} {nodeId : String} (h : p.isFor nodeId = true) :
    p.isBroadcast = false := by
  unfold isFor at h
  unfold isBroadcast
  cases hd : p.destination <;> simp_all [JsValue.string?, JsValue.isUndefined]

end Packet

def protocolVersion : JsValue := .num (.finite 1)

def defaultTtl : JsNumber := .finite 8

/-- What `createPacket` is asked for; the priority defaults to `MESSAGING`. -/
structure PacketOptions where
  type : MessageType
  source : String
  payload : JsValue
  destination : Option String := none
  ttl : JsNumber := defaultTtl
  priority : Priority := .messaging

/-- `id` is what `randomUUID` returns and `now` what `Date.now` does. -/
def createPacket (options : PacketOptions) (id : String) (now : ℤ) : Packet where
  version := protocolVersion
  id := id
  type := options.type
  source := options.source
  destination := match options.destination with
    | some d => .str d
    | none => .undefined
  ttl := options.ttl
  timestamp := .num (.finite now)
  priority := options.priority.toJs
  payload := options.payload

end Arald
