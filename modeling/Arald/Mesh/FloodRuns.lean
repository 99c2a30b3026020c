import Arald.Mesh.Custody
import Arald.Mesh.Network

/-!
# Runs of a network of honest nodes, with their history

A packet that a node has handed over arrives at its recipient at any later time,
any number of times and in any order. Beside the network, a run records what
statements about floods are about: the ids drawn, the connections opened, the
packets that arrived, those that were taken in, and the floods that succeeded.
The record reads the nodes and changes nothing.
-/

namespace Arald

open Foundations MeshNode

/-- The arrival of a packet at a node. -/
structure Arrival where
  nodeId : String
  packet : Packet
  fromPeerId : String

namespace Arrival

/-- If it is taken in, it goes to the local handlers. -/
def delivered (a : Arrival) : Bool := a.packet.isFor a.nodeId || a.packet.isBroadcast

/-- If it is taken in, it goes on to others. -/
def forwarded (a : Arrival) : Bool := !a.packet.isFor a.nodeId && a.packet.hasHopsLeft

end Arrival

structure FloodRun where
  network : Network
  /-- The packet ids drawn so far, in order. -/
  ids : List String
  /-- The connections opened so far, each as a node and its peer. -/
  links : List (String × String)
  arrivals : List Arrival
  /-- The arrivals that were admitted and no duplicates. -/
  intakes : List Arrival
  /-- The floods that some peer took, each as a node and a packet id. -/
  handedOn : List (String × String)

namespace FloodRun

def arrivalsOf (nodeId : String) : NodeEvent → List Arrival
  | .received packet fromPeerId _ => [⟨nodeId, packet, fromPeerId⟩]
  | _ => []

def intakesOf (nodeId : String) (n : MeshNode) : NodeEvent → List Arrival
  | .received packet fromPeerId now =>
    if n.takesIn packet fromPeerId now then [⟨nodeId, packet, fromPeerId⟩] else []
  | _ => []

/-- The run after an event at `nodeId` that turns `n` into `n'`. -/
def record (w : FloodRun) (nodeId : String) (event : NodeEvent) (n n' : MeshNode) : FloodRun where
  network := ⟨w.network.nodes.set nodeId n'⟩
  ids := w.ids ++ n.newIds n'
  links := w.links ++ (opensTo? event).toList.map fun peerId => (nodeId, peerId)
  arrivals := w.arrivals ++ arrivalsOf nodeId event
  intakes := w.intakes ++ intakesOf nodeId n event
  handedOn := w.handedOn ++ (n.handedIds event).map fun x => (nodeId, x)

def node? (w : FloodRun) (nodeId : String) : Option MeshNode := w.network.nodes.get? nodeId

def act (w : FloodRun) (nodeId : String) (event : NodeEvent) : Option FloodRun :=
  (w.node? nodeId).bind fun n => (n.step event).map fun n' => w.record nodeId event n n'

/-- One event of the network. All nodes are honest, so nothing is injected. -/
def step (w : FloodRun) : NetworkEvent → Option FloodRun
  | .internal nodeId event => if event.isArrival then none else w.act nodeId event
  | .arrived sender index now =>
    ((w.node? sender).bind fun n => n.sent[index]?).bind fun s =>
      w.act s.recipient (.received s.packet sender now)
  | .injected .. => none

/-- Fresh nodes, each under its own name, and an empty record. -/
def Initial (w : FloodRun) : Prop :=
  (∀ id n, w.node? id = some n →
    ∃ options resources uuid, n = create id options resources uuid) ∧
  w.ids = [] ∧ w.links = [] ∧ w.arrivals = [] ∧ w.intakes = [] ∧ w.handedOn = []

def system : System FloodRun NetworkEvent where
  Init := Initial
  step := step

/-- The packets delivered to local handlers. -/
def delivered (w : FloodRun) : List Arrival := w.intakes.filter Arrival.delivered

/-- The packets relayed, as they were received. -/
def forwarded (w : FloodRun) : List Arrival := w.intakes.filter Arrival.forwarded

/-- All connections opened so far, as a graph on node ids. -/
def topology (w : FloodRun) : SimpleGraph String :=
  SimpleGraph.fromRel fun u v => (u, v) ∈ w.links

variable {w w' : FloodRun} {nodeId : String} {event : NodeEvent}

/-- The record does not interfere: a run is a run of the network. -/
theorem network_step {e : NetworkEvent} (adversary : String) (h : step w e = some w') :
    Network.step adversary w.network e = some w'.network := by
  have hact : ∀ {nodeId event}, w.act nodeId event = some w' →
      w.network.act nodeId event = some w'.network := by
    intro nodeId event hact
    obtain ⟨n, hn, hmap⟩ := Option.bind_eq_some_iff.mp hact
    obtain ⟨n', hstep, rfl⟩ := Option.map_eq_some_iff.mp hmap
    rw [Network.act, show w.network.nodes.get? nodeId = some n from hn, Option.bind_some, hstep]
    rfl
  cases e with
  | internal nodeId event =>
    simp only [step] at h
    split_ifs at h with harrival
    simpa only [Network.step, harrival, if_false, Bool.false_eq_true] using hact h
  | arrived sender index now =>
    obtain ⟨s, hs, h⟩ := Option.bind_eq_some_iff.mp h
    rw [Network.step, show (w.network.nodes.get? sender).bind (fun n => n.sent[index]?) = some s
      from hs]
    exact hact h
  | injected recipient packet now => cases h

/-- What arrives was handed over by its sender, for the node it arrives at. -/
def Sent (w : FloodRun) (nodeId : String) (event : NodeEvent) : Prop :=
  ∀ packet fromPeerId now, event = .received packet fromPeerId now →
    ∃ m, w.node? fromPeerId = some m ∧ ∃ s ∈ m.sent, s.packet = packet ∧ s.recipient = nodeId

/-- Every step is an event at one node. -/
theorem step_cases {e : NetworkEvent} (h : step w e = some w') :
    ∃ nodeId event n n', w.node? nodeId = some n ∧ n.step event = some n' ∧
      w' = w.record nodeId event n n' ∧ w.Sent nodeId event := by
  have hact : ∀ {nodeId event}, w.act nodeId event = some w' →
      ∃ n n', w.node? nodeId = some n ∧ n.step event = some n' ∧
        w' = w.record nodeId event n n' := by
    intro nodeId event hact
    obtain ⟨n, hn, hmap⟩ := Option.bind_eq_some_iff.mp hact
    obtain ⟨n', hstep, rfl⟩ := Option.map_eq_some_iff.mp hmap
    exact ⟨n, n', hn, hstep, rfl⟩
  cases e with
  | internal nodeId event =>
    simp only [step] at h
    split_ifs at h with harrival
    obtain ⟨n, n', hn, hstep, hw'⟩ := hact h
    refine ⟨nodeId, event, n, n', hn, hstep, hw', ?_⟩
    rintro packet fromPeerId now rfl
    simp [NodeEvent.isArrival] at harrival
  | arrived sender index now =>
    obtain ⟨s, hs, h⟩ := Option.bind_eq_some_iff.mp h
    obtain ⟨m, hm, hsent⟩ := Option.bind_eq_some_iff.mp hs
    obtain ⟨n, n', hn, hstep, hw'⟩ := hact h
    refine ⟨s.recipient, .received s.packet sender now, n, n', hn, hstep, hw', ?_⟩
    rintro packet fromPeerId time heq
    injection heq with hpacket hsender htime
    subst hpacket hsender
    exact ⟨m, hm, s, List.mem_of_getElem? hsent, rfl, rfl⟩
  | injected recipient packet now => cases h

/-! ### What the nodes remember -/

/-- What a node remembers and holds is accounted for in the record. -/
structure Accounted (w : FloodRun) (id : String) (n : MeshNode) : Prop where
  named : n.nodeId = id
  capacity : n.seenCache.seen.maxSize = (4096 : ℤ)
  drawn : ∀ i < n.drawn, n.uuid i ∈ w.ids
  seen : ∀ x, n.seenCache.hasSeen x = true → x ∈ w.ids
  held : ∀ p, n.Holds p → p.id ∈ w.ids
  opened : ∀ p, n.peerTransport.has p = true → (id, p) ∈ w.links
  sent : ∀ s ∈ n.sent, (id, s.recipient) ∈ w.links

theorem not_holds_create {id : String} {options : MeshOptions} {resources : ResourceState}
    {uuid : ℕ → String} (p : Packet) : ¬(create id options resources uuid).Holds p := by
  rintro (⟨s, hs, -⟩ | ⟨a, ha, -⟩ | ⟨d, hd, -⟩)
  · cases hs
  · cases ha
  · rw [PendingDeliveryQueue.mem_held] at hd
    cases hd

theorem accounted_create (w : FloodRun) (id : String) (options : MeshOptions)
    (resources : ResourceState) (uuid : ℕ → String) :
    w.Accounted id (create id options resources uuid) where
  named := rfl
  capacity := rfl
  drawn := fun i hi => absurd hi (Nat.not_lt_zero i)
  seen := by
    intro x hx
    cases hx
  held := fun p hp => absurd hp (not_holds_create p)
  opened := by
    intro p hp
    cases hp
  sent := by
    intro s hs
    cases hs

theorem Accounted.mono {id : String} {n : MeshNode} (h : w.Accounted id n)
    (hids : ∀ x ∈ w.ids, x ∈ w'.ids) (hlinks : ∀ l ∈ w.links, l ∈ w'.links) :
    w'.Accounted id n where
  named := h.named
  capacity := h.capacity
  drawn := fun i hi => hids _ (h.drawn i hi)
  seen := fun x hx => hids x (h.seen x hx)
  held := fun p hp => hids _ (h.held p hp)
  opened := fun p hp => hlinks _ (h.opened p hp)
  sent := fun s hs => hlinks _ (h.sent s hs)

section Event

variable {n n' : MeshNode}

theorem ids_record : (w.record nodeId event n n').ids = w.ids ++ n.newIds n' := rfl

theorem ids_le_of_record {budget : ℕ} (h : (w.record nodeId event n n').ids.length ≤ budget) :
    w.ids.length ≤ budget := by
  rw [ids_record, List.length_append] at h
  omega

theorem mem_ids_record {x : String} (h : x ∈ w.ids) : x ∈ (w.record nodeId event n n').ids :=
  List.mem_append_left _ h

theorem mem_links_record {l : String × String} (h : l ∈ w.links) :
    l ∈ (w.record nodeId event n n').links :=
  List.mem_append_left _ h

/-- The ids an event makes a node take in were drawn before. -/
theorem mem_ids_of_accepted (haccounted : ∀ id n, w.node? id = some n → w.Accounted id n)
    (hsent : w.Sent nodeId event) {x : String} (hx : x ∈ n.acceptedIds event) : x ∈ w.ids := by
  cases event with
  | received packet fromPeerId now =>
    simp only [acceptedIds] at hx
    split_ifs at hx
    · obtain rfl := List.mem_singleton.mp hx
      obtain ⟨m, hm, s, hs, rfl, -⟩ := hsent packet fromPeerId now rfl
      exact (haccounted fromPeerId m hm).held _ (.inl ⟨s, hs, rfl⟩)
    · cases hx
  | _ => cases hx

variable (haccounted : ∀ id n, w.node? id = some n → w.Accounted id n)
  (hn : w.node? nodeId = some n) (hstep : n.step event = some n') (hsent : w.Sent nodeId event)
  (hbudget : (w.record nodeId event n n').ids.length ≤ 4096)
include haccounted hn hstep hsent hbudget

/-- While the ids fit into the cache, an event makes a node remember exactly the
ids it accepts and the ids it draws. -/
theorem hasSeen_of_step (x : String) :
    n'.seenCache.hasSeen x = true ↔
      n.seenCache.hasSeen x = true ∨ x ∈ n.acceptedIds event ∨ x ∈ n.newIds n' := by
  have hold := haccounted nodeId n hn
  obtain ⟨now, hseen⟩ := (step_effect hstep).seen
  have hroom : n.seenCache.RoomFor (w.record nodeId event n n').ids :=
    ⟨by rw [hold.capacity]; exact WithTop.coe_le_coe.mpr (by exact_mod_cast hbudget),
      fun y hy => mem_ids_record (hold.seen y hy)⟩
  have hknown : ∀ y ∈ n.acceptedIds event ++ n.newIds n', y ∈ (w.record nodeId event n n').ids := by
    intro y hy
    rcases List.mem_append.mp hy with haccepted | hnew
    · exact mem_ids_record (mem_ids_of_accepted haccounted hsent haccepted)
    · exact List.mem_append_right _ hnew
  rw [hseen, hroom.hasSeen_markAll hknown, List.mem_append]

theorem accounted_step : (w.record nodeId event n n').Accounted nodeId n' := by
  have hold := haccounted nodeId n hn
  have heffect := step_effect hstep
  have hdrawn : ∀ i < n'.drawn, n.uuid i ∈ (w.record nodeId event n n').ids := by
    intro i hi
    rcases lt_or_ge i n.drawn with hlt | hge
    · exact mem_ids_record (hold.drawn i hlt)
    · exact List.mem_append_right _ (mem_newIds.mpr ⟨i, hge, hi, rfl⟩)
  have hopened : ∀ p, n'.peerTransport.has p = true →
      (nodeId, p) ∈ (w.record nodeId event n n').links := by
    intro p hp
    rcases heffect.peerTransport p hp with hbefore | hopens
    · exact mem_links_record (hold.opened p hbefore)
    · refine List.mem_append_right _ (List.mem_map.mpr ⟨p, ?_, rfl⟩)
      simp [hopens]
  refine ⟨heffect.nodeId.trans hold.named, ?_, ?_, ?_, ?_, hopened, ?_⟩
  · obtain ⟨now, hseen⟩ := heffect.seen
    rw [hseen, SeenCache.maxSize_markAll, hold.capacity]
  · rw [heffect.uuid]
    exact hdrawn
  · intro x hx
    rcases (hasSeen_of_step haccounted hn hstep hsent hbudget x).mp hx with hseen | haccepted | hnew
    · exact mem_ids_record (hold.seen x hseen)
    · exact mem_ids_record (mem_ids_of_accepted haccounted hsent haccepted)
    · exact List.mem_append_right _ hnew
  · intro p hp
    rcases heffect.holds p hp with hheld | hown | hrelays
    · exact mem_ids_record (hold.held p hheld)
    · exact List.mem_append_right _ hown.id
    · exact mem_ids_record (mem_ids_of_accepted haccounted hsent hrelays.id_mem)
  · intro s hs
    rcases heffect.sent s hs with hbefore | hpeer
    · exact mem_links_record (hold.sent s hbefore)
    · exact hopened s.recipient hpeer

end Event

/-- Every node is accounted for, as long as the ids drawn fit into a seen cache. -/
theorem accounted (h : system.Reachable w) (hbudget : w.ids.length ≤ 4096) :
    ∀ id n, w.node? id = some n → w.Accounted id n := by
  refine h.invariant
    (I := fun w => w.ids.length ≤ 4096 → ∀ id n, w.node? id = some n → w.Accounted id n)
    ?_ ?_ hbudget
  · rintro w ⟨hfresh, -⟩ - id n hn
    obtain ⟨options, resources, uuid, rfl⟩ := hfresh id n hn
    exact accounted_create w id options resources uuid
  · rintro w e w' hI - hstep hbudget
    obtain ⟨nodeId, event, n, n', hn, hnode, rfl, hsent⟩ := step_cases hstep
    have hbefore := ids_le_of_record hbudget
    have haccounted := hI hbefore
    refine OrderedMap.forall_get?_set (P := fun id m =>
      (w.record nodeId event n n').Accounted id m) (fun id m hm => ?_) ?_
    · exact (haccounted id m hm).mono (fun _ => mem_ids_record) fun _ => mem_links_record
    · exact accounted_step haccounted hn hnode hsent hbudget

/-! ### Concrete runs -/

/-- Nodes named by a letter, with ids that repeat this letter. -/
def sample (options : MeshOptions) (names : List Char) : FloodRun where
  network := ⟨names.foldl (fun nodes c => nodes.set (String.singleton c)
    (create (String.singleton c) options ⟨none, none⟩
      fun i => String.ofList (List.replicate (i + 1) c))) OrderedMap.empty⟩
  ids := []
  links := []
  arrivals := []
  intakes := []
  handedOn := []

theorem initial_sample (options : MeshOptions) (names : List Char) :
    Initial (sample options names) := by
  refine ⟨?_, rfl, rfl, rfl, rfl, rfl⟩
  refine List.foldlRecOn (motive := fun nodes : OrderedMap String MeshNode =>
    ∀ id n, nodes.get? id = some n →
      ∃ options resources uuid, n = create id options resources uuid) names _ ?_ ?_
  · intro id n hn
    cases hn
  · intro nodes hnodes c _
    exact OrderedMap.forall_get?_set hnodes ⟨_, _, _, rfl⟩

/-- Both ends of a link see the connection. -/
def connect (u v : String) : List NetworkEvent :=
  [ .internal u (.connected "tcp" v .undefined [] [] 0),
    .internal v (.connected "tcp" u .undefined [] [] 0) ]

/-- A broadcast of no particular kind. -/
def floodFrom (nodeId : String) : NetworkEvent :=
  .internal nodeId (.flooded
    { type := .contentQuery, payload := .null, destination := none, priority := .content } 0)

end FloodRun
end Arald
