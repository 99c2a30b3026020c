import Arald.Mesh.RouteProvenance

/-!
# A network with one arbitrary peer

The honest nodes run the code of `MeshNode`. What a node has handed to its
transport may arrive at its recipient at any later time, any number of times
and in any order. One further peer, outside the map of honest nodes, delivers
whatever it likes to whoever is connected to it.
-/

namespace Arald

open Foundations MeshNode

structure Network where
  nodes : OrderedMap String MeshNode

inductive NetworkEvent where
  /-- Anything that happens at one honest node, except an arrival. -/
  | internal (nodeId : String) (event : NodeEvent)
  /-- The packet that `sender` handed over at this position of its log arrives. -/
  | arrived (sender : String) (index : ℕ) (now : ℤ)
  /-- A packet of the arbitrary peer arrives. -/
  | injected (recipient : String) (packet : Packet) (now : ℤ)

def NodeEvent.isArrival : NodeEvent → Bool
  | .received .. => true
  | _ => false

namespace Network

/-- An event at one honest node. -/
def act (w : Network) (nodeId : String) (event : NodeEvent) : Option Network :=
  (w.nodes.get? nodeId).bind fun n => (n.step event).map fun n' => ⟨w.nodes.set nodeId n'⟩

def step (adversary : String) (w : Network) : NetworkEvent → Option Network
  | .internal nodeId event => if event.isArrival then none else w.act nodeId event
  | .arrived sender index now =>
    ((w.nodes.get? sender).bind fun n => n.sent[index]?).bind fun s =>
      w.act s.recipient (.received s.packet sender now)
  | .injected recipient packet now => w.act recipient (.received packet adversary now)

/-- Every honest node starts fresh, under the name it is known by. -/
def Initial (adversary : String) (w : Network) : Prop :=
  (∀ id n, w.nodes.get? id = some n →
    ∃ options resources uuid, n = create id options resources uuid) ∧
  w.nodes.get? adversary = none

def system (adversary : String) : System Network NetworkEvent where
  Init := Initial adversary
  step := step adversary

/-- Every packet of the arbitrary peer stays on the link it arrives by. -/
def injectsOnLink (adversary : String) (w : Network) : NetworkEvent → Bool
  | .injected recipient packet now =>
    (w.nodes.get? recipient).all fun n => n.staysOnLink packet adversary now
  | _ => true

/-- Every honest node announces in its own name. -/
def AllOwn (w : Network) : Prop := ∀ id n, w.nodes.get? id = some n → AnnouncesOwn id n

theorem AllOwn.act {w w' : Network} {nodeId : String} {event : NodeEvent} (h : AllOwn w)
    (hlink : ∀ n packet fromPeerId now, w.nodes.get? nodeId = some n →
      event = .received packet fromPeerId now → n.staysOnLink packet fromPeerId now = true)
    (hact : w.act nodeId event = some w') : AllOwn w' := by
  obtain ⟨n, hn, hmap⟩ := Option.bind_eq_some_iff.mp hact
  obtain ⟨n', hstep, rfl⟩ := Option.map_eq_some_iff.mp hmap
  intro id m hm
  rw [OrderedMap.get?_set] at hm
  split_ifs at hm with hid
  · obtain rfl := Option.some_inj.mp hm
    subst hid
    exact (h id n hn).step (fun packet fromPeerId now heq => hlink n packet fromPeerId now hn heq)
      hstep
  · exact h id m hm

/-- One network event. Only the arbitrary peer needs the condition: what honest
nodes have sent is on its link by the invariant. -/
theorem AllOwn.step {adversary : String} {w w' : Network} {event : NetworkEvent} (h : AllOwn w)
    (hcond : injectsOnLink adversary w event = true) (hstep : step adversary w event = some w') :
    AllOwn w' := by
  cases event with
  | internal nodeId event =>
    simp only [Network.step] at hstep
    split_ifs at hstep with harrival
    refine h.act ?_ hstep
    rintro n packet fromPeerId now - rfl
    simp [NodeEvent.isArrival] at harrival
  | arrived sender index now =>
    obtain ⟨s, hs, hact⟩ := Option.bind_eq_some_iff.mp hstep
    obtain ⟨n, hn, hsent⟩ := Option.bind_eq_some_iff.mp hs
    refine h.act ?_ hact
    rintro m packet fromPeerId time hm heq
    injection heq with hpacket hsender htime
    subst hpacket hsender htime
    refine staysOnLink_of_own fun htype => ?_
    obtain ⟨hsource, hfor⟩ := (h sender n hn).sent s (List.mem_of_getElem? hsent) htype
    exact ⟨hsource, by rwa [(h s.recipient m hm).named]⟩
  | injected recipient packet now =>
    refine h.act ?_ hstep
    rintro n packet' fromPeerId time hn heq
    injection heq with hpacket hsender htime
    subst hpacket hsender htime
    simpa [injectsOnLink, hn] using hcond

/-- Two honest nodes, `a` and `b`. -/
def samplePair : Network where
  nodes := (OrderedMap.empty.set "a" (create "a" {} ⟨none, none⟩ sampleIds)).set "b"
    (create "b" {} ⟨none, none⟩ sampleIds)

theorem initial_samplePair : Initial "m" samplePair := by
  constructor
  · intro id n hn
    simp only [samplePair, OrderedMap.get?_set, OrderedMap.get?_empty] at hn
    split_ifs at hn with hb ha
    · exact ⟨{}, ⟨none, none⟩, sampleIds, by rw [hb, ← Option.some_inj.mp hn]⟩
    · exact ⟨{}, ⟨none, none⟩, sampleIds, by rw [ha, ← Option.some_inj.mp hn]⟩
  · decide

/-- `m` announces a route to its neighbour `a`, which announces it to `b`. -/
def neighbourlyRun : List NetworkEvent :=
  [ .internal "a" (.connected "tcp" "m" .undefined [] [] 0),
    .internal "a" (.connected "tcp" "b" .undefined [] [] 0),
    .internal "b" (.connected "tcp" "a" .undefined [] [] 0),
    .injected "a" (sampleAnnouncement "x" "m" (some "a") [routeJs "z" (some 0)]) 1,
    .arrived "a" 7 2 ]

/-- `m` sends its announcement without a destination; `a` relays it to `b`,
which adopts the route as one of `a`. -/
def relayedRun : List NetworkEvent :=
  [ .internal "a" (.connected "tcp" "m" .undefined [] [] 0),
    .internal "a" (.connected "tcp" "b" .undefined [] [] 0),
    .internal "b" (.connected "tcp" "a" .undefined [] [] 0),
    .injected "a" (sampleAnnouncement "x" "m" none [routeJs "z" (some 0)]) 1,
    .arrived "a" 8 2 ]

end Network
end Arald
