import Arald.Mesh.Frames

/-!
# Routes to connected neighbours

A connected peer should be reached directly, at cost one. The direct link and
the routes learned from announcements share one table and one rule, "strictly
better", so the link survives an event only under a condition: an announced
cost must not undercut one hop, and a route that is held when a neighbour
connects must be dearer than one hop or already be its own.
-/

namespace Arald
namespace MeshNode

open Foundations RoutingTable

/-- Every connected peer is reached directly, at cost one. -/
def ReachesNeighbours (n : MeshNode) : Prop :=
  ∀ p, n.peerTransport.has p = true → n.routingTable.bestRoute p = some (directLink p)

/-! ### Conditions on one event -/

/-- The tables the loop of `handleRouteAnnounce` passes through. -/
def loopTables (n : MeshNode) (packet : Packet) (fromPeerId : String) : List RoutingTable :=
  (n.routeRequests packet).inits.map fun requests =>
    (requests.foldl (applyRequest n.trustRankOf fromPeerId) ⟨n.routingTable, [], []⟩).table

/-- The packet reaches `handleRouteAnnounce`. -/
def announces (n : MeshNode) (packet : Packet) (fromPeerId : String) (now : ℤ) : Bool :=
  n.takesIn packet fromPeerId now && n.deliversLocally packet && packet.type = .routeAnnounce

/-- No table that the event passes through is at capacity. -/
def neverFull (n : MeshNode) : NodeEvent → Bool
  | .connected .. => !n.routingTable.atCapacity
  | .received packet fromPeerId now =>
    !n.announces packet fromPeerId now ||
      (n.loopTables packet fromPeerId).all fun t => !t.atCapacity
  | _ => true

/-- The direct link to a peer that connects is at least as good as the route
held for it, and within the cost limit. -/
def linkTakesOver (n : MeshNode) (peerId : String) : Bool :=
  !n.routingTable.maxCost.lt (.finite 1) &&
    (n.routingTable.bestRoute peerId).all fun route => route.nextHop = peerId || 1 < route.cost

/-- The request does not undercut the direct link to a connected peer: an
announcer does not withdraw itself, and reaches nobody else's neighbour in less
than one hop. -/
def respectsLinks (n : MeshNode) (fromPeerId : String) : RouteRequest → Bool
  | .withdraw destination => destination ≠ fromPeerId
  | .offer destination cost =>
    !n.peerTransport.has destination || destination = fromPeerId ||
      !(JsNumber.lt (.finite 0) (cost.add (.finite 1)) &&
        (cost.add (.finite 1)).lt (.finite 1))

/-- The condition under which an event leaves every neighbour directly reached. -/
def keepsLinks (n : MeshNode) : NodeEvent → Bool
  | .connected _ peerId .. => n.linkTakesOver peerId
  | .received packet fromPeerId now =>
    !n.announces packet fromPeerId now ||
      (n.routeRequests packet).all fun request => n.respectsLinks fromPeerId request
  | _ => true

/-! ### One request of an announcement -/

section Loop

variable {n : MeshNode} {fromPeerId : String} {trustRankOf : String → ℤ}

theorem bestRoute_applyRequest {loop : AnnounceLoop} {request : RouteRequest} {p : String}
    (hp : n.peerTransport.has p = true) (hdirect : loop.table.bestRoute p = some (directLink p))
    (hroom : loop.table.atCapacity = false)
    (hrequest : n.respectsLinks fromPeerId request = true) :
    (applyRequest trustRankOf fromPeerId loop request).table.bestRoute p =
      some (directLink p) := by
  cases request with
  | withdraw destination =>
    have hne : destination ≠ fromPeerId := by simpa [respectsLinks] using hrequest
    have hother : ¬(p = destination ∧ p = fromPeerId) := fun h => hne (h.1.symm.trans h.2)
    simp [applyRequest, bestRoute_withdraw, hdirect, directLink, Option.filter_some, hother]
  | offer destination cost =>
    rcases loop.table.offer_cases trustRankOf destination fromPeerId (cost.add (.finite 1)) with
      ⟨route, hroute, hcandidate, htakes, hoffer⟩ | ⟨-, hoffer⟩
    · obtain ⟨hcost, hhop, hone, -⟩ := candidate?_some hcandidate
      simp only [applyRequest, hoffer, bestRoute_adopt trustRankOf hroute hroom]
      split_ifs with hpd
      · -- an adopted route for a neighbour would have to beat cost one
        subst hpd
        rw [hdirect, takesOver, directLink] at htakes
        by_cases hself : p = route.nextHop
        · have : route.cost = 1 := hone (hself.trans hhop)
          simp [hself, this] at htakes
        · have hless : route.cost < 1 := by simpa [hself] using htakes
          have hnf : p ≠ fromPeerId := fun h => hself (h.trans hhop.symm)
          simp [respectsLinks, hp, hnf, hcost, hless, route.pos] at hrequest
      · exact hdirect
    · simpa [applyRequest, hoffer] using hdirect

/-- A whole announcement keeps the link to `p` when every request respects the
links and every table on the way has room. -/
theorem bestRoute_announceLoop {requests : List RouteRequest} {p : String} {loop : AnnounceLoop}
    (hp : n.peerTransport.has p = true) (hdirect : loop.table.bestRoute p = some (directLink p))
    (hroom : ∀ rs ∈ requests.inits,
      (rs.foldl (applyRequest trustRankOf fromPeerId) loop).table.atCapacity = false)
    (hrequests : ∀ r ∈ requests, n.respectsLinks fromPeerId r = true) :
    (requests.foldl (applyRequest trustRankOf fromPeerId) loop).table.bestRoute p =
      some (directLink p) := by
  induction requests generalizing loop with
  | nil => exact hdirect
  | cons request rest ih =>
    have hhead : loop.table.atCapacity = false := hroom [] (by simp)
    refine ih (bestRoute_applyRequest hp hdirect hhead (hrequests _ (by simp))) ?_
      fun r hr => hrequests r (List.mem_cons_of_mem _ hr)
    intro rs hrs
    refine hroom (request :: rs) ?_
    rw [List.inits_cons]
    exact List.mem_cons_of_mem _ (List.mem_map_of_mem hrs)

end Loop

/-! ### One event -/

/-- The same table, for the same connections. -/
def SameRoutes (n n' : MeshNode) : Prop :=
  n'.peerTransport = n.peerTransport ∧ n'.routingTable = n.routingTable

section Events

variable {n n' n'' : MeshNode}

theorem SameRoutes.trans (h : SameRoutes n n') (h' : SameRoutes n' n'') : SameRoutes n n'' :=
  ⟨h'.1.trans h.1, h'.2.trans h.2⟩

theorem DeliversOnly.sameRoutes (h : DeliversOnly n n') : SameRoutes n n' :=
  ⟨h.peerTransport, h.routingTable⟩

theorem SendsOnly.sameRoutes (h : SendsOnly n n') : SameRoutes n n' := h.deliversOnly.sameRoutes

theorem propagateChanges_sameRoutes (n : MeshNode) (packet : Packet) (fromPeerId : String)
    (changed : List String) (now : ℤ) :
    SameRoutes n (n.propagateChanges packet fromPeerId changed now) := by
  unfold propagateChanges
  split_ifs
  · exact ⟨rfl, rfl⟩
  · have h := (announceToOthers_sendsOnly
      { n with updates := n.updates ++ [⟨fromPeerId, packet, changed⟩] } fromPeerId changed now)
    exact ⟨h.sameRoutes.1, h.sameRoutes.2⟩

theorem handleRouteAnnounce_sameRoutes (n : MeshNode) (packet : Packet) (fromPeerId : String)
    (now : ℤ) : SameRoutes { n with routingTable := (n.announceLoop packet fromPeerId).table }
      (n.handleRouteAnnounce packet fromPeerId now) :=
  (propagateChanges_sameRoutes ..).trans (propagateWithdrawals_sendsOnly ..).sameRoutes

/-- Delivering anything but an announcement leaves the routes alone. -/
theorem deliver_sameRoutes (n : MeshNode) {packet : Packet} (fromPeerId : String) (now : ℤ)
    (htype : packet.type ≠ .routeAnnounce) : SameRoutes n (n.deliver packet fromPeerId now) := by
  have hsend := fun options => (n.sendOriginated_sendsOnly fromPeerId options now).sameRoutes
  unfold deliver
  split
  · exact hsend _
  · exact ⟨rfl, rfl⟩
  · exact hsend _
  next hannounce => exact absurd hannounce htype
  · exact ⟨rfl, rfl⟩

theorem deliver_routeAnnounce (n : MeshNode) {packet : Packet} (fromPeerId : String) (now : ℤ)
    (htype : packet.type = .routeAnnounce) :
    n.deliver packet fromPeerId now = n.handleRouteAnnounce packet fromPeerId now := by
  simp [deliver, htype]

/-- The node with the table an announcement leaves behind, if the packet is one. -/
def withAnnounced (n : MeshNode) (packet : Packet) (fromPeerId : String) (now : ℤ) : MeshNode :=
  if n.announces packet fromPeerId now then
    { n with routingTable := (n.announceLoop packet fromPeerId).table }
  else n

theorem intake_deliver_sameRoutes {packet : Packet} {fromPeerId : String} {now : ℤ}
    (htaken : n.takesIn packet fromPeerId now = true) :
    SameRoutes (n.withAnnounced packet fromPeerId now)
      (if n.deliversLocally packet then (n.intake packet fromPeerId now).deliver packet fromPeerId now
        else n.intake packet fromPeerId now) := by
  by_cases hlocal : n.deliversLocally packet = true
  · by_cases htype : packet.type = .routeAnnounce
    · have hannounces : n.announces packet fromPeerId now = true := by
        simp [announces, htaken, hlocal, htype]
      rw [withAnnounced, if_pos hannounces, if_pos hlocal, deliver_routeAnnounce _ _ _ htype]
      exact (n.intake packet fromPeerId now).handleRouteAnnounce_sameRoutes packet fromPeerId now
    · have hannounces : ¬n.announces packet fromPeerId now = true := by simp [announces, htype]
      rw [withAnnounced, if_neg hannounces, if_pos hlocal]
      exact (n.intake packet fromPeerId now).deliver_sameRoutes fromPeerId now htype
  · have hannounces : ¬n.announces packet fromPeerId now = true := by simp [announces, hlocal]
    rw [withAnnounced, if_neg hannounces, if_neg hlocal]
    exact ⟨rfl, rfl⟩

theorem handlePacket_sameRoutes (n : MeshNode) (packet : Packet) (fromPeerId : String) (now : ℤ) :
    SameRoutes (n.withAnnounced packet fromPeerId now)
      (n.handlePacket packet fromPeerId now) := by
  by_cases htaken : n.takesIn packet fromPeerId now = true
  · rw [handlePacket_of_takesIn htaken]
    have hdelivered := intake_deliver_sameRoutes htaken
    by_cases hrelays : n.relays packet = true
    · simp only [hrelays, if_true]
      exact hdelivered.trans (forward_deliversOnly ..).sameRoutes
    · simpa only [hrelays, if_false, Bool.false_eq_true] using hdelivered
  · have hnot : n.takesIn packet fromPeerId now = false := by simpa using htaken
    rw [handlePacket_of_not_takesIn hnot]
    simp [withAnnounced, announces, hnot, SameRoutes]

theorem peerConnected_sameRoutes (n : MeshNode) (transport peerId : String) (address : JsValue)
    (knownContentIds knownNodeIds : List JsValue) (now : ℤ) :
    ∃ trustRankOf, SameRoutes
      { n with
        peerTransport := n.peerTransport.set peerId transport
        routingTable := (n.routingTable.offer trustRankOf peerId peerId (.finite 1)).1 }
      (n.peerConnected transport peerId address knownContentIds knownNodeIds now) := by
  have hopen : ∀ m, DeliversOnly (n.link transport peerId address now) m →
      ∃ trustRankOf, SameRoutes
        { n with
          peerTransport := n.peerTransport.set peerId transport
          routingTable := (n.routingTable.offer trustRankOf peerId peerId (.finite 1)).1 }
        (m.openRoute peerId now) := by
    intro m hm
    have hopened := (m.openRoute_sendsOnly peerId now).sameRoutes
    refine ⟨m.trustRankOf, hopened.1.trans hm.peerTransport, hopened.2.trans ?_⟩
    dsimp only
    rw [hm.routingTable]
    rfl
  exact hopen _ ((flushPendingDeliveries_deliversOnly ..).trans
    (startSync_sendsOnly ..).deliversOnly)

theorem peerDisconnected_sameRoutes (n : MeshNode) (peerId : String) (now : ℤ) :
    SameRoutes (n.unlink peerId) (n.peerDisconnected peerId now) :=
  (propagateWithdrawals_sendsOnly ..).sameRoutes

/-! ### The invariant -/

theorem ReachesNeighbours.of_sameRoutes (h : ReachesNeighbours n) (hsame : SameRoutes n n') :
    ReachesNeighbours n' := by
  intro p hp
  rw [hsame.1] at hp
  rw [hsame.2]
  exact h p hp

theorem reachesNeighbours_create (nodeId : String) (options : MeshOptions)
    (resources : ResourceState) (uuid : ℕ → String) :
    ReachesNeighbours (create nodeId options resources uuid) := by
  intro p hp
  simp [create, OrderedMap.has] at hp

theorem reachesNeighbours_connected (h : ReachesNeighbours n) (transport peerId : String)
    (address : JsValue) (knownContentIds knownNodeIds : List JsValue) (now : ℤ)
    (hroom : n.routingTable.atCapacity = false) (hlink : n.linkTakesOver peerId = true) :
    ReachesNeighbours
      (n.peerConnected transport peerId address knownContentIds knownNodeIds now) := by
  obtain ⟨trustRankOf, hsame⟩ := n.peerConnected_sameRoutes transport peerId address
    knownContentIds knownNodeIds now
  refine ReachesNeighbours.of_sameRoutes ?_ hsame
  intro p hp
  obtain ⟨hmax, hheld⟩ : n.routingTable.maxCost.lt (.finite 1) = false ∧
      ∀ route, n.routingTable.bestRoute peerId = some route →
        route.nextHop = peerId ∨ 1 < route.cost := by
    simpa [linkTakesOver, Option.all_eq_true] using hlink
  have hcandidate : n.routingTable.candidate? peerId peerId (.finite 1) =
      some (directLink peerId) := by
    simp [candidate?, hmax, directLink]
  rcases n.routingTable.offer_cases trustRankOf peerId peerId (.finite 1) with
    ⟨route, hroute, hcand, htakes, hoffer⟩ | ⟨hrefused, hoffer⟩
  · obtain rfl : directLink peerId = route := Option.some_inj.mp (hcandidate.symm.trans hcand)
    simp only [hoffer, bestRoute_adopt trustRankOf hroute hroom]
    split_ifs with hpp
    · rw [hpp]
    · refine h p ?_
      simpa [OrderedMap.has, OrderedMap.get?_set, hpp] using hp
  · simp only [hoffer]
    by_cases hpp : p = peerId
    · -- the offer was refused, so the route held is the direct link already
      subst hpp
      have hrefuse := hrefused _ hcandidate
      cases hbest : n.routingTable.bestRoute p with
      | none => simp [takesOver, hbest] at hrefuse
      | some route =>
        have hhop : route.nextHop = p := by
          by_contra hne
          have hdear := (hheld route hbest).resolve_left hne
          rw [hbest, takesOver, if_neg (show route.nextHop ≠ (directLink p).nextHop from hne),
            Bool.not_eq_false'] at hrefuse
          exact absurd hdear (not_lt.mpr (of_decide_eq_true hrefuse))
        rw [bestRoute_direct hbest hhop]
    · refine h p ?_
      simpa [OrderedMap.has, OrderedMap.get?_set, hpp] using hp

theorem reachesNeighbours_disconnected (h : ReachesNeighbours n) (peerId : String) (now : ℤ) :
    ReachesNeighbours (n.peerDisconnected peerId now) := by
  refine ReachesNeighbours.of_sameRoutes ?_ (n.peerDisconnected_sameRoutes peerId now)
  intro p hp
  have hp' : p ≠ peerId ∧ n.peerTransport.has p = true := by
    by_cases hpp : p = peerId
    · simp [unlink, OrderedMap.has, hpp] at hp
    · exact ⟨hpp, by simpa [unlink, OrderedMap.has, OrderedMap.get?_delete, hpp] using hp⟩
  simp only [unlink, bestRoute_removeRoutesVia, h p hp'.2]
  simp [directLink, Option.filter_some, hp'.1]

theorem reachesNeighbours_received (h : ReachesNeighbours n) (packet : Packet)
    (fromPeerId : String) (now : ℤ)
    (hroom : n.neverFull (.received packet fromPeerId now) = true)
    (hlinks : n.keepsLinks (.received packet fromPeerId now) = true) :
    ReachesNeighbours (n.handlePacket packet fromPeerId now) := by
  refine ReachesNeighbours.of_sameRoutes ?_ (n.handlePacket_sameRoutes packet fromPeerId now)
  unfold withAnnounced
  split_ifs with hannounces
  · intro p hp
    have htables : ∀ rs ∈ (n.routeRequests packet).inits,
        (rs.foldl (applyRequest n.trustRankOf fromPeerId)
          ⟨n.routingTable, [], []⟩).table.atCapacity = false := by
      simpa [neverFull, hannounces, loopTables] using hroom
    have hrequests : ∀ r ∈ n.routeRequests packet, n.respectsLinks fromPeerId r = true := by
      simpa [keepsLinks, hannounces] using hlinks
    exact bestRoute_announceLoop (n := n) hp (h p hp) htables hrequests
  · exact h

/-- In a run whose table never reaches capacity and whose events all keep the
links, every connected peer is reached directly at cost one, always. -/
theorem neighbours_reached_directly
    (h : system.ReachableUnder (fun n e => (n.neverFull e && n.keepsLinks e) = true) n) :
    ∀ p, n.peerTransport.has p = true → n.routingTable.bestRoute p = some (directLink p) := by
  refine h.invariant (I := ReachesNeighbours) ?_ ?_
  · rintro _ ⟨nodeId, options, resources, uuid, rfl⟩
    exact reachesNeighbours_create nodeId options resources uuid
  · intro n e n' hn hcond hstep
    obtain ⟨hroom, hlinks⟩ := Bool.and_eq_true_iff.mp hcond
    cases e with
    | connected transport peerId address knownContentIds knownNodeIds now =>
      obtain rfl := Option.some_inj.mp hstep
      exact reachesNeighbours_connected hn _ _ _ _ _ _ (by simpa [neverFull] using hroom) hlinks
    | disconnected peerId now =>
      obtain rfl := Option.some_inj.mp hstep
      exact reachesNeighbours_disconnected hn peerId now
    | received packet fromPeerId now =>
      simp only [system, step] at hstep
      split_ifs at hstep
      obtain rfl := Option.some_inj.mp hstep
      exact reachesNeighbours_received hn packet fromPeerId now hroom hlinks
    | flooded options now =>
      simp only [system, step] at hstep
      split_ifs at hstep
      obtain rfl := Option.some_inj.mp hstep
      exact hn.of_sameRoutes (DeliversOnly.sameRoutes
        ((n.afterOriginate_sendsOnly now).deliversOnly.trans (floodExcept_deliversOnly ..)))
    | sentTo peerId options now =>
      simp only [system, step] at hstep
      split_ifs at hstep
      obtain rfl := Option.some_inj.mp hstep
      exact hn.of_sameRoutes (sendOriginated_sendsOnly ..).sameRoutes
    | settled index delivered now =>
      simp only [system, step] at hstep
      split at hstep
      · split_ifs at hstep
        obtain rfl := Option.some_inj.mp hstep
        exact hn.of_sameRoutes (SameRoutes.trans ⟨rfl, rfl⟩ (settle_deliversOnly ..).sameRoutes)
      · cases hstep
    | trustChanged trust =>
      obtain rfl := Option.some_inj.mp hstep
      exact hn
    | resourcesChanged resources =>
      obtain rfl := Option.some_inj.mp hstep
      exact hn

end Events

/-- A route learned at cost two gives way when its destination connects. -/
def overtakingRun : List NodeEvent :=
  [ .connected "tcp" "q" .undefined [] [] 0,
    .received (sampleAnnouncement "x" "q" (some "a") [routeJs "p" (some 1)]) "q" 1,
    .connected "tcp" "p" .undefined [] [] 2 ]

theorem neighbours_reached_directly_overtaking :
    ∃ n, system.runUnder (fun n e => n.neverFull e && n.keepsLinks e)
        (create "a" {} ⟨none, none⟩ sampleIds) overtakingRun = some n ∧
      n.routingTable.bestRoute "p" = some (directLink "p") := by
  have hrun : ((system.runUnder (fun n e => n.neverFull e && n.keepsLinks e)
      (create "a" {} ⟨none, none⟩ sampleIds) overtakingRun).map fun n =>
        n.peerTransport.has "p") = some true := by
    decide +kernel
  obtain ⟨n, hn, hp⟩ := Option.map_eq_some_iff.mp hrun
  exact ⟨n, hn, neighbours_reached_directly
    (System.reachableUnder_of_runUnder ⟨_, _, _, _, rfl⟩ hn) "p" hp⟩

/-- An announcement at cost zero, heard before its destination connects, is held
at cost one; the direct link is then not strictly better and is refused. -/
def divertingRun : List NodeEvent :=
  [ .connected "tcp" "q" .undefined [] [] 0,
    .received (sampleAnnouncement "x" "q" (some "a") [routeJs "p" (some 0)]) "q" 1,
    .connected "tcp" "p" .undefined [] [] 2 ]

theorem neighbour_diverted :
    ¬∀ n, system.ReachableUnder (fun n e => n.neverFull e = true) n →
      ∀ p, n.peerTransport.has p = true → n.routingTable.bestRoute p = some (directLink p) := by
  intro hclaim
  have hrun : ((system.runUnder neverFull (create "a" {} ⟨none, none⟩ sampleIds) divertingRun).map
      fun n => (n.peerTransport.has "p", (n.routingTable.bestRoute "p").map RouteEntry.nextHop)) =
        some (true, some "q") := by
    decide +kernel
  obtain ⟨n, hn, hend⟩ := Option.map_eq_some_iff.mp hrun
  obtain ⟨hp, hhop⟩ := Prod.mk.inj hend
  rw [hclaim n (System.reachableUnder_of_runUnder ⟨_, _, _, _, rfl⟩ hn) "p" hp] at hhop
  simp [directLink] at hhop

end MeshNode
end Arald
