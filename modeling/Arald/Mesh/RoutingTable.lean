import Arald.Store.BoundedFifoMap
import Arald.Foundations.JsValue

/-!
# Distance-vector routing table

`routing-table.ts`. A destination is mapped to the best known next hop and its
cost in hops. A route carries the proof that its cost is positive, and the
table the proof that a route whose next hop is its destination costs exactly
one: `offer` checks both, so nothing else can be stored.
-/

namespace Arald

open Foundations

structure RouteEntry where
  nextHop : String
  cost : ℚ
  pos : 0 < cost
  deriving DecidableEq

structure RoutingTable where
  routes : BoundedFifoMap String RouteEntry
  maxCost : JsNumber
  direct : ∀ e ∈ routes.entries, e.2.nextHop = e.1 → e.2.cost = 1

namespace RoutingTable

def empty (maxSize : WithTop ℤ) (maxCost : JsNumber) : RoutingTable where
  routes := .empty maxSize
  maxCost := maxCost
  direct := by simp [BoundedFifoMap.entries, BoundedFifoMap.empty]

def bestRoute (t : RoutingTable) (destination : String) : Option RouteEntry :=
  t.routes.get? destination

/-- The direct link to a neighbour, at the only cost it can have. -/
def directLink (peerId : String) : RouteEntry := ⟨peerId, 1, one_pos⟩

/-- The guards at the head of `offer`: the route it would store, if any. -/
def candidate? (t : RoutingTable) (destination nextHop : String) :
    JsNumber → Option RouteEntry
  | .finite cost =>
    if destination = nextHop ∧ cost ≠ 1 then none
    else if hpos : 0 < cost then
      if t.maxCost.lt (.finite cost) then none else some ⟨nextHop, cost, hpos⟩
    else none
  | _ => none

/-- A different next hop takes over with a strictly better cost only; the next
hop in use may change its cost either way. -/
def takesOver (existing : Option RouteEntry) (candidate : RouteEntry) : Bool :=
  match existing with
  | none => true
  | some route =>
    if route.nextHop = candidate.nextHop then route.cost ≠ candidate.cost
    else !(route.cost ≤ candidate.cost)

theorem candidate?_some {t : RoutingTable} {destination nextHop : String} {cost : JsNumber}
    {route : RouteEntry} (h : t.candidate? destination nextHop cost = some route) :
    cost = .finite route.cost ∧ route.nextHop = nextHop ∧
      (destination = nextHop → route.cost = 1) ∧ t.maxCost.lt cost = false := by
  cases cost with
  | finite q =>
    rw [candidate?] at h
    split_ifs at h with hdirect hpos hmax
    obtain rfl := Option.some_inj.mp h
    have hone : destination = nextHop → q = 1 := fun heq => by
      by_contra hne
      exact hdirect ⟨heq, hne⟩
    exact ⟨rfl, rfl, hone, by simpa using hmax⟩
  | nan => simp [candidate?] at h
  | posInf => simp [candidate?] at h
  | negInf => simp [candidate?] at h

/-- Store a route that has passed the guards. The eviction score is the trust
rank of a route's next hop. -/
def adopt (t : RoutingTable) (trustRankOf : String → ℤ) (destination : String)
    (route : RouteEntry) (h : destination = route.nextHop → route.cost = 1) : RoutingTable where
  routes := t.routes.set (some fun _ entry => trustRankOf entry.nextHop) destination route
  maxCost := t.maxCost
  direct := by
    intro e he hhop
    rcases BoundedFifoMap.mem_entries_of_mem_set he with rfl | hold
    · exact h hhop.symm
    · exact t.direct e hold hhop

/-- Offer a route learned from `nextHop`; the flag says whether the table changed. -/
def offer (t : RoutingTable) (trustRankOf : String → ℤ) (destination nextHop : String)
    (cost : JsNumber) : RoutingTable × Bool :=
  match h : t.candidate? destination nextHop cost with
  | none => (t, false)
  | some route =>
    if takesOver (t.bestRoute destination) route then
      (t.adopt trustRankOf destination route fun heq =>
        (candidate?_some h).2.2.1 (heq.trans (candidate?_some h).2.1), true)
    else (t, false)

/-- The table without the routes that fail a test. -/
def keep (t : RoutingTable) (p : String → RouteEntry → Bool) : RoutingTable where
  routes := t.routes.filter p
  maxCost := t.maxCost
  direct := fun e he => t.direct e (BoundedFifoMap.mem_entries_filter.mp he).1

/-- Remove a route, but only if it still goes via `viaNextHop`. -/
def withdraw (t : RoutingTable) (destination viaNextHop : String) : RoutingTable × Bool :=
  match t.bestRoute destination with
  | some route =>
    if route.nextHop = viaNextHop then (t.keep fun d _ => d ≠ destination, true) else (t, false)
  | none => (t, false)

/-- Remove every route via `peerId` and list the destinations that are lost. -/
def removeRoutesVia (t : RoutingTable) (peerId : String) : RoutingTable × List String :=
  (t.keep fun _ route => route.nextHop ≠ peerId,
    (t.routes.entries.filter fun e => e.2.nextHop = peerId).map Prod.fst)

/-- A new destination would cost another one its route. -/
def atCapacity (t : RoutingTable) : Bool := t.routes.full

/-! ### What one update does to the best routes -/

theorem offer_cases (t : RoutingTable) (trustRankOf : String → ℤ) (destination nextHop : String)
    (cost : JsNumber) :
    (∃ route hroute, t.candidate? destination nextHop cost = some route ∧
      takesOver (t.bestRoute destination) route = true ∧
      t.offer trustRankOf destination nextHop cost =
        (t.adopt trustRankOf destination route hroute, true)) ∨
    ((∀ route, t.candidate? destination nextHop cost = some route →
        takesOver (t.bestRoute destination) route = false) ∧
      t.offer trustRankOf destination nextHop cost = (t, false)) := by
  unfold offer
  split
  · rename_i hnone
    exact .inr ⟨by simp [hnone], rfl⟩
  · rename_i route hroute
    split_ifs with htakes
    · have hone : destination = route.nextHop → route.cost = 1 := fun heq =>
        (candidate?_some hroute).2.2.1 (heq.trans (candidate?_some hroute).2.1)
      exact .inl ⟨route, hone, hroute, htakes, rfl⟩
    · refine .inr ⟨fun r hr => ?_, rfl⟩
      obtain rfl := Option.some_inj.mp (hroute.symm.trans hr)
      simpa using htakes

theorem maxSize_pos_of_room {t : RoutingTable} (hroom : t.atCapacity = false) :
    0 < t.routes.maxSize := by
  have hlt : (((t.routes.size : ℕ) : ℤ) : WithTop ℤ) < t.routes.maxSize := by
    simpa [atCapacity, BoundedFifoMap.full] using hroom
  refine lt_of_le_of_lt ?_ hlt
  exact_mod_cast Nat.zero_le t.routes.size

theorem bestRoute_adopt {t : RoutingTable} (trustRankOf : String → ℤ) {destination : String}
    {route : RouteEntry} (h : destination = route.nextHop → route.cost = 1)
    (hroom : t.atCapacity = false) (d : String) :
    (t.adopt trustRankOf destination route h).bestRoute d =
      if d = destination then some route else t.bestRoute d :=
  BoundedFifoMap.get?_set_of_room (maxSize_pos_of_room hroom) (.inr hroom) d

theorem bestRoute_keep (t : RoutingTable) (p : String → RouteEntry → Bool) (d : String) :
    (t.keep p).bestRoute d = (t.bestRoute d).filter (p d) :=
  BoundedFifoMap.get?_filter t.routes p d

theorem bestRoute_withdraw (t : RoutingTable) (destination viaNextHop d : String) :
    (t.withdraw destination viaNextHop).1.bestRoute d =
      (t.bestRoute d).filter fun route => !(d = destination ∧ route.nextHop = viaNextHop) := by
  unfold withdraw
  by_cases hd : d = destination
  · subst hd
    cases hroute : t.bestRoute d with
    | none => simp [hroute]
    | some route =>
      by_cases hvia : route.nextHop = viaNextHop
      · simp [bestRoute_keep, hroute, hvia, Option.filter_some]
      · simp [hroute, hvia, Option.filter_some]
  · have hsame : ∀ o : Option RouteEntry, o = o.filter fun _ => true := by
      rintro (_ | route) <;> rfl
    cases hroute : t.bestRoute destination with
    | none => simpa [hd] using hsame _
    | some route =>
      by_cases hvia : route.nextHop = viaNextHop
      · simp [hvia, bestRoute_keep, hd]
      · simpa [hvia, hd] using hsame _

theorem bestRoute_removeRoutesVia (t : RoutingTable) (peerId d : String) :
    (t.removeRoutesVia peerId).1.bestRoute d =
      (t.bestRoute d).filter fun route => route.nextHop ≠ peerId :=
  t.bestRoute_keep _ d

theorem bestRoute_direct {t : RoutingTable} {d : String} {route : RouteEntry}
    (h : t.bestRoute d = some route) (hhop : route.nextHop = d) : route = directLink d := by
  have hcost := t.direct (d, route) (BoundedFifoMap.get?_eq_some.mp h) hhop
  obtain ⟨hop, cost, hpos⟩ := route
  subst hhop
  obtain rfl : cost = 1 := hcost
  rfl

end RoutingTable
end Arald
