import Arald.Foundations.Runs
import Arald.Mesh.RoutingTable

/-!
# Routes and the latest adverts

A routing table by itself, with the offers made to it on record. A next hop that
changes its cost changes the route; an offer that the guards of `offer` refuse
leaves the route as it is, also when the next hop in use makes it.
-/

namespace Arald

open Foundations

structure RouteOffer where
  destination : String
  nextHop : String
  cost : JsNumber
  deriving DecidableEq

structure AdvertisedRoutes where
  table : RoutingTable
  /-- Every offer made, the latest first. -/
  offers : List RouteOffer

inductive RouteUpdate where
  | offer (o : RouteOffer) (trustRankOf : String → ℤ)
  | withdraw (destination viaNextHop : String)
  | removeRoutesVia (peerId : String)

namespace AdvertisedRoutes

def step (s : AdvertisedRoutes) : RouteUpdate → Option AdvertisedRoutes
  | .offer o trustRankOf =>
    some ⟨(s.table.offer trustRankOf o.destination o.nextHop o.cost).1, o :: s.offers⟩
  | .withdraw destination viaNextHop =>
    some { s with table := (s.table.withdraw destination viaNextHop).1 }
  | .removeRoutesVia peerId => some { s with table := (s.table.removeRoutesVia peerId).1 }

/-- Any empty table. -/
def system : System AdvertisedRoutes RouteUpdate where
  Init s := ∃ maxSize maxCost, s = ⟨.empty maxSize maxCost, []⟩
  step := step

/-- The cost that `nextHop` has last offered for a destination. -/
def latestCost? (offers : List RouteOffer) (destination nextHop : String) : Option JsNumber :=
  (offers.find? fun o => o.destination = destination ∧ o.nextHop = nextHop).map RouteOffer.cost

/-- Every route has the cost that its next hop has last offered. -/
def Current (s : AdvertisedRoutes) : Prop :=
  ∀ destination route, s.table.bestRoute destination = some route →
    latestCost? s.offers destination route.nextHop = some (.finite route.cost)

/-- The next hop in use offers nothing that the guards of `offer` refuse: no cost
above the maximum, none that is no number of hops, and for itself only one hop. -/
def admits (s : AdvertisedRoutes) : RouteUpdate → Bool
  | .offer o _ =>
    match s.table.bestRoute o.destination with
    | some route => route.nextHop ≠ o.nextHop || (s.table.candidate? o.destination o.nextHop o.cost).isSome
    | none => true
  | _ => true

/-! ### One update -/

variable {s s' : AdvertisedRoutes} {e : RouteUpdate} {o : RouteOffer} {d : String} {route : RouteEntry}
  {trustRankOf : String → ℤ} {offers : List RouteOffer} {nextHop : String}

theorem latestCost?_cons_self : latestCost? (o :: offers) o.destination o.nextHop = some o.cost := by
  simp [latestCost?]

theorem latestCost?_cons_of_ne (h : ¬(o.destination = d ∧ o.nextHop = nextHop)) :
    latestCost? (o :: offers) d nextHop = latestCost? offers d nextHop := by
  simp [latestCost?, h]

/-- A route found after an offer was there before, or is the one offered. -/
theorem bestRoute_offer {t : RoutingTable}
    (h : (t.offer trustRankOf o.destination o.nextHop o.cost).1.bestRoute d = some route) :
    t.bestRoute d = some route ∧
        (d = o.destination → ∀ candidate, t.candidate? o.destination o.nextHop o.cost = some candidate →
          RoutingTable.takesOver (some route) candidate = false) ∨
      d = o.destination ∧ t.candidate? o.destination o.nextHop o.cost = some route := by
  rcases t.offer_cases trustRankOf o.destination o.nextHop o.cost with
    ⟨candidate, hone, hcandidate, htakes, hoffer⟩ | ⟨hrefused, hoffer⟩
  · rw [hoffer] at h
    rcases BoundedFifoMap.get?_of_get?_set h with ⟨hd, rfl⟩ | hold
    · exact .inr ⟨hd, hcandidate⟩
    · by_cases hd : d = o.destination
      · subst hd
        have hpos : 0 < t.routes.maxSize := BoundedFifoMap.maxSize_pos_of_get? hold
        have hself := BoundedFifoMap.get?_set_self (some fun _ entry => (trustRankOf entry.nextHop : WithTop ℤ))
          o.destination candidate hpos
        obtain rfl : candidate = route := Option.some.inj (hself.symm.trans h)
        exact .inr ⟨rfl, hcandidate⟩
      · exact .inl ⟨hold, fun hd' => (hd hd').elim⟩
  · rw [hoffer] at h
    refine .inl ⟨h, fun hd candidate hcandidate => ?_⟩
    rw [← h, hd]
    exact hrefused candidate hcandidate

/-- No route costs more than the maximum. -/
def WithinMax (s : AdvertisedRoutes) : Prop :=
  ∀ d route, s.table.bestRoute d = some route → s.table.maxCost.lt (.finite route.cost) = false

theorem maxCost_offer {t : RoutingTable} :
    (t.offer trustRankOf o.destination o.nextHop o.cost).1.maxCost = t.maxCost := by
  rcases t.offer_cases trustRankOf o.destination o.nextHop o.cost with ⟨_, _, _, _, hoffer⟩ | ⟨_, hoffer⟩ <;>
    rw [hoffer]
  rfl

theorem maxCost_withdraw {t : RoutingTable} {viaNextHop : String} :
    (t.withdraw d viaNextHop).1.maxCost = t.maxCost := by
  unfold RoutingTable.withdraw
  split
  · split_ifs <;> rfl
  · rfl

/-- What holds of the routes so far and of the one offered holds of all routes
after an update. -/
theorem forall_bestRoute_step {P : String → RouteEntry → Prop} (hstep : s.step e = some s')
    (hheld : ∀ d route, s.table.bestRoute d = some route → P d route)
    (hoffered : ∀ o trustRankOf candidate, e = .offer o trustRankOf →
      s.table.candidate? o.destination o.nextHop o.cost = some candidate → P o.destination candidate) :
    ∀ d route, s'.table.bestRoute d = some route → P d route := by
  intro d route hroute
  cases e with
  | offer o trustRankOf =>
    cases hstep
    rcases bestRoute_offer hroute with ⟨hold, -⟩ | ⟨rfl, hnew⟩
    · exact hheld d route hold
    · exact hoffered o trustRankOf route rfl hnew
  | withdraw destination viaNextHop =>
    cases hstep
    rw [RoutingTable.bestRoute_withdraw] at hroute
    exact hheld d route (Option.filter_eq_some_iff.mp hroute).1
  | removeRoutesVia peerId =>
    cases hstep
    rw [RoutingTable.bestRoute_removeRoutesVia] at hroute
    exact hheld d route (Option.filter_eq_some_iff.mp hroute).1

theorem WithinMax.step (h : s.WithinMax) (hstep : s.step e = some s') : s'.WithinMax := by
  have hmax : s'.table.maxCost = s.table.maxCost := by
    cases e <;> cases hstep
    · exact maxCost_offer
    · exact maxCost_withdraw
    · rfl
  rw [WithinMax, hmax]
  refine forall_bestRoute_step hstep h ?_
  rintro o trustRankOf candidate rfl hcandidate
  obtain ⟨hcost, -, -, hlt⟩ := RoutingTable.candidate?_some hcandidate
  rwa [hcost] at hlt

theorem Current.step (h : s.Current) (hadmits : s.admits e = true) (hstep : s.step e = some s') :
    s'.Current := by
  cases e with
  | offer o trustRankOf =>
    cases hstep
    intro d route hroute
    rcases bestRoute_offer hroute with ⟨hold, hkept⟩ | ⟨rfl, hnew⟩
    · by_cases hmine : o.destination = d ∧ o.nextHop = route.nextHop
      · -- the next hop in use offers what it has offered before
        obtain ⟨rfl, hhop⟩ := hmine
        have hsome : (s.table.candidate? o.destination o.nextHop o.cost).isSome = true := by
          simpa [admits, hold, hhop] using hadmits
        obtain ⟨candidate, hcandidate⟩ := Option.isSome_iff_exists.mp hsome
        obtain ⟨hcost, hnext, -, -⟩ := RoutingTable.candidate?_some hcandidate
        have hsame : route.cost = candidate.cost := by
          simpa [RoutingTable.takesOver, hnext, hhop] using hkept rfl candidate hcandidate
        rw [hsame, ← hcost, ← hhop]
        exact latestCost?_cons_self
      · rw [latestCost?_cons_of_ne hmine]
        exact h d route hold
    · obtain ⟨hcost, hnext, -, -⟩ := RoutingTable.candidate?_some hnew
      rw [← hcost, hnext]
      exact latestCost?_cons_self
  | withdraw destination viaNextHop =>
    have hroutes := forall_bestRoute_step hstep h (by simp)
    cases hstep
    exact hroutes
  | removeRoutesVia peerId =>
    have hroutes := forall_bestRoute_step hstep h (by simp)
    cases hstep
    exact hroutes

/-- A route within the guards can be offered again at its own cost. -/
theorem candidate?_of_held (hmax : s.WithinMax) (hroute : s.table.bestRoute d = some route) :
    s.table.candidate? d route.nextHop (.finite route.cost) = some route := by
  have hdirect : ¬(d = route.nextHop ∧ route.cost ≠ 1) := by
    rintro ⟨hhop, hcost⟩
    exact hcost (s.table.direct (d, route) (BoundedFifoMap.get?_eq_some.mp hroute) hhop.symm)
  rw [RoutingTable.candidate?, if_neg hdirect, dif_pos route.pos, hmax d route hroute]
  rfl

/-- Refusing what the next hop in use offers leaves its route behind. -/
theorem not_current_of_not_admits (hmax : s.WithinMax) (hadmits : s.admits e = false)
    (hstep : s.step e = some s') : ¬s'.Current := by
  intro hcurrent
  unfold admits at hadmits
  split at hadmits
  · next o trustRankOf =>
    split at hadmits
    · next route hroute =>
      obtain ⟨hhop, hnone⟩ : route.nextHop = o.nextHop ∧
          s.table.candidate? o.destination o.nextHop o.cost = none := by simpa using hadmits
      cases hstep
      have hkept : (s.table.offer trustRankOf o.destination o.nextHop o.cost).1.bestRoute o.destination =
          some route := by
        rcases s.table.offer_cases trustRankOf o.destination o.nextHop o.cost with
          ⟨candidate, -, hcandidate, -, -⟩ | ⟨-, hoffer⟩
        · rw [hnone] at hcandidate
          cases hcandidate
        · rw [hoffer]
          exact hroute
      have hlatest := hcurrent o.destination route hkept
      rw [hhop, latestCost?_cons_self] at hlatest
      have hcandidate := candidate?_of_held hmax hroute
      rw [← Option.some.inj hlatest, hhop, hnone] at hcandidate
      cases hcandidate
    · cases hadmits
  · cases hadmits

/-! ### Main results -/

/-- As long as the next hops in use offer costs that are admitted, every route has
the latest cost of its next hop; the first offer that is not admitted ends that. -/
theorem routes_current (h : system.ReachableUnder (fun s e => s.admits e = true) s) :
    s.Current ∧ ∀ e s', s.step e = some s' → (s'.Current ↔ s.admits e = true) := by
  have hcurrent : s.Current ∧ s.WithinMax := by
    apply h.invariant (I := fun s => s.Current ∧ s.WithinMax)
    · rintro _ ⟨maxSize, maxCost, rfl⟩
      exact ⟨by simp [Current, RoutingTable.bestRoute, RoutingTable.empty],
        by simp [WithinMax, RoutingTable.bestRoute, RoutingTable.empty]⟩
    · rintro s e s' ⟨hs, hmax⟩ hadmits hstep
      exact ⟨hs.step hadmits hstep, hmax.step hstep⟩
  refine ⟨hcurrent.1, fun e s' hstep => ⟨fun hcurrent' => ?_, fun hadmits => hcurrent.1.step hadmits hstep⟩⟩
  by_contra hnot
  exact not_current_of_not_admits hcurrent.2 (Bool.eq_false_iff.mpr hnot) hstep hcurrent'

def sampleOffer (cost : ℚ) : RouteUpdate := .offer ⟨"valley", "ridge", .finite cost⟩ fun _ => 0

def sampleRoutes : AdvertisedRoutes := ⟨.empty 16 (.finite 64), []⟩

def costs (s : AdvertisedRoutes) : Option (String × ℚ) × Option JsNumber :=
  ((s.table.bestRoute "valley").map fun route => (route.nextHop, route.cost),
    latestCost? s.offers "valley" "ridge")

/-- A route that gets longer, up to the maximum. -/
theorem routes_current_growing :
    ∃ s : AdvertisedRoutes, s.costs = (some ("ridge", 64), some (.finite 64)) ∧ s.Current := by
  have hrun : (system.runUnder admits sampleRoutes [sampleOffer 3, sampleOffer 64]).map costs =
      some (some ("ridge", 64), some (.finite 64)) := by
    decide
  obtain ⟨s, hs, hcosts⟩ := Option.map_eq_some_iff.mp hrun
  exact ⟨s, hcosts, (routes_current (System.reachableUnder_of_runUnder ⟨_, _, rfl⟩ hs)).1⟩

/-- The next hop is too far from the destination now, and keeps the old route. -/
theorem route_kept_beyond_maximum :
    ∃ s : AdvertisedRoutes, system.Reachable s ∧ s.costs = (some ("ridge", 64), some (.finite 65)) := by
  have hrun : (system.run sampleRoutes [sampleOffer 64, sampleOffer 65]).map costs =
      some (some ("ridge", 64), some (.finite 65)) := by
    decide
  obtain ⟨s, hs, hcosts⟩ := Option.map_eq_some_iff.mp hrun
  exact ⟨s, System.reachable_of_run ⟨_, _, rfl⟩ hs, hcosts⟩

end AdvertisedRoutes
end Arald
