import Arald.Scenario.ResidualGraph

/-!
# Opportunistic arrivals

Messages travel over contacts: at one instant through a whole component, from
one instant to the next in the node that carries them. The search is compared
with chains of contacts in non-decreasing order of time. What one snapshot adds
to the carriers is everything reachable in its graph from a carrier, and a chain
that uses the snapshot ends at its instant.
-/

namespace Arald.Scenario

open Foundations

variable {ctx : ResilienceContext} {failed active : List String} {areas : List ResolvedArea}
  {edges : List ResilienceEdge} {u v src : String}

/-! ### Components and spreading -/

theorem filterEdges_within (ctx : ResilienceContext) (edges : List ResilienceEdge) (t : ℚ)
    (active : List String) (areas : List ResolvedArea) :
    Within (filterEdges ctx edges t active areas) active := by
  intro e he
  have h := (List.mem_filter.mp he).2
  rw [Bool.and_eq_true, Bool.and_eq_true, decide_eq_true_eq, decide_eq_true_eq] at h
  exact h.1

theorem Within.mono (h : Within edges active) {nodes : List String} (hsub : active ⊆ nodes) :
    Within edges nodes := fun e he => ⟨hsub (h e he).1, hsub (h e he).2⟩

theorem activeNodes_subset (ctx : ResilienceContext) (failed : List String) :
    activeNodes ctx failed ⊆ ctx.spec.ids :=
  (List.filter_sublist.map _).subset

theorem nodup_activeNodes (ctx : ResilienceContext) (failed : List String) :
    (activeNodes ctx failed).Nodup :=
  ctx.nodup_ids.sublist (List.filter_sublist.map _)

/-- Grouping by the value of a function: the groups in the map so far. -/
theorem get?_group (root : String → ℕ) (nodes : List String) (r : ℕ) :
    ((nodes.map fun u => (u, root u)).foldl (fun (members : OrderedMap ℕ (List String)) e =>
      members.set e.2 ((members.get? e.2).getD [] ++ [e.1])) .empty).get? r =
      if nodes.filter (fun u => root u = r) = [] then none
      else some (nodes.filter fun u => root u = r) := by
  induction nodes using List.reverseRecOn with
  | nil => rfl
  | append_singleton nodes u ih =>
    rw [List.map_append, List.foldl_append, List.map_singleton, List.foldl_cons, List.foldl_nil,
      OrderedMap.get?_set, List.filter_append]
    by_cases hr : r = root u
    · subst hr
      have hone : [u].filter (fun w => decide (root w = root u)) = [u] := by
        exact List.filter_cons_of_pos (decide_eq_true rfl)
      rw [if_pos rfl, ih, hone, if_neg (List.append_ne_nil_of_right_ne_nil _ (List.cons_ne_nil u []))]
      split_ifs with hnil
      · rw [hnil, Option.getD_none]
      · rw [Option.getD_some]
    · have hone : [u].filter (fun w => decide (root w = r)) = [] := by
        exact List.filter_cons_of_neg fun h => hr (of_decide_eq_true h).symm
      rw [if_neg hr, ih, hone, List.append_nil]

theorem zip_map_self {α β : Type*} (l : List α) (f : α → β) : l.zip (l.map f) = l.map fun a => (a, f a) := by
  induction l with
  | nil => rfl
  | cons a l ih => rw [List.map_cons, List.zip_cons_cons, ih, List.map_cons]

/-- The groups are the classes of active nodes under reachability. -/
theorem mem_componentsOf (hwithin : Within edges active) (hactive : active ⊆ ctx.spec.ids)
    {comp : List String} (hcomp : comp ∈ componentsOf ctx active edges) :
    ∃ w ∈ active, ∀ u, u ∈ comp ↔ u ∈ active ∧ (linkGraph edges).Reachable w u := by
  obtain ⟨root, hroot, hall⟩ := exists_root ctx (hwithin.mono hactive)
  rw [componentsOf, hall active hactive] at hcomp
  rw [zip_map_self] at hcomp
  obtain ⟨r, hr⟩ := OrderedMap.mem_values.mp hcomp
  rw [← OrderedMap.get?_eq_some, get?_group] at hr
  split_ifs at hr with hnil
  obtain ⟨w, hw⟩ := List.exists_mem_of_ne_nil _ hnil
  obtain ⟨hw, hwr⟩ := List.mem_filter.mp hw
  refine ⟨w, hw, fun u => ?_⟩
  rw [← Option.some.inj hr, List.mem_filter, decide_eq_true_eq]
  refine and_congr_right fun hu => ?_
  rw [← hroot w (hactive hw) u (hactive hu), of_decide_eq_true hwr, eq_comm]

theorem exists_component (ctx : ResilienceContext) (hwithin : Within edges active) (hactive : active ⊆ ctx.spec.ids)
    (hu : u ∈ active) : ∃ comp ∈ componentsOf ctx active edges, u ∈ comp := by
  obtain ⟨root, -, hall⟩ := exists_root ctx (hwithin.mono hactive)
  rw [componentsOf, hall active hactive]
  rw [zip_map_self]
  have hmem : u ∈ active.filter fun w => root w = root u :=
    List.mem_filter.mpr ⟨hu, decide_eq_true rfl⟩
  refine ⟨active.filter fun w => root w = root u, ?_, hmem⟩
  refine OrderedMap.mem_values.mpr ⟨root u, OrderedMap.get?_eq_some.mp ?_⟩
  rw [get?_group, if_neg (List.ne_nil_of_mem hmem)]

/-- Spreading over disjoint groups reaches the groups that have a carrier. -/
theorem mem_spread {components : List (List String)} {mine : Finset String}
    (hdisjoint : ∀ c ∈ components, ∀ c' ∈ components, ∀ u, u ∈ c → u ∈ c' → ∀ w, w ∈ c ↔ w ∈ c') :
    v ∈ spread components mine ↔
      v ∈ mine ∨ ∃ c ∈ components, v ∈ c ∧ ∃ u ∈ c, u ∈ mine := by
  induction components generalizing mine with
  | nil =>
    refine (or_iff_left ?_).symm
    rintro ⟨c, hc, -⟩
    cases hc
  | cons c components ih =>
    rw [spread, List.foldl_cons, ← spread, List.exists_mem_cons_iff, ih fun c hc c' hc' =>
      hdisjoint c (List.mem_cons_of_mem _ hc) c' (List.mem_cons_of_mem _ hc')]
    by_cases hmeets : c.any (fun id => decide (id ∈ mine)) = true
    · obtain ⟨w, hw, hwm⟩ := List.any_eq_true.mp hmeets
      have hwm := of_decide_eq_true hwm
      rw [if_pos hmeets]
      constructor
      · rintro (h | ⟨c', hc', hv, u, hu, hum⟩)
        · rcases Finset.mem_union.mp h with h | h
          · exact Or.inl h
          · exact Or.inr (Or.inl ⟨List.mem_toFinset.mp h, w, hw, hwm⟩)
        · rcases Finset.mem_union.mp hum with hum | hum
          · exact Or.inr (Or.inr ⟨c', hc', hv, u, hu, hum⟩)
          · have hsame := hdisjoint c' (List.mem_cons_of_mem _ hc') c List.mem_cons_self u hu
              (List.mem_toFinset.mp hum)
            exact Or.inr (Or.inl ⟨(hsame v).mp hv, w, hw, hwm⟩)
      · rintro (h | ⟨hv, -⟩ | ⟨c', hc', hv, u, hu, hum⟩)
        · exact Or.inl (Finset.mem_union_left _ h)
        · exact Or.inl (Finset.mem_union_right _ (List.mem_toFinset.mpr hv))
        · exact Or.inr ⟨c', hc', hv, u, hu, Finset.mem_union_left _ hum⟩
    · rw [if_neg hmeets]
      refine or_congr_right (or_iff_right ?_).symm
      rintro ⟨-, u, hu, hum⟩
      exact hmeets (List.any_eq_true.mpr ⟨u, hu, decide_eq_true hum⟩)

/-- A snapshot hands a message to every active node reachable from an active carrier. -/
theorem mem_spread_componentsOf (hwithin : Within edges active) (hactive : active ⊆ ctx.spec.ids)
    {mine : Finset String} :
    v ∈ spread (componentsOf ctx active edges) mine ↔
      v ∈ mine ∨ v ∈ active ∧ ∃ u ∈ active, u ∈ mine ∧ (linkGraph edges).Reachable u v := by
  rw [mem_spread]
  · refine or_congr_right ⟨?_, ?_⟩
    · rintro ⟨c, hc, hv, u, hu, hum⟩
      obtain ⟨w, -, hclass⟩ := mem_componentsOf hwithin hactive hc
      obtain ⟨hva, hwv⟩ := (hclass v).mp hv
      obtain ⟨hua, hwu⟩ := (hclass u).mp hu
      exact ⟨hva, u, hua, hum, hwu.symm.trans hwv⟩
    · rintro ⟨hva, u, hua, hum, hr⟩
      obtain ⟨c, hc, hu⟩ := exists_component ctx hwithin hactive hua
      obtain ⟨w, -, hclass⟩ := mem_componentsOf hwithin hactive hc
      exact ⟨c, hc, (hclass v).mpr ⟨hva, ((hclass u).mp hu).2.trans hr⟩, u, hu, hum⟩
  · intro c hc c' hc' u hu hu' x
    obtain ⟨w, -, hclass⟩ := mem_componentsOf hwithin hactive hc
    obtain ⟨w', -, hclass'⟩ := mem_componentsOf hwithin hactive hc'
    have hww' := ((hclass u).mp hu).2.trans ((hclass' u).mp hu').2.symm
    rw [hclass, hclass']
    exact and_congr_right fun _ => ⟨fun h => hww'.symm.trans h, fun h => hww'.trans h⟩

/-! ### Chains of contacts -/

/-- At instant `t`, not before the start, an edge between active nodes survives. -/
def Contact (ctx : ResilienceContext) (active : List String) (areas : List ResolvedArea) (startT : ℚ)
    (steps : List TimelineStep) (t : ℚ) (u v : String) : Prop :=
  ∃ step ∈ steps, step.t = t ∧ startT ≤ t ∧ ∃ e ∈ step.edges,
    (e.a ∈ active ∧ e.b ∈ active) ∧ survives ctx areas t e = true ∧ Joins e u v

/-- Some chain of contacts in non-decreasing order of time leads from `src` to `v`, the last of them
at instant `t`. -/
inductive Chain (contact : ℚ → String → String → Prop) (src : String) : ℚ → String → Prop
  | first {t : ℚ} {v : String} : contact t src v → Chain contact src t v
  | next {t t' : ℚ} {u v : String} :
      Chain contact src t u → t ≤ t' → contact t' u v → Chain contact src t' v

/-- A node that may carry the message. -/
def Carrier (contact : ℚ → String → String → Prop) (src v : String) : Prop :=
  v = src ∨ ∃ t, Chain contact src t v

/-- `a` is the first instant at which a chain leads from `src` to an active sink. -/
def FirstArrival (ctx : ResilienceContext) (active : List String)
    (contact : ℚ → String → String → Prop) (src : String) (a : ℚ) : Prop :=
  (∃ s, (s ∈ active ∧ isSink ctx s = true) ∧ Chain contact src a s) ∧
    ∀ a' s, s ∈ active ∧ isSink ctx s = true → Chain contact src a' s → a ≤ a'

variable {startT t : ℚ} {steps past : List TimelineStep} {step : TimelineStep}

def snapshot (ctx : ResilienceContext) (active : List String) (areas : List ResolvedArea)
    (step : TimelineStep) : List ResilienceEdge := filterEdges ctx step.edges step.t active areas

theorem mem_filterEdges {e : ResilienceEdge} :
    e ∈ filterEdges ctx edges t active areas ↔
      e ∈ edges ∧ (e.a ∈ active ∧ e.b ∈ active) ∧ survives ctx areas t e = true := by
  rw [filterEdges, List.mem_filter, Bool.and_eq_true, Bool.and_eq_true, decide_eq_true_eq,
    decide_eq_true_eq]

theorem exists_mem_concat {α : Type*} {l : List α} {a : α} {P : α → Prop} :
    (∃ x ∈ l ++ [a], P x) ↔ (∃ x ∈ l, P x) ∨ P a := by
  simp only [List.mem_append, List.mem_singleton, or_and_right, exists_or, exists_eq_left]

theorem contact_append (h : startT ≤ step.t) :
    Contact ctx active areas startT (past ++ [step]) t u v ↔
      Contact ctx active areas startT past t u v ∨
        t = step.t ∧ ∃ e ∈ snapshot ctx active areas step, Joins e u v := by
  unfold Contact snapshot
  rw [exists_mem_concat]
  refine or_congr_right ⟨?_, ?_⟩
  · rintro ⟨rfl, -, e, he, hactive, hsurvives, hj⟩
    exact ⟨rfl, e, mem_filterEdges.mpr ⟨he, hactive, hsurvives⟩, hj⟩
  · rintro ⟨rfl, e, he, hj⟩
    obtain ⟨he, hactive, hsurvives⟩ := mem_filterEdges.mp he
    exact ⟨rfl, h, e, he, hactive, hsurvives, hj⟩

theorem contact_append_of_lt (h : step.t < startT) :
    Contact ctx active areas startT (past ++ [step]) = Contact ctx active areas startT past := by
  funext t u v
  unfold Contact
  rw [exists_mem_concat]
  refine propext (or_iff_left ?_)
  rintro ⟨rfl, hstart, -⟩
  exact absurd hstart h.not_ge

theorem Contact.mem_active (h : Contact ctx active areas startT steps t u v) :
    u ∈ active ∧ v ∈ active := by
  obtain ⟨-, -, -, -, e, -, ⟨ha, hb⟩, -, hj⟩ := h
  rcases hj with ⟨rfl, rfl⟩ | ⟨rfl, rfl⟩
  · exact ⟨ha, hb⟩
  · exact ⟨hb, ha⟩

theorem Contact.exists_step (h : Contact ctx active areas startT steps t u v) :
    ∃ step ∈ steps, step.t = t := by
  obtain ⟨step, hstep, ht, -⟩ := h
  exact ⟨step, hstep, ht⟩

theorem Chain.mono {contact contact' : ℚ → String → String → Prop}
    (hsub : ∀ t u v, contact t u v → contact' t u v) (h : Chain contact src t v) :
    Chain contact' src t v := by
  induction h with
  | first hc => exact .first (hsub _ _ _ hc)
  | next _ hle hc ih => exact .next ih hle (hsub _ _ _ hc)

/-- The last contact of a chain. -/
theorem Chain.exists_contact {contact : ℚ → String → String → Prop} (h : Chain contact src t v) :
    ∃ u, contact t u v := by
  cases h with
  | first hc => exact ⟨_, hc⟩
  | next _ _ hc => exact ⟨_, hc⟩

/-- Over a snapshot later than all contacts so far, a walk from a carrier is the end of a chain. -/
theorem chain_of_walk (hstart : startT ≤ step.t) (hlater : ∀ s ∈ past, s.t < step.t)
    (p : (linkGraph (snapshot ctx active areas step)).Walk u v)
    (hu : Carrier (Contact ctx active areas startT past) src u ∨
      Chain (Contact ctx active areas startT (past ++ [step])) src step.t u) (hne : u ≠ v ∨
      Chain (Contact ctx active areas startT (past ++ [step])) src step.t u) :
    Chain (Contact ctx active areas startT (past ++ [step])) src step.t v := by
  induction p with
  | nil => exact hne.resolve_left fun h => h rfl
  | @cons u w v hadj p ih =>
    obtain ⟨-, e, he, hj⟩ := hadj
    have hcontact : Contact ctx active areas startT (past ++ [step]) step.t u w :=
      (contact_append hstart).mpr (Or.inr ⟨rfl, e, he, hj⟩)
    have hw : Chain (Contact ctx active areas startT (past ++ [step])) src step.t w := by
      rcases hu with (rfl | ⟨t, ht⟩) | ht
      · exact .first hcontact
      · obtain ⟨x, hx⟩ := ht.exists_contact
        obtain ⟨s, hs, rfl⟩ := hx.exists_step
        refine .next (ht.mono fun t u v hc => ?_) (hlater s hs).le hcontact
        exact (contact_append hstart).mpr (Or.inl hc)
      · exact .next ht le_rfl hcontact
    exact ih (Or.inr hw) (Or.inr hw)

/-- A chain that uses the last snapshot ends there, after a walk from a carrier. -/
theorem Chain.split (hstart : startT ≤ step.t) (hlater : ∀ s ∈ past, s.t < step.t)
    (h : Chain (Contact ctx active areas startT (past ++ [step])) src t v) :
    Chain (Contact ctx active areas startT past) src t v ∨
      t = step.t ∧ ∃ u, Carrier (Contact ctx active areas startT past) src u ∧
        (linkGraph (snapshot ctx active areas step)).Reachable u v := by
  induction h with
  | first hc =>
    rcases (contact_append hstart).mp hc with hc | ⟨rfl, e, he, hj⟩
    · exact Or.inl (.first hc)
    · exact Or.inr ⟨rfl, src, Or.inl rfl, reachable_of_joins he hj⟩
  | @next t t' u v _ hle hc ih =>
    rcases (contact_append hstart).mp hc with hc | ⟨rfl, e, he, hj⟩
    · rcases ih with ih | ⟨rfl, -⟩
      · exact Or.inl (.next ih hle hc)
      · obtain ⟨s, hs, rfl⟩ := hc.exists_step
        exact absurd hle (hlater s hs).not_ge
    · rcases ih with ih | ⟨-, w, hw, hr⟩
      · exact Or.inr ⟨rfl, u, Or.inr ⟨t, ih⟩, reachable_of_joins he hj⟩
      · exact Or.inr ⟨rfl, w, hw, hr.trans (reachable_of_joins he hj)⟩

/-- What one snapshot adds to the carriers. -/
theorem carrier_append (hstart : startT ≤ step.t) (hlater : ∀ s ∈ past, s.t < step.t) :
    Carrier (Contact ctx active areas startT (past ++ [step])) src v ↔
      ∃ u, Carrier (Contact ctx active areas startT past) src u ∧
        (linkGraph (snapshot ctx active areas step)).Reachable u v := by
  constructor
  · rintro (rfl | ⟨t, ht⟩)
    · exact ⟨v, Or.inl rfl, .refl v⟩
    · rcases ht.split hstart hlater with ht | ⟨-, u, hu, hr⟩
      · exact ⟨v, Or.inr ⟨t, ht⟩, .refl v⟩
      · exact ⟨u, hu, hr⟩
  · rintro ⟨u, hu, ⟨p⟩⟩
    by_cases huv : u = v
    · subst huv
      rcases hu with rfl | ⟨t, ht⟩
      · exact Or.inl rfl
      · refine Or.inr ⟨t, ht.mono fun t u v hc => ?_⟩
        exact (contact_append hstart).mpr (Or.inl hc)
    · exact Or.inr ⟨step.t, chain_of_walk hstart hlater p (Or.inl hu) (Or.inl huv)⟩

/-- Later snapshots do not change a first arrival. -/
theorem FirstArrival.extend {a : ℚ}
    (h : FirstArrival ctx active (Contact ctx active areas startT past) src a)
    (hlater : ∀ s ∈ past, s.t < step.t) :
    FirstArrival ctx active (Contact ctx active areas startT (past ++ [step])) src a := by
  rcases lt_or_ge step.t startT with hbefore | hstart
  · rwa [contact_append_of_lt hbefore]
  obtain ⟨⟨s, hs, hchain⟩, hmin⟩ := h
  refine ⟨⟨s, hs, hchain.mono fun t u v hc => (contact_append hstart).mpr (Or.inl hc)⟩, ?_⟩
  intro a' s' hs' hchain'
  rcases hchain'.split hstart hlater with hchain' | ⟨rfl, -⟩
  · exact hmin a' s' hs' hchain'
  · obtain ⟨x, hx⟩ := hchain.exists_contact
    obtain ⟨first, hfirst, rfl⟩ := hx.exists_step
    exact (hlater first hfirst).le

/-! ### The search -/

theorem Within.of_reachable_ne (h : Within edges active) (hr : (linkGraph edges).Reachable u v)
    (hne : u ≠ v) : u ∈ active ∧ v ∈ active := by
  obtain ⟨p⟩ := hr
  cases p with
  | nil => exact absurd rfl hne
  | cons hadj p =>
    obtain ⟨-, e, he, hj⟩ := hadj
    obtain ⟨hu, hw⟩ := h.of_joins he hj
    exact ⟨hu, h.mem_of_reachable hw ⟨p⟩⟩

/-- The search for one source that is carried by `mine`. -/
def arrivalFrom (ctx : ResilienceContext) (active : List String) (areas : List ResolvedArea)
    (startT : ℚ) : List TimelineStep → Finset String → Option ℚ
  | [], _ => none
  | step :: steps, mine =>
    if step.t < startT then arrivalFrom ctx active areas startT steps mine
    else
      let mine := spread (componentsOf ctx active (snapshot ctx active areas step)) mine
      if ∃ id ∈ mine, isSink ctx id = true then some (step.t - startT)
      else arrivalFrom ctx active areas startT steps mine

/-- The two searches agree on a source. -/
structure ArrivalSearch.Agree (src : String) (s s' : ArrivalSearch) : Prop where
  reached : s'.reached src = s.reached src
  result : s'.result.get? src = s.result.get? src
  pending : src ∈ s'.pending ↔ src ∈ s.pending

theorem ArrivalSearch.Agree.trans {s s' s'' : ArrivalSearch} (h : s.Agree src s')
    (h' : s'.Agree src s'') : s.Agree src s'' :=
  ⟨h'.reached.trans h.reached, h'.result.trans h.result, h'.pending.trans h.pending⟩

variable {components : List (List String)} {elapsed : ℚ} {s : ArrivalSearch} {other : String}
  {l sources : List String}

/-- One source does not touch the others. -/
theorem agree_advance (hne : other ≠ src) : s.Agree other (s.advance ctx components elapsed src) := by
  rw [ArrivalSearch.advance]
  dsimp only
  split_ifs with hmeets
  · exact ⟨Function.update_of_ne hne .., OrderedMap.get?_set_of_ne _ _ hne,
      List.mem_erase_of_ne hne⟩
  · exact ⟨Function.update_of_ne hne .., rfl, Iff.rfl⟩

theorem agree_advanceAll (ctx : ResilienceContext) (components : List (List String)) (elapsed : ℚ)
    (s : ArrivalSearch) (h : other ∉ l) :
    s.Agree other (l.foldl (ArrivalSearch.advance ctx components elapsed) s) := by
  induction l generalizing s with
  | nil => exact ⟨rfl, rfl, Iff.rfl⟩
  | cons src l ih =>
    obtain ⟨hne, hrest⟩ := List.ne_and_not_mem_of_not_mem_cons h
    exact (agree_advance hne).trans (ih _ hrest)

theorem nodup_pending_advanceAll (h : s.pending.Nodup) :
    (l.foldl (ArrivalSearch.advance ctx components elapsed) s).pending.Nodup := by
  induction l generalizing s with
  | nil => exact h
  | cons src l ih =>
    apply ih
    rw [ArrivalSearch.advance]
    dsimp only
    split_ifs
    · exact h.erase src
    · exact h

/-- What a source looked for has after the snapshot: an arrival, or more carriers. -/
theorem advanceAll_self (ctx : ResilienceContext) (components : List (List String)) (elapsed : ℚ)
    (hl : l.Nodup) (hsrc : src ∈ l) (hpending : s.pending.Nodup) :
    let s' := l.foldl (ArrivalSearch.advance ctx components elapsed) s
    let mine := spread components (s.reached src)
    if ∃ id ∈ mine, isSink ctx id = true then s'.result.get? src = some elapsed ∧ src ∉ s'.pending
    else s'.reached src = mine ∧ s'.result.get? src = s.result.get? src ∧
      (src ∈ s'.pending ↔ src ∈ s.pending) := by
  obtain ⟨before, after, rfl⟩ := List.append_of_mem hsrc
  have hnodup := List.nodup_middle.mp hl
  obtain ⟨hnot, -⟩ := List.nodup_cons.mp hnodup
  rw [List.mem_append, not_or] at hnot
  have hfirst := agree_advanceAll ctx components elapsed s hnot.1
  dsimp only
  rw [List.foldl_append, List.foldl_cons]
  generalize hmid : before.foldl (ArrivalSearch.advance ctx components elapsed) s = mid at hfirst ⊢
  have hmidnodup : mid.pending.Nodup := hmid ▸ nodup_pending_advanceAll hpending
  have hlast := agree_advanceAll ctx components elapsed
    (mid.advance ctx components elapsed src) hnot.2
  generalize after.foldl (ArrivalSearch.advance ctx components elapsed)
    (mid.advance ctx components elapsed src) = final at hlast ⊢
  rw [ArrivalSearch.advance, hfirst.reached] at hlast
  dsimp only at hlast
  split_ifs at hlast ⊢ with hmeets
  · refine ⟨hlast.result.trans (OrderedMap.get?_set_self ..), fun hmem => ?_⟩
    exact (hmidnodup.mem_erase_iff.mp (hlast.pending.mp hmem)).1 rfl
  · exact ⟨hlast.reached.trans (Function.update_self ..), hlast.result.trans hfirst.result,
      hlast.pending.trans hfirst.pending⟩

/-- The loop searches for each source on its own. -/
theorem get?_arrivalLoop (hpending : s.pending.Nodup)
    (hnone : src ∈ s.pending → s.result.get? src = none) :
    (arrivalLoop ctx active areas startT steps s).result.get? src =
      if src ∈ s.pending then arrivalFrom ctx active areas startT steps (s.reached src)
      else s.result.get? src := by
  induction steps generalizing s with
  | nil =>
    rw [arrivalLoop, arrivalFrom]
    split_ifs with hsrc
    · exact hnone hsrc
    · rfl
  | cons step steps ih =>
    rw [arrivalLoop, arrivalFrom]
    by_cases hempty : s.pending.length = 0
    · have hnot : src ∉ s.pending := by
        rw [List.length_eq_zero_iff.mp hempty]
        exact List.not_mem_nil
      rw [if_pos hempty, if_neg hnot]
    rw [if_neg hempty]
    by_cases hbefore : step.t < startT
    · rw [if_pos hbefore, if_pos hbefore]
      exact ih hpending hnone
    rw [if_neg hbefore, if_neg hbefore]
    change OrderedMap.get? (arrivalLoop ctx active areas startT steps (s.pending.foldl
      (ArrivalSearch.advance ctx (componentsOf ctx active (snapshot ctx active areas step))
        (step.t - startT)) s)).result src = _
    by_cases hsrc : src ∈ s.pending
    · rw [if_pos hsrc]
      have hself := advanceAll_self ctx
        (componentsOf ctx active (snapshot ctx active areas step)) (step.t - startT) hpending hsrc
        hpending
      dsimp only at hself ⊢
      split_ifs at hself ⊢ with hmeets
      · rw [ih (nodup_pending_advanceAll hpending) fun h => absurd h hself.2, if_neg hself.2]
        exact hself.1
      · obtain ⟨hreached, hresult, hkept⟩ := hself
        rw [ih (nodup_pending_advanceAll hpending) fun _ => hresult.trans (hnone hsrc),
          if_pos (hkept.mpr hsrc), hreached]
    · have hagree := agree_advanceAll ctx
        (componentsOf ctx active (snapshot ctx active areas step)) (step.t - startT) s hsrc
      have hnot := fun h => hsrc (hagree.pending.mp h)
      rw [if_neg hsrc, ih (nodup_pending_advanceAll hpending) fun h => absurd h hnot, if_neg hnot]
      exact hagree.result

/-- The arrival of a source does not depend on what else is asked. -/
theorem get?_opportunisticArrivals (ctx : ResilienceContext) (failed : List String)
    (areas : List ResolvedArea) {tl : ResilienceTimeline} (htl : ctx.spec.timeline = some tl)
    (sources : List String) (src : String) :
    (opportunisticArrivals ctx failed areas sources).get? src =
      if src ∈ sources then
        arrivalFrom ctx (activeNodes ctx failed) areas (startOf ctx tl) tl.steps {src}
      else none := by
  rw [opportunisticArrivals, htl]
  dsimp only
  by_cases hempty : sources.length = 0
  · rw [if_pos hempty, List.length_eq_zero_iff.mp hempty, if_neg List.not_mem_nil]
    rfl
  · rw [if_neg hempty, get?_arrivalLoop (nodup_toSet sources) fun _ => rfl]
    exact if_congr mem_toSet rfl rfl

theorem arrivals_sources (ctx : ResilienceContext) (failed : List String)
    (areas : List ResolvedArea) (sources : List String) :
    ∀ src ∈ (opportunisticArrivals ctx failed areas sources).keys, src ∈ sources := by
  intro src hsrc
  cases htl : ctx.spec.timeline with
  | none =>
    rw [opportunisticArrivals, htl] at hsrc
    cases hsrc
  | some tl =>
    by_contra hnot
    obtain ⟨d, hd⟩ := OrderedMap.mem_keys.mp hsrc
    have hget := OrderedMap.get?_eq_some.mpr hd
    rw [get?_opportunisticArrivals ctx failed areas htl, if_neg hnot] at hget
    cases hget

/-! ### The search finds the first arrival -/

/-- The carriers of a source after a snapshot. -/
theorem mem_spread_snapshot {mine : Finset String} (hactive : active ⊆ ctx.spec.ids)
    (hstart : startT ≤ step.t) (hlater : ∀ s ∈ past, s.t < step.t)
    (hmine : ∀ v, v ∈ mine ↔ Carrier (Contact ctx active areas startT past) src v) :
    v ∈ spread (componentsOf ctx active (snapshot ctx active areas step)) mine ↔
      Carrier (Contact ctx active areas startT (past ++ [step])) src v := by
  have hwithin : Within (snapshot ctx active areas step) active := filterEdges_within _ _ _ _ _
  rw [mem_spread_componentsOf hwithin hactive, carrier_append hstart hlater]
  constructor
  · rintro (hv | ⟨-, u, -, hu, hr⟩)
    · exact ⟨v, (hmine v).mp hv, .refl v⟩
    · exact ⟨u, (hmine u).mp hu, hr⟩
  · rintro ⟨u, hu, hr⟩
    by_cases huv : u = v
    · exact Or.inl ((hmine v).mpr (huv ▸ hu))
    · obtain ⟨hua, hva⟩ := hwithin.of_reachable_ne hr huv
      exact Or.inr ⟨hva, u, hua, (hmine u).mpr hu, hr⟩

/-- A sink among the carriers for the first time: the arrival is at the last snapshot. -/
theorem firstArrival_of_sink (hsrc : isSink ctx src = false) (hstart : startT ≤ step.t)
    (hlater : ∀ s ∈ past, s.t < step.t)
    (hno : ∀ v, isSink ctx v = true → ¬Carrier (Contact ctx active areas startT past) src v)
    (hv : Carrier (Contact ctx active areas startT (past ++ [step])) src v)
    (hsink : isSink ctx v = true) :
    FirstArrival ctx active (Contact ctx active areas startT (past ++ [step])) src step.t := by
  have hnow : ∀ t w, isSink ctx w = true →
      Chain (Contact ctx active areas startT (past ++ [step])) src t w → t = step.t := by
    intro t w hw hchain
    rcases hchain.split hstart hlater with hold | ⟨ht, -⟩
    · exact absurd (Or.inr ⟨t, hold⟩) (hno w hw)
    · exact ht
  rcases hv with rfl | ⟨t, ht⟩
  · rw [hsrc] at hsink
    cases hsink
  · obtain ⟨u, hu⟩ := ht.exists_contact
    obtain rfl := hnow t v hsink ht
    exact ⟨⟨v, ⟨hu.mem_active.2, hsink⟩, ht⟩, fun a' s' hs' hchain =>
      (hnow a' s' hs'.2 hchain).ge⟩

theorem FirstArrival.extendAll {a : ℚ} (hsorted : (past ++ steps).Pairwise fun a b => a.t < b.t)
    (h : FirstArrival ctx active (Contact ctx active areas startT past) src a) :
    FirstArrival ctx active (Contact ctx active areas startT (past ++ steps)) src a := by
  induction steps generalizing past with
  | nil => rwa [List.append_nil]
  | cons step steps ih =>
    have hlater := fun s hs => (List.pairwise_append.mp hsorted).2.2 s hs step List.mem_cons_self
    rw [List.append_cons] at hsorted ⊢
    exact ih hsorted (h.extend hlater)

/-- From the carriers so far the search finds the first arrival, or no sink is ever reached. -/
theorem arrivalFrom_spec {mine : Finset String} (hactive : active ⊆ ctx.spec.ids)
    (hsrc : isSink ctx src = false) (hsorted : (past ++ steps).Pairwise fun a b => a.t < b.t)
    (hmine : ∀ v, v ∈ mine ↔ Carrier (Contact ctx active areas startT past) src v)
    (hno : ∀ v, isSink ctx v = true → ¬Carrier (Contact ctx active areas startT past) src v) :
    (∃ a, arrivalFrom ctx active areas startT steps mine = some (a - startT) ∧
        FirstArrival ctx active (Contact ctx active areas startT (past ++ steps)) src a) ∨
      arrivalFrom ctx active areas startT steps mine = none ∧
        ∀ v, isSink ctx v = true →
          ¬Carrier (Contact ctx active areas startT (past ++ steps)) src v := by
  induction steps generalizing past mine with
  | nil =>
    rw [List.append_nil]
    exact Or.inr ⟨rfl, hno⟩
  | cons step steps ih =>
    have hlater := fun s hs => (List.pairwise_append.mp hsorted).2.2 s hs step List.mem_cons_self
    rw [List.append_cons] at hsorted ⊢
    rw [arrivalFrom]
    by_cases hbefore : step.t < startT
    · rw [if_pos hbefore]
      refine ih hsorted (fun v => ?_) fun v => ?_
      · rw [contact_append_of_lt hbefore]
        exact hmine v
      · rw [contact_append_of_lt hbefore]
        exact hno v
    rw [if_neg hbefore]
    have hstart := not_lt.mp hbefore
    have hmem := fun v => mem_spread_snapshot (v := v) hactive hstart hlater hmine
    dsimp only
    split_ifs with hmeets
    · obtain ⟨v, hv, hsink⟩ := hmeets
      refine Or.inl ⟨step.t, rfl, ?_⟩
      exact (firstArrival_of_sink hsrc hstart hlater hno ((hmem v).mp hv) hsink).extendAll hsorted
    · exact ih hsorted hmem fun v hsink hv => hmeets ⟨v, (hmem v).mpr hv, hsink⟩

/-- The contacts of a timeline after a failure. -/
def timelineContact (ctx : ResilienceContext) (failed : List String) (areas : List ResolvedArea)
    (tl : ResilienceTimeline) : ℚ → String → String → Prop :=
  Contact ctx (activeNodes ctx failed) areas (startOf ctx tl) tl.steps

/-- The result for every source, whichever sources are asked about. -/
theorem arrivals_spec (failed : List String) (areas : List ResolvedArea) {tl : ResilienceTimeline}
    (htl : ctx.spec.timeline = some tl)
    (hsorted : tl.steps.Pairwise fun a b => a.t < b.t)
    (hsources : ∀ src ∈ sources, isSink ctx src = false) :
    (∀ src ∈ sources, (∃ a, (opportunisticArrivals ctx failed areas sources).get? src =
        some (a - startOf ctx tl) ∧
          FirstArrival ctx (activeNodes ctx failed) (timelineContact ctx failed areas tl) src a) ∨
      (opportunisticArrivals ctx failed areas sources).get? src = none ∧
        ∀ v, isSink ctx v = true → ¬Carrier (timelineContact ctx failed areas tl) src v) ∧
      ∀ src, src ∉ sources → (opportunisticArrivals ctx failed areas sources).get? src = none := by
  refine ⟨fun src hsrc => ?_, fun src hsrc => ?_⟩
  · have hnochain : ∀ t v, ¬Chain (Contact ctx (activeNodes ctx failed) areas (startOf ctx tl) [])
        src t v := by
      intro t v hchain
      obtain ⟨u, hu⟩ := hchain.exists_contact
      obtain ⟨step, hstep, -⟩ := hu
      cases hstep
    rw [get?_opportunisticArrivals ctx failed areas htl, if_pos hsrc]
    have hsorted' : ([] ++ tl.steps).Pairwise fun a b : TimelineStep => a.t < b.t := hsorted
    refine arrivalFrom_spec (activeNodes_subset ctx failed) (hsources src hsrc) hsorted'
      (fun v => Finset.mem_singleton.trans (or_iff_left ?_).symm) fun v hv hc => ?_
    · exact fun ⟨t, ht⟩ => hnochain t v ht
    · rcases hc with rfl | ⟨t, ht⟩
      · rw [hsources v hsrc] at hv
        cases hv
      · exact hnochain t v ht
  · rw [get?_opportunisticArrivals ctx failed areas htl, if_neg hsrc]

theorem FirstArrival.unique {contact : ℚ → String → String → Prop} {a a' : ℚ}
    (h : FirstArrival ctx active contact src a) (h' : FirstArrival ctx active contact src a') :
    a = a' := by
  obtain ⟨⟨s, hs, hchain⟩, hmin⟩ := h
  obtain ⟨⟨s', hs', hchain'⟩, hmin'⟩ := h'
  exact le_antisymm (hmin a' s' hs' hchain') (hmin' a s hs hchain)

/-- An arrival is reported for exactly the sources from which a chain of contacts leads to an active
sink, with the first instant of such a chain, and the answers do not depend on what else is
asked. -/
theorem earliest_arrivals (ctx : ResilienceContext) (failed : List String)
    (areas : List ResolvedArea) (tl : ResilienceTimeline) (sources : List String)
    (htl : ctx.spec.timeline = some tl) (hsorted : tl.steps.Pairwise fun a b => a.t < b.t)
    (hsources : ∀ src ∈ sources, isSink ctx src = false) :
    (∀ src ∈ sources, ∀ d,
      (opportunisticArrivals ctx failed areas sources).get? src = some d ↔
        ∃ a, d = a - startOf ctx tl ∧
          FirstArrival ctx (activeNodes ctx failed) (timelineContact ctx failed areas tl) src a) ∧
      (∀ src ∈ sources, (opportunisticArrivals ctx failed areas sources).get? src = none ↔
        ¬∃ t s, (s ∈ activeNodes ctx failed ∧ isSink ctx s = true) ∧
          Chain (timelineContact ctx failed areas tl) src t s) ∧
      (∀ src, src ∉ sources → (opportunisticArrivals ctx failed areas sources).get? src = none) ∧
      ∀ others : List String, (∀ src ∈ others, isSink ctx src = false) →
        ∀ src ∈ sources, src ∈ others →
          (opportunisticArrivals ctx failed areas others).get? src =
            (opportunisticArrivals ctx failed areas sources).get? src := by
  obtain ⟨hspec, hothers⟩ := arrivals_spec failed areas htl hsorted hsources
  refine ⟨fun src hsrc d => ⟨fun hget => ?_, ?_⟩, fun src hsrc => ⟨fun hget => ?_, fun hno => ?_⟩,
    hothers, fun others hnosink src hsrc hmem => ?_⟩
  · rcases hspec src hsrc with ⟨a, ha, hfirst⟩ | ⟨hnone, -⟩
    · exact ⟨a, Option.some.inj (hget.symm.trans ha), hfirst⟩
    · rw [hnone] at hget
      cases hget
  · rintro ⟨a, rfl, hfirst⟩
    rcases hspec src hsrc with ⟨a', ha', hfirst'⟩ | ⟨-, hno⟩
    · rw [ha', hfirst.unique hfirst']
    · obtain ⟨⟨s, hs, hchain⟩, -⟩ := hfirst
      exact absurd (Or.inr ⟨a, hchain⟩) (hno s hs.2)
  · rcases hspec src hsrc with ⟨a, ha, -⟩ | ⟨-, hno⟩
    · rw [ha] at hget
      cases hget
    · rintro ⟨t, s, hs, hchain⟩
      exact hno s hs.2 (Or.inr ⟨t, hchain⟩)
  · rcases hspec src hsrc with ⟨a, -, ⟨s, hs, hchain⟩, -⟩ | ⟨hnone, -⟩
    · exact absurd ⟨a, s, hs, hchain⟩ hno
    · exact hnone
  · obtain ⟨hspec', -⟩ := arrivals_spec failed areas htl hsorted hnosink
    rcases hspec src hsrc with ⟨a, ha, hfirst⟩ | ⟨hnone, hno⟩
    · rcases hspec' src hmem with ⟨a', ha', hfirst'⟩ | ⟨-, hno'⟩
      · rw [ha, ha', hfirst.unique hfirst']
      · obtain ⟨⟨s, hs, hchain⟩, -⟩ := hfirst
        exact absurd (Or.inr ⟨a, hchain⟩) (hno' s hs.2)
    · rcases hspec' src hmem with ⟨a', -, ⟨s, hs, hchain⟩, -⟩ | ⟨hnone', -⟩
      · exact absurd (Or.inr ⟨a', hchain⟩) (hno s hs.2)
      · rw [hnone, hnone']

/-- A Box, and a Card that meets another Card at 0 s and the Box at 60 s. -/
def courierSpec : ResilienceGraphSpec where
  nodes := [⟨"BOX", .box, false⟩, ⟨"A", .card, false⟩, ⟨"C", .card, false⟩]
  edges := []
  atS := some 0
  sinkKinds := none
  scoreKinds := none
  coverage := none
  timeline := some ⟨0, [⟨0, [⟨"A", "C", .lora, 1000, none, none, none, none⟩]⟩,
    ⟨60, [⟨"C", "BOX", .lora, 1000, none, none, none, none⟩]⟩]⟩
  positions := none
  frame := none
  reevaluate := none

def courierContext : ResilienceContext where
  spec := courierSpec
  nodup_ids := by decide
  edges_known := fun e he => absurd he List.not_mem_nil

theorem earliest_arrivals_courier :
    (opportunisticArrivals courierContext [] [] ["A"]).get? "A" = some 60 ∧
      ∃ a, (60 : ℚ) = a - 0 ∧
        FirstArrival courierContext ["BOX", "A", "C"]
          (timelineContact courierContext [] []
            ⟨0, [⟨0, [⟨"A", "C", .lora, 1000, none, none, none, none⟩]⟩,
              ⟨60, [⟨"C", "BOX", .lora, 1000, none, none, none, none⟩]⟩]⟩) "A" a := by
  have hget : (opportunisticArrivals courierContext [] [] ["A"]).get? "A" = some 60 := by
    decide +kernel
  have hspec := (earliest_arrivals courierContext [] [] _ ["A"] rfl (by decide +kernel)
    (by decide +kernel)).1 "A" (List.mem_singleton.mpr rfl) 60
  exact ⟨hget, hspec.mp hget⟩

end Arald.Scenario
