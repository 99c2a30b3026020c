import Arald.Mesh.FloodRuns

/-!
# Controlled flooding is safe

A node takes in a packet id once, whatever the network does to the copies, so it
delivers and relays it once. Every copy in circulation was originated with some
budget of hops and has lost one of them with every node it passed, which bounds
how far it gets. Budgets are binary64 numbers: up to `2^53` a hop makes the
budget strictly smaller.
-/

namespace Arald

open Foundations MeshNode

/-- A node can act on a packet id once only. -/
def Arrival.key (a : Arrival) : String × String := (a.nodeId, a.packet.id)

namespace FloodRun

variable {w w' : FloodRun} {nodeId : String} {event : NodeEvent} {n n' : MeshNode}

/-! ### Taken in once -/

theorem keys_intakesOf (nodeId : String) (n : MeshNode) (event : NodeEvent) :
    (intakesOf nodeId n event).map Arrival.key = (n.acceptedIds event).map fun x => (nodeId, x) := by
  cases event with
  | received packet fromPeerId now =>
    simp only [intakesOf, acceptedIds]
    split_ifs <;> rfl
  | _ => rfl

theorem nodup_acceptedIds (n : MeshNode) (event : NodeEvent) : (n.acceptedIds event).Nodup := by
  cases event with
  | received packet fromPeerId now =>
    simp only [acceptedIds]
    split_ifs <;> simp
  | _ => exact List.nodup_nil

/-- What is accepted has not been seen. -/
theorem not_seen_of_accepted {x : String} (h : x ∈ n.acceptedIds event) :
    n.seenCache.hasSeen x = false := by
  cases event with
  | received packet fromPeerId now =>
    simp only [acceptedIds] at h
    split_ifs at h with htaken
    · obtain rfl := List.mem_singleton.mp h
      simp only [takesIn, Bool.and_eq_true, Bool.not_eq_true'] at htaken
      exact htaken.2
    · cases h
  | _ => cases h

theorem node?_record (id : String) :
    (w.record nodeId event n n').node? id = if id = nodeId then some n' else w.node? id :=
  OrderedMap.get?_set ..

/-- No node takes in an id twice: it remembers all it has taken in. -/
structure TakenOnce (w : FloodRun) : Prop where
  seen : ∀ a ∈ w.intakes, ∃ n, w.node? a.nodeId = some n ∧
    n.seenCache.hasSeen a.packet.id = true
  nodup : (w.intakes.map Arrival.key).Nodup

theorem takenOnce (h : system.Reachable w) (hbudget : w.ids.length ≤ 4096) : TakenOnce w := by
  refine h.invariant_of (I := fun w => w.ids.length ≤ 4096 → TakenOnce w)
    (J := fun w => w.ids.length ≤ 4096 → ∀ id n, w.node? id = some n → w.Accounted id n)
    (fun w hw hbudget => accounted hw hbudget) ?_ ?_ hbudget
  · rintro w ⟨-, -, -, -, hnone, -⟩ -
    exact ⟨by simp [hnone], by simp [hnone]⟩
  · rintro w e w' hJ hI - hstep - hbudget
    obtain ⟨nodeId, event, n, n', hn, hnode, rfl, hsent⟩ := step_cases hstep
    have hbefore := ids_le_of_record hbudget
    obtain ⟨hseen, hnodup⟩ := hI hbefore
    have hremembers := hasSeen_of_step (hJ hbefore) hn hnode hsent hbudget
    refine ⟨fun a ha => ?_, ?_⟩
    · rw [node?_record]
      rcases List.mem_append.mp ha with hold | hnew
      · obtain ⟨m, hm, hmseen⟩ := hseen a hold
        split_ifs with hid
        · obtain rfl : n = m := Option.some_inj.mp (hn.symm.trans (hid ▸ hm))
          exact ⟨n', rfl, (hremembers _).mpr (.inl hmseen)⟩
        · exact ⟨m, hm, hmseen⟩
      · have hkey := List.mem_map_of_mem (f := Arrival.key) hnew
        rw [keys_intakesOf] at hkey
        obtain ⟨x, hx, heq⟩ := List.mem_map.mp hkey
        obtain ⟨hid, hxa⟩ := Prod.mk.inj heq
        exact ⟨n', by simp [← hid], (hremembers _).mpr (.inr (.inl (hxa ▸ hx)))⟩
    · change ((w.intakes ++ intakesOf nodeId n event).map Arrival.key).Nodup
      rw [List.map_append, keys_intakesOf]
      refine hnodup.append ((nodup_acceptedIds n event).map (Prod.mk_right_injective nodeId)) ?_
      intro key hold hnew
      obtain ⟨a, ha, rfl⟩ := List.mem_map.mp hold
      obtain ⟨x, hx, heq⟩ := List.mem_map.mp hnew
      obtain ⟨hid, hxa⟩ := Prod.mk.inj heq
      obtain ⟨m, hm, hmseen⟩ := hseen a ha
      obtain rfl : n = m := Option.some_inj.mp (hn.symm.trans (hid ▸ hm))
      rw [← hxa, not_seen_of_accepted hx] at hmseen
      cases hmseen

/-! ### Handed on once -/

/-- A node has an id in its custody, or has handed it on, at most once, and only
if it has seen it. -/
structure HandedOnce (w : FloodRun) : Prop where
  custody : ∀ id n, w.node? id = some n → ∀ x,
    n.custody x + w.handedOn.count (id, x) ≤ (n.seenCache.hasSeen x).toNat
  nodes : ∀ e ∈ w.handedOn, ∃ n, w.node? e.1 = some n

theorem HandedOnce.nodup (h : HandedOnce w) : w.handedOn.Nodup := by
  rw [List.nodup_iff_count_le_one]
  rintro ⟨id, x⟩
  by_cases hmem : (id, x) ∈ w.handedOn
  · obtain ⟨n, hn⟩ := h.nodes _ hmem
    have hcustody := h.custody id n hn x
    have hone := Bool.toNat_le (n.seenCache.hasSeen x)
    omega
  · rw [List.count_eq_zero.mpr hmem]
    exact zero_le_one

theorem count_map_pair (l : List String) (id nodeId x : String) :
    (l.map fun y => (nodeId, y)).count (id, x) = if id = nodeId then l.count x else 0 := by
  split_ifs with hid
  · subst hid
    exact List.count_map_of_injective l _ (Prod.mk_right_injective id) x
  · refine List.count_eq_zero.mpr fun hmem => hid ?_
    obtain ⟨y, -, heq⟩ := List.mem_map.mp hmem
    exact (congrArg Prod.fst heq).symm

/-- The step for the node that acts: a fresh id and an accepted one were unseen. -/
theorem custody_record_le (haccounted : ∀ id n, w.node? id = some n → w.Accounted id n)
    (hn : w.node? nodeId = some n) (hstep : n.step event = some n') (hsent : w.Sent nodeId event)
    (hbudget : (w.record nodeId event n n').ids.length ≤ 4096)
    (hfresh : (w.record nodeId event n n').ids.Nodup) (x : String)
    (hbefore : n.custody x + w.handedOn.count (nodeId, x) ≤ (n.seenCache.hasSeen x).toNat) :
    n'.custody x + (w.record nodeId event n n').handedOn.count (nodeId, x) ≤
      (n'.seenCache.hasSeen x).toNat := by
  have hcustody := custody_step_le hstep x
  have hremembers := hasSeen_of_step haccounted hn hstep hsent hbudget x
  obtain ⟨-, hnewNodup, hdisjoint⟩ := List.nodup_append.mp hfresh
  have hhanded : (w.record nodeId event n n').handedOn.count (nodeId, x) =
      w.handedOn.count (nodeId, x) + (n.handedIds event).count x := by
    rw [record, List.count_append, count_map_pair, if_pos rfl]
  rw [List.count_append] at hcustody
  by_cases hnew : x ∈ n.newIds n'
  · have hknown : x ∉ w.ids := fun hx => hdisjoint x hx x hnew rfl
    have hunseen : n.seenCache.hasSeen x = false := by
      rw [Bool.eq_false_iff]
      exact fun hx => hknown ((haccounted nodeId n hn).seen x hx)
    have haccepted : (n.acceptedIds event).count x = 0 :=
      List.count_eq_zero.mpr fun hx => hknown (mem_ids_of_accepted haccounted hsent hx)
    have hone := List.nodup_iff_count_le_one.mp hnewNodup x
    rw [hremembers.mpr (.inr (.inr hnew)), Bool.toNat_true]
    rw [hunseen, Bool.toNat_false] at hbefore
    omega
  · have hnone : (n.newIds n').count x = 0 := List.count_eq_zero.mpr hnew
    by_cases haccepted : x ∈ n.acceptedIds event
    · have hone := List.nodup_iff_count_le_one.mp (nodup_acceptedIds n event) x
      rw [hremembers.mpr (.inr (.inl haccepted)), Bool.toNat_true]
      rw [not_seen_of_accepted haccepted, Bool.toNat_false] at hbefore
      omega
    · have hzero : (n.acceptedIds event).count x = 0 := List.count_eq_zero.mpr haccepted
      have hsame : n'.seenCache.hasSeen x = n.seenCache.hasSeen x := by
        rw [Bool.eq_iff_iff, hremembers]
        tauto
      rw [hsame]
      omega

theorem handedOnce (h : system.Reachable w) (hbudget : w.ids.length ≤ 4096)
    (hfresh : w.ids.Nodup) : HandedOnce w := by
  refine h.invariant_of (I := fun w => w.ids.length ≤ 4096 → w.ids.Nodup → HandedOnce w)
    (J := fun w => w.ids.length ≤ 4096 → ∀ id n, w.node? id = some n → w.Accounted id n)
    (fun w hw hbudget => accounted hw hbudget) ?_ ?_ hbudget hfresh
  · rintro w ⟨hcreated, -, -, -, -, hnone⟩ - -
    refine ⟨fun id n hn x => ?_, by simp [hnone]⟩
    obtain ⟨options, resources, uuid, rfl⟩ := hcreated id n hn
    rw [hnone]
    exact Nat.zero_le _
  · rintro w e w' hJ hI - hstep - hbudget hfresh
    obtain ⟨nodeId, event, n, n', hn, hnode, rfl, hsent⟩ := step_cases hstep
    have hbefore := ids_le_of_record hbudget
    obtain ⟨hcustody, hnodes⟩ := hI hbefore (List.nodup_append.mp hfresh).1
    refine ⟨fun id m hm x => ?_, fun e he => ?_⟩
    · rw [node?_record] at hm
      split_ifs at hm with hid
      · obtain rfl := Option.some_inj.mp hm
        subst hid
        exact custody_record_le (hJ hbefore) hn hnode hsent hbudget hfresh x (hcustody id n hn x)
      · have hcount : (w.record nodeId event n n').handedOn.count (id, x) =
            w.handedOn.count (id, x) := by
          rw [record, List.count_append, count_map_pair, if_neg hid, Nat.add_zero]
        rw [hcount]
        exact hcustody id m hm x
    · rw [node?_record]
      split_ifs with hid
      · exact ⟨n', rfl⟩
      · rcases List.mem_append.mp he with hold | hnew
        · exact hnodes e hold
        · obtain ⟨x, -, rfl⟩ := List.mem_map.mp hnew
          exact absurd rfl hid

/-! ### The budget of hops -/

theorem topology_le_record : w.topology ≤ (w.record nodeId event n n').topology := by
  intro u v h
  rw [topology, SimpleGraph.fromRel_adj] at h ⊢
  exact ⟨h.1, h.2.imp mem_links_record mem_links_record⟩

theorem edist_le_one_of_link {u v : String} (h : (u, v) ∈ w.links) :
    w.topology.edist u v ≤ 1 := by
  rw [SimpleGraph.edist_le_one_iff_adj_or_eq, topology, SimpleGraph.fromRel_adj]
  by_cases huv : u = v
  · exact .inr huv
  · exact .inl ⟨huv, .inl h⟩

/-- Every node sends with an integer number of hops that a number can count. -/
def IntegerTtls (w : FloodRun) : Prop :=
  ∀ id n, w.node? id = some n → ∃ T : ℤ, n.ttl = .finite T ∧ T ≤ 2 ^ 53

/-- `p` was sent by its source with a budget of `T` hops and has made `k` of them. -/
structure Spent (w : FloodRun) (p : Packet) (T : ℤ) (k : ℕ) : Prop where
  source : ∃ m, w.node? p.source = some m ∧ m.ttl = .finite T
  ttl : p.ttl = .finite ((T - k : ℤ) : ℚ)
  within : k ≤ T.toNat

/-- A copy that the node `id` holds. -/
def Travelled (w : FloodRun) (id : String) (p : Packet) : Prop :=
  ∃ T k, w.Spent p T k ∧ w.topology.edist p.source id ≤ k

/-- A copy at its arrival: the link it came by does not count yet. -/
def Reached (w : FloodRun) (a : Arrival) : Prop :=
  ∃ T k, w.Spent a.packet T k ∧ w.topology.edist a.packet.source a.nodeId ≤ k + 1

/-- The budget of a copy that goes on is spent by one, in exact arithmetic. -/
theorem ttl_relayed {p : Packet} {T : ℤ} {k : ℕ} (h : p.ttl = .finite ((T - k : ℤ) : ℚ))
    (hT : T ≤ 2 ^ 53) (hhops : p.hasHopsLeft = true) :
    (k : ℤ) < T ∧ p.relayed.ttl = .finite ((T - (k + 1 : ℕ) : ℤ) : ℚ) := by
  have hpos : 0 < T - k := by
    rw [Packet.hasHopsLeft, h, JsNumber.lt_finite, decide_eq_true_eq] at hhops
    exact_mod_cast hhops
  have hless : T - k - 1 = T - (k + 1 : ℕ) := by
    push_cast
    ring
  refine ⟨by omega, ?_⟩
  rw [Packet.relayed, h, JsNumber.add_neg_one hpos (by omega), hless]

theorem Spent.relayed {p : Packet} {T : ℤ} {k : ℕ} (h : w.Spent p T k) (hT : T ≤ 2 ^ 53)
    (hhops : p.hasHopsLeft = true) : w.Spent p.relayed T (k + 1) := by
  obtain ⟨hlt, httl⟩ := ttl_relayed h.ttl hT hhops
  exact ⟨h.source, httl, by omega⟩

theorem Spent.ttl_decreases {p : Packet} {T : ℤ} {k : ℕ} (h : w.Spent p T k) (hT : T ≤ 2 ^ 53)
    (hhops : p.hasHopsLeft = true) : p.relayed.ttl.lt p.ttl = true := by
  rw [h.ttl, (h.relayed hT hhops).ttl, JsNumber.lt_finite, decide_eq_true_eq]
  push_cast
  linarith

section Growth

variable (hn : w.node? nodeId = some n) (hstep : n.step event = some n')
include hn hstep

theorem source_record {source : String} {T : ℤ}
    (h : ∃ m, w.node? source = some m ∧ m.ttl = .finite T) :
    ∃ m, (w.record nodeId event n n').node? source = some m ∧ m.ttl = .finite T := by
  obtain ⟨m, hm, httl⟩ := h
  rw [node?_record]
  split_ifs with hid
  · obtain rfl : n = m := Option.some_inj.mp (hn.symm.trans (hid ▸ hm))
    exact ⟨n', rfl, (step_effect hstep).ttl.trans httl⟩
  · exact ⟨m, hm, httl⟩

theorem Spent.record {p : Packet} {T : ℤ} {k : ℕ} (h : w.Spent p T k) :
    (w.record nodeId event n n').Spent p T k :=
  ⟨source_record hn hstep h.source, h.ttl, h.within⟩

theorem Travelled.record {id : String} {p : Packet} (h : w.Travelled id p) :
    (w.record nodeId event n n').Travelled id p := by
  obtain ⟨T, k, hspent, hdist⟩ := h
  exact ⟨T, k, hspent.record hn hstep, (SimpleGraph.edist_anti topology_le_record).trans hdist⟩

theorem Reached.record {a : Arrival} (h : w.Reached a) :
    (w.record nodeId event n n').Reached a := by
  obtain ⟨T, k, hspent, hdist⟩ := h
  exact ⟨T, k, hspent.record hn hstep, (SimpleGraph.edist_anti topology_le_record).trans hdist⟩

theorem IntegerTtls.of_record (h : (w.record nodeId event n n').IntegerTtls) : w.IntegerTtls := by
  intro id m hm
  by_cases hid : id = nodeId
  · obtain rfl : n = m := Option.some_inj.mp (hn.symm.trans (hid ▸ hm))
    rw [← (step_effect hstep).ttl]
    exact h nodeId n' (by rw [node?_record, if_pos rfl])
  · exact h id m (by rw [node?_record, if_neg hid, hm])

end Growth

/-- Nothing is held or taken in beyond the reach of its budget. -/
structure WithinReach (w : FloodRun) : Prop where
  held : ∀ id n, w.node? id = some n → ∀ p, n.Holds p → w.Travelled id p
  intakes : ∀ a ∈ w.intakes, w.Reached a

theorem mem_intakesOf {a : Arrival} (h : a ∈ intakesOf nodeId n event) :
    ∃ now, event = .received a.packet a.fromPeerId now ∧ a.nodeId = nodeId ∧
      n.takesIn a.packet a.fromPeerId now = true := by
  cases event with
  | received packet fromPeerId now =>
    simp only [intakesOf] at h
    split_ifs at h with htaken
    · obtain rfl := List.mem_singleton.mp h
      exact ⟨now, rfl, rfl, htaken⟩
    · cases h
  | _ => cases h

theorem withinReach (h : system.Reachable w) (hbudget : w.ids.length ≤ 4096)
    (httls : w.IntegerTtls) : WithinReach w := by
  refine h.invariant_of (I := fun w => w.ids.length ≤ 4096 → w.IntegerTtls → WithinReach w)
    (J := fun w => w.ids.length ≤ 4096 → ∀ id n, w.node? id = some n → w.Accounted id n)
    (fun w hw hbudget => accounted hw hbudget) ?_ ?_ hbudget httls
  · rintro w ⟨hcreated, -, -, -, hnone, -⟩ - -
    refine ⟨fun id n hn p hp => ?_, by simp [hnone]⟩
    obtain ⟨options, resources, uuid, rfl⟩ := hcreated id n hn
    exact absurd hp (not_holds_create p)
  · rintro w e w' hJ hI - hstep - hbudget httls
    obtain ⟨nodeId, event, n, n', hn, hnode, rfl, hsent⟩ := step_cases hstep
    have hbefore := ids_le_of_record hbudget
    have haccounted := hJ hbefore
    have httlsBefore := httls.of_record hn hnode
    obtain ⟨hheld, hintakes⟩ := hI hbefore httlsBefore
    -- a copy that arrives has made one hop more than the copy its sender holds
    have harrives : ∀ packet fromPeerId now, event = .received packet fromPeerId now →
        w.Reached ⟨nodeId, packet, fromPeerId⟩ := by
      intro packet fromPeerId now hevent
      obtain ⟨m, hm, s, hs, rfl, hrecipient⟩ := hsent packet fromPeerId now hevent
      obtain ⟨T, k, hspent, hdist⟩ := hheld fromPeerId m hm _ (.inl ⟨s, hs, rfl⟩)
      have hlink := edist_le_one_of_link ((haccounted fromPeerId m hm).sent s hs)
      rw [hrecipient] at hlink
      exact ⟨T, k, hspent, SimpleGraph.edist_triangle.trans (add_le_add hdist hlink)⟩
    refine ⟨fun id m hm p hp => ?_, fun a ha => ?_⟩
    · rw [node?_record] at hm
      split_ifs at hm with hid
      · obtain rfl := Option.some_inj.mp hm
        subst hid
        rcases (step_effect hnode).holds p hp with hbefore | hown | hrelays
        · exact (hheld id n hn p hbefore).record hn hnode
        · -- a packet of its own has made no hop yet
          obtain ⟨T, hT, -⟩ := httls id n' (by rw [node?_record, if_pos rfl])
          have hsource : p.source = id := by
            rw [hown.source, (haccounted id n hn).named]
          refine ⟨T, 0, ⟨⟨n', ?_, hT⟩, ?_, Nat.zero_le _⟩, ?_⟩
          · rw [hsource, node?_record, if_pos rfl]
          · rw [hown.ttl, ← (step_effect hnode).ttl, hT]
            simp
          · rw [hsource, SimpleGraph.edist_self]
            exact zero_le
        · obtain ⟨packet, fromPeerId, now, hevent, -, hrelay, rfl⟩ := hrelays
          obtain ⟨T, k, hspent, hdist⟩ := harrives packet fromPeerId now hevent
          obtain ⟨m, hm, hmT⟩ := hspent.source
          obtain ⟨T', hT', hbound⟩ := httlsBefore _ m hm
          have hsame : T = T' := by
            have heq := hmT.symm.trans hT'
            simpa using heq
          simp only [relays, Bool.and_eq_true] at hrelay
          have hnext := (hspent.relayed (hsame ▸ hbound) hrelay.2).record hn hnode
          refine ⟨T, k + 1, hnext, ?_⟩
          exact (SimpleGraph.edist_anti topology_le_record).trans (by exact_mod_cast hdist)
      · exact (hheld id m hm p hp).record hn hnode
    · rcases List.mem_append.mp ha with hold | hnew
      · exact (hintakes a hold).record hn hnode
      · obtain ⟨now, hevent, hid, -⟩ := mem_intakesOf hnew
        have hreached := harrives a.packet a.fromPeerId now hevent
        rw [← hid] at hreached
        exact Reached.record hn hnode hreached

/-! ### What is sent -/

/-- What a node holds is its own or was relayed. -/
theorem own_or_relayed (h : system.Reachable w) (hbudget : w.ids.length ≤ 4096) :
    ∀ id n, w.node? id = some n → ∀ p, n.Holds p →
      n.Originated p ∨ ∃ a ∈ w.forwarded, a.nodeId = id ∧ p = a.packet.relayed := by
  refine h.invariant_of
    (I := fun w => w.ids.length ≤ 4096 → ∀ id n, w.node? id = some n → ∀ p, n.Holds p →
      n.Originated p ∨ ∃ a ∈ w.forwarded, a.nodeId = id ∧ p = a.packet.relayed)
    (J := fun w => w.ids.length ≤ 4096 → ∀ id n, w.node? id = some n → w.Accounted id n)
    (fun w hw hbudget => accounted hw hbudget) ?_ ?_ hbudget
  · rintro w ⟨hcreated, -⟩ - id n hn p hp
    obtain ⟨options, resources, uuid, rfl⟩ := hcreated id n hn
    exact absurd hp (not_holds_create p)
  · rintro w e w' hJ hI - hstep - hbudget
    obtain ⟨nodeId, event, n, n', hn, hnode, rfl, -⟩ := step_cases hstep
    have hbefore := ids_le_of_record hbudget
    have hgrows : ∀ {id p}, (∃ a ∈ w.forwarded, a.nodeId = id ∧ p = a.packet.relayed) →
        ∃ a ∈ (w.record nodeId event n n').forwarded, a.nodeId = id ∧ p = a.packet.relayed := by
      rintro id p ⟨a, ha, hid, hp⟩
      refine ⟨a, ?_, hid, hp⟩
      rw [forwarded, record, List.filter_append]
      exact List.mem_append_left _ ha
    have heffect := step_effect hnode
    intro id m hm p hp
    rw [node?_record] at hm
    split_ifs at hm with hid
    · obtain rfl := Option.some_inj.mp hm
      subst hid
      rcases heffect.holds p hp with hheld | hown | hrelays
      · refine (hI hbefore id n hn p hheld).imp (fun hown => ?_) hgrows
        exact hown.mono heffect.nodeId heffect.ttl heffect.uuid heffect.drawn
      · exact .inl (hown.originated heffect.nodeId heffect.ttl heffect.uuid)
      · obtain ⟨packet, fromPeerId, now, rfl, htaken, hrelay, rfl⟩ := hrelays
        refine .inr ⟨⟨id, packet, fromPeerId⟩, ?_, rfl, rfl⟩
        have hnamed := (hJ hbefore id n hn).named
        have hforwarded : Arrival.forwarded ⟨id, packet, fromPeerId⟩ = true := by
          rwa [relays, hnamed] at hrelay
        refine List.mem_filter.mpr ⟨List.mem_append_right _ ?_, hforwarded⟩
        simp [intakesOf, htaken]
    · exact (hI hbefore id m hm p hp).imp_right hgrows

/-- A copy that arrives and is not taken in sends nothing and keeps nothing. -/
theorem duplicate_inert {sender : String} {index : ℕ} {now : ℤ}
    (hstep : step w (.arrived sender index now) = some w') (hintakes : w'.intakes = w.intakes) :
    ∀ id n', w'.node? id = some n' → ∃ n, w.node? id = some n ∧
      n'.sent = n.sent ∧ n'.attempts = n.attempts ∧ n'.pendingDeliveries = n.pendingDeliveries := by
  obtain ⟨s, -, hact⟩ := Option.bind_eq_some_iff.mp hstep
  obtain ⟨n, hn, hmap⟩ := Option.bind_eq_some_iff.mp hact
  obtain ⟨n', hnode, rfl⟩ := Option.map_eq_some_iff.mp hmap
  have hnot : n.takesIn s.packet sender now = false := by
    simpa [record, intakesOf] using hintakes
  simp only [MeshNode.step] at hnode
  split_ifs at hnode
  obtain rfl := Option.some_inj.mp hnode
  intro id m hm
  rw [node?_record] at hm
  split_ifs at hm with hid
  · obtain rfl := Option.some_inj.mp hm
    rw [handlePacket_of_not_takesIn hnot]
    exact ⟨n, hid ▸ hn, rfl, rfl, rfl⟩
  · exact ⟨m, hm, rfl, rfl, rfl⟩

/-- The nodes that take in an id are different ones. -/
theorem nodup_takers (h : TakenOnce w) (x : String) :
    ((w.intakes.filter fun a => a.packet.id = x).map Arrival.nodeId).Nodup := by
  have hkeys := h.nodup.sublist ((List.filter_sublist (p := fun a => a.packet.id = x)).map _)
  refine (List.nodup_map_iff_inj_on ?_).mpr ?_
  · exact List.Nodup.of_map _ hkeys
  · intro a ha b hb hab
    refine List.inj_on_of_nodup_map hkeys ha hb (Prod.ext hab ?_)
    have hax := (List.mem_filter.mp ha).2
    have hbx := (List.mem_filter.mp hb).2
    simp only [decide_eq_true_eq] at hax hbx
    exact hax.trans hbx.symm

/-- The flood of an id ends: each node takes it in once. -/
theorem intakes_le_nodes (h : TakenOnce w) (x : String) :
    (w.intakes.filter fun a => a.packet.id = x).length ≤ w.network.nodes.size := by
  have hsubset : (w.intakes.filter fun a => a.packet.id = x).map Arrival.nodeId ⊆
      w.network.nodes.keys := by
    intro id hid
    obtain ⟨a, ha, rfl⟩ := List.mem_map.mp hid
    obtain ⟨n, hn, -⟩ := h.seen a (List.mem_filter.mp ha).1
    exact OrderedMap.mem_keys_of_get? hn
  have hle := ((nodup_takers h x).subperm hsubset).length_le
  rwa [List.length_map, OrderedMap.length_keys] at hle

/-- What controlled flooding promises of a run. -/
structure Controlled (w : FloodRun) : Prop where
  delivered_once : (w.delivered.map Arrival.key).Nodup
  forwarded_once : (w.forwarded.map Arrival.key).Nodup
  handed_on_once : w.handedOn.Nodup
  copies_relayed : ∀ id n, w.node? id = some n → ∀ s ∈ n.sent,
    n.Originated s.packet ∨ ∃ a ∈ w.forwarded, a.nodeId = id ∧ s.packet = a.packet.relayed
  ttl_decreases : ∀ a ∈ w.forwarded, a.packet.relayed.ttl.lt a.packet.ttl = true
  quiesces : ∀ x, (w.intakes.filter fun a => a.packet.id = x).length ≤ w.network.nodes.size
  duplicates_inert : ∀ sender index now w', step w (.arrived sender index now) = some w' →
    w'.intakes = w.intakes → ∀ id n', w'.node? id = some n' → ∃ n, w.node? id = some n ∧
      n'.sent = n.sent ∧ n'.attempts = n.attempts ∧ n'.pendingDeliveries = n.pendingDeliveries
  hops_bounded : ∀ a ∈ w.delivered, ∃ (m : MeshNode) (T : ℤ),
    w.node? a.packet.source = some m ∧ m.ttl = .finite T ∧
      w.topology.edist a.packet.source a.nodeId ≤ T.toNat + 1
  destination_only : ∀ a ∈ w.delivered, a.packet.isBroadcast = false →
    a.packet.isFor a.nodeId = true

theorem integerTtls_of_values {T : ℤ} (hT : T ≤ 2 ^ 53)
    (h : ∀ ttl ∈ w.network.nodes.values.map MeshNode.ttl, ttl = .finite T) : w.IntegerTtls := by
  intro id n hn
  refine ⟨T, h n.ttl (List.mem_map_of_mem ?_), hT⟩
  exact OrderedMap.mem_values.mpr ⟨id, OrderedMap.get?_eq_some.mp hn⟩

/-- `a` floods a packet along the line `a`, `b`, `c`; the copy for `b` arrives twice. -/
def lineRun : List NetworkEvent :=
  connect "a" "b" ++ connect "b" "c" ++
    [floodFrom "a", .arrived "a" 3 1, .arrived "a" 3 2, .arrived "b" 7 3]

/-- `a` floods a packet to its neighbour `b`, which takes it in. -/
def pairRun : List NetworkEvent := connect "a" "b" ++ [floodFrom "a", .arrived "a" 3 1]

end FloodRun
end Arald
