import Arald.Scenario.Simulation

/-!
# Limits and causality of the simulation

What every use of the channel and every transfer preserves: the buckets and the
channel credit pay for the air time, nobody has more of a message than its size,
and bytes travel along links in order of time. The invariant holds of the
simulation after every step.
-/

namespace Arald.Scenario

open Foundations

variable {opts : SimOptions} {clock t : ℚ} {s s' : Sim} {m : Message}

/-! ### What is kept -/

/-- The air time that a node used, with its instants. -/
def Sim.spendings (s : Sim) (node : String) : List (ℚ × ℚ) :=
  (s.emissions.filter fun e => decide (e.node = node)).map fun e => (e.t, e.airtimeS)

/-- The duty cycle as an exact number. -/
def SimOptions.dutyCycle (opts : SimOptions) : ℚ := opts.params.reg.dutyCycle

/-- A link at an instant of the simulation, not before the message was created. -/
def linkAfter (opts : SimOptions) (m : Message) (t : ℚ) (u v : String) : Prop :=
  m.createdAt ≤ t ∧ (∃ k : ℕ, t = k * opts.stepS) ∧ ∃ links, opts.linksAt t = .ok links ∧
    ∃ l ∈ links, l.a = u ∧ l.b = v ∨ l.a = v ∧ l.b = u

/-- A chain of links up to the clock leads from the source of the message to the node. -/
def Led (opts : SimOptions) (m : Message) (clock : ℚ) (node : String) : Prop :=
  ∃ t ≤ clock, Chain (linkAfter opts m) m.source t node

theorem Led.mono {clock' : ℚ} {node : String} (h : Led opts m clock node) (hle : clock ≤ clock') :
    Led opts m clock' node := h.imp fun _ ht => ⟨ht.1.trans hle, ht.2⟩

/-- Bytes that a node holds: at most the message, and its source has them or a chain led there. -/
def Holdable (opts : SimOptions) (m : Message) (clock : ℚ) (node : String) (bytes : ℚ) : Prop :=
  bytes ≤ m.sizeBytes ∧ (node = m.source ∨ Led opts m clock node)

theorem Holdable.mono {clock' bytes : ℚ} {node : String} (h : Holdable opts m clock node bytes)
    (hle : clock ≤ clock') : Holdable opts m clock' node bytes :=
  ⟨h.1, h.2.imp_right fun hled => hled.mono hle⟩

/-- The invariant of the simulation at an instant. -/
structure Sim.Sound (opts : SimOptions) (clock : ℚ) (s : Sim) : Prop where
  credit : 0 ≤ s.channelCredit
  emissions : ∀ e ∈ s.emissions, 0 ≤ e.channelCredit
  buckets : ∀ n ∈ opts.nodes, TokenBucket opts.bucketCap opts.dutyCycle opts.stepS
    (s.spendings n.id) (s.bucket n.id) clock
  held : ∀ m ∈ opts.messages, ∀ node bytes, s.held node m.id = some bytes →
    Holdable opts m clock node bytes
  transfers : ∀ e ∈ s.transfers, ∃ m ∈ opts.messages, m.id = e.message ∧ e.newHeld ≤ m.sizeBytes
  reached : ∀ m ∈ opts.messages, ∀ d instant, s.reachedAt m.id d = some instant →
    ∃ t ≤ clock, instant = t + opts.stepS ∧ Chain (linkAfter opts m) m.source t d

theorem duty_nonneg (opts : SimOptions) : 0 ≤ opts.dutyCycle := opts.params.reg.dutyCycle.2

theorem bucketCap_nonneg (opts : SimOptions) : 0 ≤ opts.bucketCap :=
  mul_nonneg (duty_nonneg opts) (by norm_num)

theorem message_eq {m m' : Message} (hm : m ∈ opts.messages) (hm' : m' ∈ opts.messages)
    (h : m.id = m'.id) : m = m' := List.inj_on_of_nodup_map opts.nodup_messages hm hm' h

theorem setHeld_apply (held : String → String → Option ℚ) (node message : String)
    (bytes : Option ℚ) (node' message' : String) :
    setHeld held node message bytes node' message' =
      if node' = node ∧ message' = message then bytes else held node' message' := by
  rw [setHeld]
  by_cases hnode : node' = node
  · rw [hnode, Function.update_self, Function.update_apply]
    exact if_congr (and_iff_right rfl).symm rfl rfl
  · rw [Function.update_of_ne hnode, if_neg fun h => hnode h.1]

/-- The time on air is positive. -/
theorem loraTimeOnAir_pos (bytes : ℕ) (sf : SpreadingFactor) (phy : LoraPhy) :
    0 < loraTimeOnAir bytes sf phy := by
  have htSym : 0 < (2 : ℚ) ^ sf.value / phy.bandwidthHz :=
    div_pos (pow_pos two_pos _) phy.bandwidth_pos
  rw [loraTimeOnAir]
  refine mul_pos ?_ htSym
  refine add_pos_of_pos_of_nonneg (add_pos_of_nonneg_of_pos (Nat.cast_nonneg _) (by norm_num)) ?_
  exact Int.cast_nonneg (add_nonneg (by norm_num) (le_max_right _ _))

theorem channelCreditCap_nonneg (opts : SimOptions) : 0 ≤ opts.channelCreditCap :=
  add_nonneg (mul_nonneg opts.step_pos.le opts.params.channelEfficiency.2)
    (mul_nonneg zero_le_two (loraTimeOnAir_pos _ _ _).le)

/-- What fits the floor of a budget costs no more than the budget. -/
theorem framesToSend_mul_le (budgetS want frameApp : ℚ) {toa : ℚ} (htoa : 0 < toa) :
    framesToSend budgetS toa want frameApp * toa ≤ budgetS := by
  have hle : framesToSend budgetS toa want frameApp ≤ ⌊budgetS / toa⌋ := by
    rw [framesToSend]
    split_ifs
    · exact le_rfl
    · exact min_le_left _ _
  exact (le_div_iff₀ htoa).mp (Int.le_floor.mp hle)

/-! ### Operations between transfers -/

theorem sound_start (opts : SimOptions) (clock : ℚ) : (Sim.start opts).Sound opts clock := by
  refine ⟨le_rfl, fun e he => absurd he List.not_mem_nil, fun n _ => ?_, fun m _ node bytes h => ?_,
    fun e he => absurd he List.not_mem_nil, fun m _ d instant h => ?_⟩
  · exact TokenBucket.full (bucketCap_nonneg opts) (duty_nonneg opts) opts.step_pos.le clock
  · cases h
  · cases h

theorem Sim.Sound.createMessage (h : s.Sound opts clock) (hm : m ∈ opts.messages)
    (hs' : Scenario.createMessage opts t s m = .ok s') :
    s'.Sound opts clock ∧ s'.transfers = s.transfers := by
  rw [Scenario.createMessage] at hs'
  split_ifs at hs'
  · cases hsource : opts.byId m.source with
    | none =>
      rw [hsource] at hs'
      cases hs'
    | some n =>
      rw [hsource] at hs'
      dsimp only at hs'
      split_ifs at hs'
      · rw [← Except.ok.inj hs']
        refine ⟨⟨h.credit, h.emissions, h.buckets, fun m' hm' node bytes hbytes => ?_, h.transfers,
          h.reached⟩, rfl⟩
        dsimp only at hbytes
        rw [setHeld_apply] at hbytes
        split_ifs at hbytes with hsame
        · obtain rfl := message_eq hm' hm hsame.2
          rw [← Option.some.inj hbytes]
          exact ⟨le_rfl, Or.inl hsame.1⟩
        · exact h.held m' hm' node bytes hbytes
      · rw [← Except.ok.inj hs']
        exact ⟨h, rfl⟩
  · rw [← Except.ok.inj hs']
    exact ⟨h, rfl⟩

/-- Each bucket is refilled once. -/
theorem refill_apply {nodes : List NodeSpec} (hnodup : (nodes.map NodeSpec.id).Nodup)
    (f : ℚ → ℚ) (bucket : String → ℚ) {n : NodeSpec} (hn : n ∈ nodes) :
    nodes.foldl (fun bucket n => Function.update bucket n.id (f (bucket n.id))) bucket n.id =
      f (bucket n.id) := by
  have hother : ∀ (l : List NodeSpec) (bucket : String → ℚ), n.id ∉ l.map NodeSpec.id →
      l.foldl (fun bucket n => Function.update bucket n.id (f (bucket n.id))) bucket n.id =
        bucket n.id := by
    intro l
    induction l with
    | nil => exact fun _ _ => rfl
    | cons n' l ih =>
      intro bucket hnot
      rw [List.map_cons] at hnot
      obtain ⟨hne, hrest⟩ := List.ne_and_not_mem_of_not_mem_cons hnot
      rw [List.foldl_cons, ih _ hrest, Function.update_of_ne hne]
  induction nodes generalizing bucket with
  | nil => cases hn
  | cons n' nodes ih =>
    rw [List.map_cons] at hnodup
    obtain ⟨hnew, hnodup⟩ := List.nodup_cons.mp hnodup
    rw [List.foldl_cons]
    rcases List.mem_cons.mp hn with rfl | hn
    · rw [hother nodes _ hnew, Function.update_self]
    · have hne : n.id ≠ n'.id := fun heq => hnew (heq ▸ List.mem_map_of_mem hn)
      rw [ih hnodup _ hn, Function.update_of_ne hne]

theorem Sim.Sound.refillBuckets (h : s.Sound opts clock) :
    (Scenario.refillBuckets opts s).Sound opts (clock + opts.stepS) := by
  have hle : clock ≤ clock + opts.stepS := le_add_of_nonneg_right opts.step_pos.le
  refine ⟨h.credit, h.emissions, fun n hn => ?_, fun m hm node bytes hbytes => ?_, h.transfers,
    fun m hm d instant hinstant => ?_⟩
  · have hlevel : (Scenario.refillBuckets opts s).bucket n.id =
        min opts.bucketCap (s.bucket n.id + opts.dutyCycle * opts.stepS) :=
      refill_apply opts.nodup_nodes
        (fun level => min opts.bucketCap (level + opts.dutyCycle * opts.stepS)) s.bucket hn
    rw [hlevel]
    exact (h.buckets n hn).refill (duty_nonneg opts) opts.step_pos.le
  · exact (h.held m hm node bytes hbytes).mono hle
  · obtain ⟨t, ht, hchain⟩ := h.reached m hm d instant hinstant
    exact ⟨t, ht.trans hle, hchain⟩

theorem Sim.Sound.observe (h : s.Sound opts clock) (t : ℚ) (links : List NodeLink) :
    (Scenario.observe opts t links s).Sound opts clock :=
  ⟨h.credit, h.emissions, h.buckets, h.held, h.transfers, h.reached⟩

theorem Sim.Sound.creditChannel (h : s.Sound opts clock) :
    (Scenario.creditChannel opts s).Sound opts clock := by
  refine ⟨le_min (channelCreditCap_nonneg opts) ?_, h.emissions, h.buckets, h.held, h.transfers,
    h.reached⟩
  exact add_nonneg h.credit (mul_nonneg opts.step_pos.le opts.params.channelEfficiency.2)

/-! ### Transfers -/

/-- What a step has transferred so far is bounded by what the senders held at its start. -/
structure Sim.During (opts : SimOptions) (t : ℚ) (startHeld : String → String → Option ℚ)
    (earlier : List Transfer) (s : Sim) : Prop where
  sound : s.Sound opts t
  fromStart : ∃ new, s.transfers = earlier ++ new ∧
    ∀ e ∈ new, e.t = t ∧ e.newHeld ≤ bytesOf startHeld e.sender e.message

variable {startHeld : String → String → Option ℚ} {earlier : List Transfer} {sender nb : String}
  {available newHeld airtimeS : ℚ} {pending : List String}

/-- A sender that held bytes of a message at the start of the step. -/
structure MaySend (opts : SimOptions) (t : ℚ) (startHeld : String → String → Option ℚ)
    (m : Message) (sender : String) (available : ℚ) : Prop where
  message : m ∈ opts.messages
  start : bytesOf startHeld sender m.id = available
  holdable : Holdable opts m t sender available

theorem Sim.During.spend (h : s.During opts t startHeld earlier)
    (hnonneg : 0 ≤ airtimeS)
    (hbucket : airtimeS ≤ s.bucket sender) (hcredit : airtimeS ≤ s.channelCredit) :
    (s.spend t m sender airtimeS).During opts t startHeld earlier := by
  have hsound := h.sound
  refine ⟨⟨sub_nonneg.mpr hcredit, fun e he => ?_, fun n hn => ?_, hsound.held, hsound.transfers,
    hsound.reached⟩, h.fromStart⟩
  · rcases List.mem_append.mp he with he | he
    · exact hsound.emissions e he
    · rw [List.mem_singleton.mp he]
      exact sub_nonneg.mpr hcredit
  · have hspendings : (s.spend t m sender airtimeS).spendings n.id =
        s.spendings n.id ++ if sender = n.id then [(t, airtimeS)] else [] := by
      rw [Sim.spendings, Sim.spend, List.filter_append, List.map_append, List.filter_cons,
        List.filter_nil]
      split_ifs with hself hdecide hdecide
      · rfl
      · exact absurd (of_decide_eq_true hself) hdecide
      · exact absurd (decide_eq_true hdecide) hself
      · rfl
    have hlevel : (s.spend t m sender airtimeS).bucket n.id =
        if sender = n.id then s.bucket n.id - airtimeS else s.bucket n.id := by
      change Function.update s.bucket sender (s.bucket sender - airtimeS) n.id = _
      split_ifs with hself
      · rw [← hself, Function.update_self]
      · rw [Function.update_of_ne (Ne.symm hself)]
    rw [hspendings, hlevel]
    split_ifs with hself
    · exact (hsound.buckets n hn).spend (duty_nonneg opts) hnonneg (hself ▸ hbucket)
    · rw [List.append_nil]
      exact hsound.buckets n hn

/-- A link from a node that a chain has led to leads on. -/
theorem Holdable.led (h : Holdable opts m t sender available) (hlink : linkAfter opts m t sender nb) :
    Chain (linkAfter opts m) m.source t nb := by
  rcases h.2 with rfl | ⟨t', ht', hchain⟩
  · exact .first hlink
  · exact .next hchain ht' hlink

theorem Sim.During.receive (h : s.During opts t startHeld earlier)
    (hsend : MaySend opts t startHeld m sender available)
    (hlink : linkAfter opts m t sender nb) (hnew : newHeld ≤ available) :
    (s.receive opts t m pending sender nb newHeld).During opts t startHeld earlier := by
  have hsound := h.sound
  have hchain := hsend.holdable.led hlink
  have hsize := hnew.trans hsend.holdable.1
  have hheld : ∀ m' ∈ opts.messages, ∀ node bytes,
      setHeld s.held nb m.id (some newHeld) node m'.id = some bytes →
        Holdable opts m' t node bytes := by
    intro m' hm' node bytes hbytes
    rw [setHeld_apply] at hbytes
    split_ifs at hbytes with hsame
    · obtain rfl := message_eq hm' hsend.message hsame.2
      rw [← Option.some.inj hbytes, hsame.1]
      exact ⟨hsize, Or.inr ⟨t, le_rfl, hchain⟩⟩
    · exact hsound.held m' hm' node bytes hbytes
  have htransfers : ∀ e ∈ s.transfers ++ [(⟨m.id, sender, nb, t, newHeld⟩ : Transfer)],
      ∃ m ∈ opts.messages, m.id = e.message ∧ e.newHeld ≤ m.sizeBytes := by
    intro e he
    rcases List.mem_append.mp he with he | he
    · exact hsound.transfers e he
    · rw [List.mem_singleton.mp he]
      exact ⟨m, hsend.message, rfl, hsize⟩
  have hfrom : ∃ new, s.transfers ++ [(⟨m.id, sender, nb, t, newHeld⟩ : Transfer)] = earlier ++ new ∧
      ∀ e ∈ new, e.t = t ∧ e.newHeld ≤ bytesOf startHeld e.sender e.message := by
    obtain ⟨new, hsplit, hall⟩ := h.fromStart
    refine ⟨new ++ [⟨m.id, sender, nb, t, newHeld⟩], by rw [hsplit, List.append_assoc],
      fun e he => ?_⟩
    rcases List.mem_append.mp he with he | he
    · exact hall e he
    · rw [List.mem_singleton.mp he]
      exact ⟨rfl, hnew.trans hsend.start.ge⟩
  have hreached : ∀ m' ∈ opts.messages, ∀ d instant, Function.update s.reachedAt m.id
      (Function.update (s.reachedAt m.id) nb (some (t + opts.stepS))) m'.id d = some instant →
        ∃ t' ≤ t, instant = t' + opts.stepS ∧ Chain (linkAfter opts m') m'.source t' d := by
    intro m' hm' d instant hinstant
    by_cases hsame : m'.id = m.id
    · obtain rfl := message_eq hm' hsend.message hsame
      rw [Function.update_self] at hinstant
      by_cases hd : d = nb
      · rw [hd, Function.update_self] at hinstant
        exact ⟨t, le_rfl, (Option.some.inj hinstant).symm, hd ▸ hchain⟩
      · rw [Function.update_of_ne hd] at hinstant
        exact hsound.reached m' hm' d instant hinstant
    · rw [Function.update_of_ne hsame] at hinstant
      exact hsound.reached m' hm' d instant hinstant
  unfold Sim.receive
  dsimp only
  split_ifs
  · exact ⟨⟨hsound.credit, hsound.emissions, hsound.buckets, hheld, htransfers, hreached⟩, hfrom⟩
  · exact ⟨⟨hsound.credit, hsound.emissions, hsound.buckets, hheld, htransfers, hreached⟩, hfrom⟩
  · exact ⟨⟨hsound.credit, hsound.emissions, hsound.buckets, hheld, htransfers, hsound.reached⟩, hfrom⟩

theorem Sim.During.sendLora {turn : Turn} {want recvHeld : ℚ} {sf : SpreadingFactor}
    (h : turn.sim.During opts t startHeld earlier)
    (hsend : MaySend opts t startHeld m sender available) (hlink : linkAfter opts m t sender nb)
    (hwant : recvHeld + want = available) :
    (Scenario.sendLora opts t m pending sender want recvHeld nb sf turn).sim.During opts t
      startHeld earlier := by
  have htoa := loraTimeOnAir_pos (loraFrameBytesFor sf opts.params) sf opts.params.phy
  rw [Scenario.sendLora]
  dsimp only
  split_ifs with hblocked hframes
  · exact h
  · exact h
  · have hcost := framesToSend_mul_le (min (turn.sim.bucket sender) turn.sim.channelCredit) want
      (loraAppBytesPerFrame opts.params (some sf)) htoa
    have hpos := Int.cast_nonneg (R := ℚ) (not_le.mp hframes).le
    refine (h.spend (mul_nonneg hpos htoa.le) (hcost.trans (min_le_left _ _))
      (hcost.trans (min_le_right _ _))).receive hsend hlink ?_
    rw [← hwant]
    exact add_le_add_right (min_le_left _ _) _

theorem Sim.During.sendShort {turn : Turn} {want recvHeld bps : ℚ}
    (h : turn.sim.During opts t startHeld earlier)
    (hsend : MaySend opts t startHeld m sender available) (hlink : linkAfter opts m t sender nb)
    (hwant : recvHeld + want = available) :
    (Scenario.sendShort opts t m pending sender want recvHeld nb bps turn).sim.During opts t
      startHeld earlier := by
  rw [Scenario.sendShort]
  split_ifs with hnothing
  · exact h
  · refine h.receive hsend hlink ?_
    rw [← hwant]
    exact add_le_add_right (min_le_left _ _) _

theorem Sim.During.sendTo {turn : Turn} {candidate : String × LinkState}
    (h : turn.sim.During opts t startHeld earlier)
    (hsend : MaySend opts t startHeld m sender available)
    (hlink : linkAfter opts m t sender candidate.1) :
    (Scenario.sendTo opts t m pending sender available turn candidate).sim.During opts t
      startHeld earlier := by
  have hwant : ∀ recvHeld, recvHeld + (available - recvHeld) = available := fun recvHeld =>
    add_sub_cancel recvHeld available
  rw [Scenario.sendTo]
  dsimp only
  split_ifs
  · exact h
  · exact h
  · exact h
  · cases candidate.2 with
    | lora sf rateBps => exact h.sendLora hsend hlink (hwant _)
    | wifi rateBps => exact h.sendShort hsend hlink (hwant _)
    | ble rateBps => exact h.sendShort hsend hlink (hwant _)

/-! ### Candidates and copies -/

theorem mem_adjacencyOf {links : List NodeLink} {u : String} {c : String × LinkState}
    (h : c ∈ adjacencyOf links u) : ∃ l ∈ links, l.a = u ∧ l.b = c.1 ∨ l.a = c.1 ∧ l.b = u := by
  suffices hall : ∀ (links' : List NodeLink) (adj : String → List (String × LinkState)),
      (∀ u c, c ∈ adj u → ∃ l ∈ links, l.a = u ∧ l.b = c.1 ∨ l.a = c.1 ∧ l.b = u) →
        links' ⊆ links → ∀ u c, c ∈ links'.foldl (fun adj l =>
          let adj := Function.update adj l.a (adj l.a ++ [(l.b, l.link)])
          Function.update adj l.b (adj l.b ++ [(l.a, l.link)])) adj u →
            ∃ l ∈ links, l.a = u ∧ l.b = c.1 ∨ l.a = c.1 ∧ l.b = u by
    exact hall links _ (fun _ _ hc => absurd hc List.not_mem_nil) (List.Subset.refl _) u c h
  intro links'
  induction links' with
  | nil => exact fun adj hadj _ u c hc => hadj u c hc
  | cons l links' ih =>
    intro adj hadj hsub
    obtain ⟨hl, hsub⟩ := List.cons_subset.mp hsub
    have hfirst : ∀ u c, c ∈ Function.update adj l.a (adj l.a ++ [(l.b, l.link)]) u →
        ∃ l ∈ links, l.a = u ∧ l.b = c.1 ∨ l.a = c.1 ∧ l.b = u := by
      intro u c hc
      by_cases hu : u = l.a
      · rw [hu, Function.update_self] at hc
        rcases List.mem_append.mp hc with hc | hc
        · exact hu ▸ hadj l.a c hc
        · rw [List.mem_singleton.mp hc]
          exact ⟨l, hl, Or.inl ⟨hu.symm, rfl⟩⟩
      · rw [Function.update_of_ne hu] at hc
        exact hadj u c hc
    refine ih _ (fun u c hc => ?_) hsub
    dsimp only at hc
    by_cases hu : u = l.b
    · rw [hu, Function.update_self] at hc
      rcases List.mem_append.mp hc with hc | hc
      · exact hu ▸ hfirst l.b c hc
      · rw [List.mem_singleton.mp hc]
        exact ⟨l, hl, Or.inr ⟨rfl, hu.symm⟩⟩
    · rw [Function.update_of_ne hu] at hc
      exact hfirst u c hc

theorem candidatesOf_subset (opts : SimOptions) (view : Snapshot)
    (cost : Option (OrderedMap String ℚ)) (sender : String) :
    candidatesOf opts view cost sender ⊆ view.adj sender := by
  unfold candidatesOf
  cases cost with
  | none => exact List.Subset.refl _
  | some cost =>
    dsimp only
    cases cost.get? sender with
    | none => exact List.Subset.refl _
    | some dSender =>
      intro c hc
      exact (List.mem_filter.mp ((List.mem_insertionSort _).mp (List.mem_of_mem_take hc))).1

theorem Sim.During.expireCopy {reach : OrderedMap String ℕ} (h : s.During opts t startHeld earlier)
    (m : Message) (sender : String) :
    (Scenario.expireCopy opts t m reach sender s).1.During opts t startHeld earlier := by
  have hsound := h.sound
  have hkeep : ∀ isolated, ({ s with isolatedSince := isolated } : Sim).During opts t startHeld
      earlier := fun isolated =>
    ⟨⟨hsound.credit, hsound.emissions, hsound.buckets, hsound.held, hsound.transfers,
      hsound.reached⟩, h.fromStart⟩
  rw [Scenario.expireCopy]
  cases opts.relayCarryTtlS with
  | none => exact h
  | some ttl =>
    dsimp only
    split_ifs
    · exact hkeep _
    · refine ⟨⟨hsound.credit, hsound.emissions, hsound.buckets, fun m' hm' node bytes hbytes => ?_,
        hsound.transfers, hsound.reached⟩, h.fromStart⟩
      dsimp only at hbytes
      rw [setHeld_apply] at hbytes
      split_ifs at hbytes
      exact hsound.held m' hm' node bytes hbytes
    · exact hkeep _
    · exact h

/-! ### One step -/

variable {view : Snapshot} {links : List NodeLink}

/-- What the start of a step gives: the links of an instant, and bytes that may be held then. -/
structure StartsAt (opts : SimOptions) (t : ℚ) (links : List NodeLink) (view : Snapshot) : Prop where
  instant : ∃ k : ℕ, t = k * opts.stepS
  found : opts.linksAt t = .ok links
  adj : view.adj = adjacencyOf links
  held : ∀ m ∈ opts.messages, ∀ node bytes, view.startHeld node m.id = some bytes →
    Holdable opts m t node bytes

theorem Sim.During.sendFrom {turn : Turn} {reach : OrderedMap String ℕ}
    {cost : Option (OrderedMap String ℚ)} (hview : StartsAt opts t links view)
    (hm : m ∈ opts.messages) (hcreated : m.createdAt ≤ t)
    (h : turn.sim.During opts t view.startHeld earlier) (sender : NodeSpec) :
    (Scenario.sendFrom opts t view m pending reach cost turn sender).sim.During opts t
      view.startHeld earlier := by
  rw [Scenario.sendFrom]
  dsimp only
  split_ifs with hon hnone hexpired
  · exact h
  · exact h
  · exact h.expireCopy m sender.id
  · have hsend : MaySend opts t view.startHeld m sender.id
        (bytesOf view.startHeld sender.id m.id) := by
      refine ⟨hm, rfl, ?_⟩
      cases hheld : view.startHeld sender.id m.id with
      | none =>
        rw [bytesOf, hheld] at hnone
        exact absurd rfl hnone
      | some bytes =>
        rw [bytesOf, hheld]
        exact hview.held m hm _ _ hheld
    refine List.foldlRecOn (motive := fun turn : Turn => turn.sim.During opts t view.startHeld earlier)
      _ _ (h.expireCopy m sender.id) fun turn hturn candidate hmem => ?_
    refine hturn.sendTo hsend ⟨hcreated, hview.instant, links, hview.found, ?_⟩
    have hadj := candidatesOf_subset opts view cost sender.id hmem
    rw [hview.adj] at hadj
    exact mem_adjacencyOf hadj

theorem hopsFor_sim (opts : SimOptions) (view : Snapshot) (dests : List String) (turn : Turn) :
    (hopsFor opts view dests turn).2.sim = turn.sim := by
  rw [hopsFor]
  dsimp only
  split
  · rfl
  · rfl

theorem costFor_sim (opts : SimOptions) (view : Snapshot) (dests : List String) (turn : Turn) :
    (costFor opts view dests turn).2.sim = turn.sim := by
  rw [costFor]
  split_ifs
  · exact hopsFor_sim opts view dests turn
  · dsimp only
    split
    · rfl
    · rfl

theorem Sim.During.sendMessage {turn turn' : Turn} (hview : StartsAt opts t links view)
    (hm : m ∈ opts.messages) (h : turn.sim.During opts t view.startHeld earlier)
    (hturn' : Scenario.sendMessage opts t view turn m = .ok turn') :
    turn'.sim.During opts t view.startHeld earlier := by
  rw [Scenario.sendMessage] at hturn'
  split_ifs at hturn' with hskip
  · rw [← Except.ok.inj hturn']
    exact h
  · have hcreated : m.createdAt ≤ t := not_lt.mp fun hlt => hskip (Or.inl hlt)
    cases hpending : (destinationsOf m).filterM (isPending opts t m turn.sim) with
    | error e =>
      rw [hpending] at hturn'
      cases hturn'
    | ok pending =>
      rw [hpending, ok_bind] at hturn'
      split_ifs at hturn'
      · rw [← Except.ok.inj hturn']
        exact h
      · have hall : ∀ (reach : OrderedMap String ℕ) (cost : Option (OrderedMap String ℚ))
            (turn : Turn), turn.sim.During opts t view.startHeld earlier →
              (opts.nodes.foldl (Scenario.sendFrom opts t view m pending reach cost)
                turn).sim.During opts t view.startHeld earlier := fun reach cost turn hturn =>
          List.foldlRecOn (motive := fun turn : Turn =>
            turn.sim.During opts t view.startHeld earlier) _ _ hturn fun turn hturn sender _ =>
            hturn.sendFrom hview hm hcreated sender
        dsimp only at hturn'
        have hreach := hopsFor_sim opts view pending turn
        generalize hopsFor opts view pending turn = hops at hreach hturn'
        cases hpolicy : opts.policy with
        | epidemic =>
          rw [hpolicy] at hturn'
          rw [← Except.ok.inj hturn']
          exact hall _ _ _ (hreach ▸ h)
        | custody =>
          rw [hpolicy] at hturn'
          rw [← Except.ok.inj hturn']
          refine hall _ _ _ ?_
          rw [costFor_sim, hreach]
          exact h

/-- What a step ends with: the transfers it made are bounded by what was held at its start. -/
theorem Sim.Sound.simStep {k : ℕ} (h : s.Sound opts (k * opts.stepS - opts.stepS))
    (hs' : Scenario.simStep opts (k * opts.stepS) s = .ok s') :
    s'.Sound opts (k * opts.stepS) ∧ ∃ created new,
      opts.messages.foldlM (Scenario.createMessage opts (k * opts.stepS))
        { s with steps := s.steps + 1 } = .ok created ∧
      s'.transfers = s.transfers ++ new ∧
      ∀ e ∈ new, e.t = k * opts.stepS ∧ e.newHeld ≤ bytesOf created.held e.sender e.message := by
  rw [Scenario.simStep] at hs'
  cases hcreated : opts.messages.foldlM (Scenario.createMessage opts (k * opts.stepS))
      { s with steps := s.steps + 1 } with
  | error e =>
    rw [hcreated] at hs'
    cases hs'
  | ok created =>
    rw [hcreated, ok_bind] at hs'
    have hmade : created.Sound opts (k * opts.stepS - opts.stepS) ∧
        created.transfers = s.transfers := by
      refine foldlM_invariant (fun s' => s'.Sound opts (k * opts.stepS - opts.stepS) ∧
        s'.transfers = s.transfers) (fun m hm a b ha hb => ?_) ⟨?_, rfl⟩ hcreated
      · obtain ⟨hsound, htransfers⟩ := ha.1.createMessage hm hb
        exact ⟨hsound, htransfers.trans ha.2⟩
      · exact ⟨h.credit, h.emissions, h.buckets, h.held, h.transfers, h.reached⟩
    obtain ⟨hmade, htransfers⟩ := hmade
    have hrefilled := hmade.refillBuckets
    rw [sub_add_cancel] at hrefilled
    dsimp only at hs'
    cases hlinks : opts.linksAt (k * opts.stepS) with
    | error e =>
      rw [hlinks] at hs'
      cases hs'
    | ok links =>
      rw [hlinks, ok_bind] at hs'
      have hready := (hrefilled.observe (k * opts.stepS) links).creditChannel
      have hview : StartsAt opts (k * opts.stepS) links ⟨adjacencyOf links, created.held⟩ :=
        ⟨⟨k, rfl⟩, hlinks, rfl, hrefilled.held⟩
      generalize hstart : Scenario.creditChannel opts (Scenario.observe opts (k * opts.stepS) links
        (Scenario.refillBuckets opts created)) = start at hready hs'
      have hstartHeld : start.held = created.held := hstart ▸ rfl
      have hstartTransfers : start.transfers = created.transfers := hstart ▸ rfl
      rw [hstartHeld] at hs'
      cases hsent : opts.sorted.foldlM (Scenario.sendMessage opts (k * opts.stepS)
          ⟨adjacencyOf links, created.held⟩) (Turn.start start) with
      | error e =>
        rw [hsent] at hs'
        cases hs'
      | ok turn =>
        rw [hsent, ok_bind] at hs'
        obtain rfl := Except.ok.inj hs'
        have hduring : turn.sim.During opts (k * opts.stepS) created.held s.transfers := by
          refine foldlM_invariant (fun turn : Turn =>
            turn.sim.During opts (k * opts.stepS) created.held s.transfers)
            (fun m hm a b ha hb => ?_) ?_ hsent
          · exact ha.sendMessage hview ((List.mem_insertionSort _).mp hm) hb
          · exact ⟨hready, [], (hstartTransfers.trans htransfers).trans (List.append_nil _).symm,
              fun e he => absurd he List.not_mem_nil⟩
        obtain ⟨new, hsplit, hall⟩ := hduring.fromStart
        exact ⟨hduring.sound, created, new, rfl, hsplit, hall⟩

/-! ### Runs -/

/-- After a number of steps the clock is at the last of them. -/
theorem sound_simRun {k : ℕ} (h : simRun opts k = .ok s) :
    s.Sound opts (k * opts.stepS - opts.stepS) := by
  induction k generalizing s with
  | zero => exact Except.ok.inj h ▸ sound_start opts _
  | succ k ih =>
    rw [simRun] at h
    cases hk : simRun opts k with
    | error e =>
      rw [hk] at h
      cases h
    | ok earlier =>
      rw [hk, ok_bind] at h
      have hclock : ((k + 1 : ℕ) : ℚ) * opts.stepS - opts.stepS = k * opts.stepS := by
        rw [Nat.cast_succ, add_one_mul, add_sub_cancel_right]
      rw [hclock]
      exact ((ih hk).simStep h).1

/-- The table of a delivery has the instants at which destinations were reached. -/
theorem get?_deliveredAtByDest {result : DeliveryResult} (h : deliveryOf opts s m = .ok result)
    {d : String} {instant : Option ℚ} (hd : result.deliveredAtByDest.get? d = some instant) :
    result.messageId = m.id ∧ instant = (s.reachedAt m.id d).map fun reached => reached - m.createdAt := by
  rw [deliveryOf] at h
  cases hbytes : (destinationsOf m).mapM (heldAt opts s m) with
  | error e =>
    rw [hbytes] at h
    cases h
  | ok bytes =>
    rw [hbytes, ok_bind] at h
    rw [← Except.ok.inj h] at hd ⊢
    refine ⟨rfl, ?_⟩
    have hall : ∀ d instant, ((destinationsOf m).foldl (fun table d =>
        OrderedMap.set table d ((s.reachedAt m.id d).map fun instant => instant - m.createdAt))
          OrderedMap.empty).get? d = some instant →
            instant = (s.reachedAt m.id d).map fun instant => instant - m.createdAt := by
      refine List.foldlRecOn (motive := fun table : OrderedMap String (Option ℚ) => ∀ d instant,
        table.get? d = some instant →
          instant = (s.reachedAt m.id d).map fun instant => instant - m.createdAt) _ _
        (fun d instant h => ?_) fun table htable d' _ d instant h => ?_
      · cases h
      · rw [OrderedMap.get?_set] at h
        split_ifs at h with hd
        · rw [hd, ← Option.some.inj h]
        · exact htable d instant h
    exact hall d instant hd

/-- In every run the air time of a node in an interval is at most what its bucket holds and the duty
cycle gives over the interval and one step, the channel credit is never negative, nobody has
more of a message than its size nor receives more than its sender held at the start of the
step, and a chain of links in order of time, none before the message was created, leads from
its source to every destination that is reported reached. -/
theorem simulation_respects_limits (opts : SimOptions) :
    (∀ k s, simRun opts k = .ok s →
      (∀ n ∈ opts.nodes, ∀ start length, 0 ≤ length →
        spentBetween (s.spendings n.id) start (start + length) ≤
          opts.bucketCap + opts.dutyCycle * (length + opts.stepS)) ∧
      (0 ≤ s.channelCredit ∧ ∀ e ∈ s.emissions, 0 ≤ e.channelCredit) ∧
      (∀ m ∈ opts.messages, (∀ node bytes, s.held node m.id = some bytes → bytes ≤ m.sizeBytes) ∧
        ∀ e ∈ s.transfers, e.message = m.id → e.newHeld ≤ m.sizeBytes) ∧
      (∀ s', simStep opts (k * opts.stepS) s = .ok s' → ∃ created new,
        opts.messages.foldlM (createMessage opts (k * opts.stepS))
          { s with steps := s.steps + 1 } = .ok created ∧
        s'.transfers = s.transfers ++ new ∧ ∀ e ∈ new, e.t = k * opts.stepS ∧
          e.newHeld ≤ bytesOf created.held e.sender e.message) ∧
      ∀ m ∈ opts.messages, ∀ d instant, s.reachedAt m.id d = some instant →
        ∃ t, instant = t + opts.stepS ∧ Chain (linkAfter opts m) m.source t d) ∧
    ∀ result, simulate opts = .ok result → ∀ r ∈ result.deliveries, ∀ d instant,
      r.deliveredAtByDest.get? d = some (some instant) → ∃ m ∈ opts.messages, m.id = r.messageId ∧
        ∃ t, instant = t + opts.stepS - m.createdAt ∧ Chain (linkAfter opts m) m.source t d := by
  refine ⟨fun k s hs => ?_, fun result hresult r hr d instant hd => ?_⟩
  · have hsound := sound_simRun hs
    refine ⟨fun n hn start length hlength => ?_, ⟨hsound.credit, hsound.emissions⟩,
      fun m hm => ⟨fun node bytes hbytes => (hsound.held m hm node bytes hbytes).1,
        fun e he hsame => ?_⟩, fun s' hs' => (hsound.simStep hs').2, fun m hm d instant hinstant => ?_⟩
    · have hbetween := (hsound.buckets n hn).between start (start + length)
        (le_add_of_nonneg_right hlength)
      rwa [add_sub_cancel_left] at hbetween
    · obtain ⟨m', hm', hid, hle⟩ := hsound.transfers e he
      rwa [message_eq hm hm' (hsame.symm.trans hid.symm)]
    · obtain ⟨t, -, hinstant, hchain⟩ := hsound.reached m hm d instant hinstant
      exact ⟨t, hinstant, hchain⟩
  · rw [simulate] at hresult
    cases hs : simRun opts (stepCount opts) with
    | error e =>
      rw [hs] at hresult
      cases hresult
    | ok s =>
      rw [hs, ok_bind] at hresult
      cases hdeliveries : opts.messages.mapM (deliveryOf opts s) with
      | error e =>
        rw [hdeliveries] at hresult
        cases hresult
      | ok deliveries =>
        rw [hdeliveries, ok_bind] at hresult
        rw [← Except.ok.inj hresult, eq_filterMap_of_mapM hdeliveries] at hr
        obtain ⟨m, hm, hsome⟩ := List.mem_filterMap.mp hr
        cases hr' : deliveryOf opts s m with
        | error e =>
          rw [hr'] at hsome
          cases hsome
        | ok r' =>
          rw [hr'] at hsome
          obtain rfl := Option.some.inj hsome
          obtain ⟨hid, hvalue⟩ := get?_deliveredAtByDest hr' hd
          obtain ⟨reached, hreached, rfl⟩ := Option.map_eq_some_iff.mp hvalue.symm
          obtain ⟨t, -, rfl, hchain⟩ := (sound_simRun hs).reached m hm d reached hreached
          exact ⟨m, hm, hid.symm, t, rfl, hchain⟩

end Arald.Scenario
