import Arald.Foundations.OrderedMap

/-!
# Breadth-first search from several sources

The distances found so far are a map in order of discovery, the queue is never
shortened, and an index runs along it. The distances along the queue never
decrease and never exceed the one at the index by more than one, which makes the
first distance given to a vertex the least.
-/

namespace Foundations

structure Search (ι : Type*) where
  hops : OrderedMap ι ℕ
  queue : List ι

namespace Search

variable {ι : Type*} [DecidableEq ι]

def enter (s : Search ι) (source : ι) : Search ι := ⟨s.hops.set source 0, s.queue ++ [source]⟩

def start (sources : List ι) : Search ι := sources.foldl enter ⟨.empty, []⟩

/-- One neighbour `nb` of the vertex `cur`. -/
def visit (cur : ι) (s : Search ι) (nb : ι) : Search ι :=
  if s.hops.has nb then s
  else ⟨s.hops.set nb ((s.hops.get? cur).getD 0 + 1), s.queue ++ [nb]⟩

def loop (adj : ι → List ι) : ℕ → ℕ → Search ι → Search ι
  | 0, _, s => s
  | fuel + 1, h, s =>
    match s.queue[h]? with
    | none => s
    | some cur => loop adj fuel (h + 1) ((adj cur).foldl (visit cur) s)

/-- `v` is at the end of a path of length `n` from a source. -/
inductive Path (adj : ι → List ι) (sources : List ι) : ℕ → ι → Prop
  | source {v : ι} : v ∈ sources → Path adj sources 0 v
  | step {n : ℕ} {u v : ι} : Path adj sources n u → v ∈ adj u → Path adj sources (n + 1) v

/-- The map and the queue agree, every distance is that of a path, and the distances along the queue
do not decrease. -/
structure Layered (adj : ι → List ι) (sources : List ι) (s : Search ι) : Prop where
  keys_eq : s.hops.keys = s.queue
  sound : ∀ v d, s.hops.get? v = some d → Path adj sources d v
  sorted : s.hops.values.Pairwise (· ≤ ·)

/-- Nothing found is lost or changed. -/
structure Extends (s s' : Search ι) : Prop where
  get?_of : ∀ v d, s.hops.get? v = some d → s'.hops.get? v = some d
  isPrefix : s.queue <+: s'.queue

theorem Extends.refl (s : Search ι) : Extends s s := ⟨fun _ _ h => h, List.prefix_rfl⟩

theorem Extends.trans {s s' s'' : Search ι} (h : Extends s s') (h' : Extends s' s'') :
    Extends s s'' :=
  ⟨fun v d hv => h'.get?_of v d (h.get?_of v d hv), h.isPrefix.trans h'.isPrefix⟩

theorem Extends.getElem? {s s' : Search ι} (h : Extends s s') {i : ℕ} {u : ι}
    (hu : s.queue[i]? = some u) : s'.queue[i]? = some u := by
  obtain ⟨rest, hrest⟩ := h.isPrefix
  rw [← hrest, List.getElem?_append_left (List.getElem?_eq_some_iff.mp hu).1]
  exact hu

variable {adj : ι → List ι} {sources : List ι} {s : Search ι} {cur nb : ι} {d : ℕ}

/-- Entering a new vertex at a distance not below the others. -/
theorem Layered.add (h : s.Layered adj sources) {v : ι} (hnew : v ∉ s.hops.keys)
    (hpath : Path adj sources d v) (hmax : ∀ e ∈ s.hops.values, e ≤ d) :
    Layered adj sources ⟨s.hops.set v d, s.queue ++ [v]⟩ ∧
      Extends s ⟨s.hops.set v d, s.queue ++ [v]⟩ := by
  have hvalues : (s.hops.set v d).values = s.hops.values ++ [d] := by
    change ((OrderedMap.setEntries v d s.hops.entries).map Prod.snd) = _
    rw [OrderedMap.setEntries_of_notMem _ _ _ hnew, List.map_append]
    rfl
  refine ⟨⟨?_, fun w e hw => ?_, ?_⟩, fun w e hw => ?_, List.prefix_append _ _⟩
  · rw [OrderedMap.keys_set_of_notMem _ hnew, h.keys_eq]
  · by_cases hwv : w = v
    · rw [hwv, OrderedMap.get?_set_self] at hw
      rw [hwv, ← Option.some.inj hw]
      exact hpath
    · rw [OrderedMap.get?_set_of_ne _ _ hwv] at hw
      exact h.sound w e hw
  · rw [hvalues]
    refine List.pairwise_append.mpr ⟨h.sorted, List.pairwise_singleton .., fun e he f hf => ?_⟩
    exact List.mem_singleton.mp hf ▸ hmax e he
  · have hwv : w ≠ v := fun heq => hnew (heq ▸ OrderedMap.mem_keys_of_get? hw)
    exact (OrderedMap.get?_set_of_ne _ _ hwv).trans hw

theorem layered_start (adj : ι → List ι) (hnodup : sources.Nodup) :
    (start sources).Layered adj sources ∧ (start sources).queue = sources ∧
      ∀ e ∈ (start sources).hops.values, e = 0 := by
  suffices hall : ∀ (rest : List ι) (s : Search ι), s.Layered adj sources →
      (∀ e ∈ s.hops.values, e = 0) → (s.queue ++ rest).Nodup → (∀ v ∈ rest, v ∈ sources) →
        (rest.foldl enter s).Layered adj sources ∧ (rest.foldl enter s).queue = s.queue ++ rest ∧
          ∀ e ∈ (rest.foldl enter s).hops.values, e = 0 by
    refine hall sources ⟨.empty, []⟩ ⟨rfl, fun v d h => ?_, .nil⟩ (fun e he => ?_) hnodup
      fun v hv => hv
    · cases h
    · cases he
  intro rest
  induction rest with
  | nil =>
    intro s hs hzero _ _
    exact ⟨hs, (List.append_nil _).symm, hzero⟩
  | cons v rest ih =>
    intro s hs hzero hnd hsub
    have hnew : v ∉ s.hops.keys := by
      rw [hs.keys_eq]
      intro hv
      exact (List.nodup_append.mp hnd).2.2 v hv v List.mem_cons_self rfl
    obtain ⟨hadd, -⟩ := hs.add hnew (.source (hsub v List.mem_cons_self))
      fun e he => (hzero e he).le
    have hrest := ih (s.enter v) hadd ?_ ?_ fun w hw => hsub w (List.mem_cons_of_mem _ hw)
    · obtain ⟨hlayered, hqueue, hvalues⟩ := hrest
      exact ⟨hlayered, hqueue.trans (List.append_assoc ..), hvalues⟩
    · intro e he
      obtain ⟨k, hk⟩ := OrderedMap.mem_values.mp he
      rcases OrderedMap.mem_set.mp hk with ⟨-, rfl⟩ | ⟨hk, -⟩
      · rfl
      · exact hzero e (OrderedMap.mem_values.mpr ⟨k, hk⟩)
    · exact (List.append_assoc s.queue [v] rest).symm ▸ hnd

theorem mem_values_of_get? {v : ι} {e : ℕ} (h : s.hops.get? v = some e) : e ∈ s.hops.values :=
  OrderedMap.mem_values.mpr ⟨v, OrderedMap.get?_eq_some.mp h⟩

/-- All neighbours of a vertex at distance `d` are found, none beyond `d + 1`. -/
theorem Layered.visitAll (h : s.Layered adj sources) (hcur : s.hops.get? cur = some d)
    (hmax : ∀ e ∈ s.hops.values, e ≤ d + 1) {nbs : List ι} (hnbs : ∀ v ∈ nbs, v ∈ adj cur) :
    (nbs.foldl (visit cur) s).Layered adj sources ∧ Extends s (nbs.foldl (visit cur) s) ∧
      (∀ e ∈ (nbs.foldl (visit cur) s).hops.values, e ≤ d + 1) ∧
      ∀ v ∈ nbs, ∃ e ≤ d + 1, (nbs.foldl (visit cur) s).hops.get? v = some e := by
  induction nbs generalizing s with
  | nil => exact ⟨h, .refl s, hmax, fun v hv => absurd hv List.not_mem_nil⟩
  | cons nb nbs ih =>
    rw [List.foldl_cons]
    have hrest : ∀ v ∈ nbs, v ∈ adj cur := fun v hv => hnbs v (List.mem_cons_of_mem _ hv)
    -- one neighbour: already there, or entered at `d + 1`
    have hone : (visit cur s nb).Layered adj sources ∧ Extends s (visit cur s nb) ∧
        (∀ e ∈ (visit cur s nb).hops.values, e ≤ d + 1) ∧
        ∃ e ≤ d + 1, (visit cur s nb).hops.get? nb = some e := by
      rw [visit]
      split_ifs with hhas
      · obtain ⟨e, he⟩ := Option.isSome_iff_exists.mp hhas
        exact ⟨h, .refl s, hmax, e, hmax e (mem_values_of_get? he), he⟩
      · have hnew : nb ∉ s.hops.keys := fun hk => hhas (OrderedMap.has_iff.mpr hk)
        rw [hcur, Option.getD_some]
        obtain ⟨hadd, hext⟩ :=
          h.add hnew (.step (h.sound cur d hcur) (hnbs nb List.mem_cons_self)) hmax
        refine ⟨hadd, hext, fun e he => ?_, d + 1, le_rfl, OrderedMap.get?_set_self ..⟩
        obtain ⟨k, hk⟩ := OrderedMap.mem_values.mp he
        rcases OrderedMap.mem_set.mp hk with ⟨-, rfl⟩ | ⟨hk, -⟩
        · exact le_rfl
        · exact hmax e (OrderedMap.mem_values.mpr ⟨k, hk⟩)
    obtain ⟨hlayered, hext, hmax', e, hle, he⟩ := hone
    obtain ⟨hall, hext', hmaxAll, hfound⟩ := ih hlayered (hext.get?_of cur d hcur) hmax' hrest
    refine ⟨hall, hext.trans hext', hmaxAll, fun v hv => ?_⟩
    rcases List.mem_cons.mp hv with rfl | hv
    · exact ⟨e, hle, hext'.get?_of v e he⟩
    · exact hfound v hv

/-- The loop at index `h`: what is before it has been expanded, and no distance exceeds the one at
the index by more than one. -/
structure Expanded (adj : ι → List ι) (h : ℕ) (s : Search ι) : Prop where
  closed : ∀ i < h, ∀ u d, s.queue[i]? = some u → s.hops.get? u = some d → ∀ v ∈ adj u,
    ∃ e ≤ d + 1, s.hops.get? v = some e
  max_le : ∀ u d, s.queue[h]? = some u → s.hops.get? u = some d → ∀ e ∈ s.hops.values, e ≤ d + 1

theorem Layered.get?_queue (h : s.Layered adj sources) {i : ℕ} {u : ι}
    (hu : s.queue[i]? = some u) : ∃ d, s.hops.get? u = some d ∧ s.hops.values[i]? = some d := by
  rw [← h.keys_eq, OrderedMap.keys, List.getElem?_map] at hu
  obtain ⟨⟨k, d⟩, he, rfl⟩ := Option.map_eq_some_iff.mp hu
  refine ⟨d, OrderedMap.get?_eq_some.mpr (List.mem_of_getElem? he), ?_⟩
  rw [OrderedMap.values, List.getElem?_map, he]
  rfl

theorem Layered.expand (h : s.Layered adj sources) {i : ℕ} (hexp : s.Expanded adj i)
    (hcur : s.queue[i]? = some cur) :
    ((adj cur).foldl (visit cur) s).Layered adj sources ∧
      Extends s ((adj cur).foldl (visit cur) s) ∧
      ((adj cur).foldl (visit cur) s).Expanded adj (i + 1) := by
  obtain ⟨d, hd, hvalue⟩ := h.get?_queue hcur
  obtain ⟨hlayered, hext, hmax, hfound⟩ :=
    h.visitAll hd (hexp.max_le cur d hcur hd) fun v hv => hv
  refine ⟨hlayered, hext, fun j hj u e hu he v hv => ?_, fun u e hu he f hf => ?_⟩
  · have hcur' : ((adj cur).foldl (visit cur) s).queue[i]? = some cur :=
      hext.getElem? hcur
    rcases Nat.lt_succ_iff_lt_or_eq.mp hj with hj | rfl
    · have hlt : j < s.queue.length := hj.trans (List.getElem?_eq_some_iff.mp hcur).1
      have hold : s.queue[j]? = some u := by
        rw [List.getElem?_eq_getElem hlt]
        rw [hext.getElem? (List.getElem?_eq_getElem hlt)] at hu
        exact hu
      obtain ⟨e', he', -⟩ := h.get?_queue hold
      have heq : e' = e := Option.some.inj ((hext.get?_of u e' he').symm.trans he)
      obtain ⟨g, hg, hget⟩ := hexp.closed j hj u e (hold) (heq ▸ he') v hv
      exact ⟨g, hg, hext.get?_of v g hget⟩
    · have huc : u = cur := Option.some.inj (hu.symm.trans hcur')
      rw [huc] at he hv
      have hed : e = d := Option.some.inj (he.symm.trans (hext.get?_of cur d hd))
      exact hed ▸ hfound v hv
  · obtain ⟨e', he', hvalue'⟩ := hlayered.get?_queue hu
    have heq : e' = e := Option.some.inj (he'.symm.trans he)
    obtain ⟨d', hd', hvalue''⟩ := hlayered.get?_queue (hext.getElem? hcur)
    have hdd : d' = d := Option.some.inj (hd'.symm.trans (hext.get?_of cur d hd))
    obtain ⟨hi, hvi⟩ := List.getElem?_eq_some_iff.mp hvalue''
    obtain ⟨hi', hvi'⟩ := List.getElem?_eq_some_iff.mp hvalue'
    have hle := List.pairwise_iff_getElem.mp hlayered.sorted i (i + 1) hi hi' (Nat.lt_succ_self i)
    rw [hvi, hvi', hdd, heq] at hle
    exact (hmax f hf).trans (Nat.succ_le_succ hle)

/-- When no more than `fuel` vertices remain to be expanded, the loop expands them all. -/
theorem Layered.loop {universe' : List ι} (hall : ∀ n v, Path adj sources n v → v ∈ universe')
    (h : s.Layered adj sources) {i fuel : ℕ} (hexp : s.Expanded adj i)
    (hfuel : universe'.length ≤ i + fuel) :
    (loop adj fuel i s).Layered adj sources ∧ Extends s (loop adj fuel i s) ∧
      ∃ j, (loop adj fuel i s).queue.length ≤ j ∧ (loop adj fuel i s).Expanded adj j := by
  induction fuel generalizing i s with
  | zero =>
    refine ⟨h, .refl s, i, ?_, hexp⟩
    have hsub : s.queue ⊆ universe' := by
      intro v hv
      rw [← h.keys_eq] at hv
      obtain ⟨d, hd⟩ := OrderedMap.mem_keys.mp hv
      exact hall d v (h.sound v d (OrderedMap.get?_eq_some.mpr hd))
    have hnodup : s.queue.Nodup := h.keys_eq ▸ s.hops.nodup_keys
    exact ((List.subperm_of_subset hnodup hsub).length_le).trans hfuel
  | succ fuel ih =>
    rw [Search.loop]
    cases hcur : s.queue[i]? with
    | none => exact ⟨h, .refl s, i, List.getElem?_eq_none_iff.mp hcur, hexp⟩
    | some cur =>
      obtain ⟨hlayered, hext, hexp'⟩ := h.expand hexp hcur
      obtain ⟨hdone, hext', hfinal⟩ := ih hlayered hexp' (by omega)
      exact ⟨hdone, hext.trans hext', hfinal⟩

/-- The search finds the vertices at the end of a path, each with the length of a shortest one. -/
theorem get?_loop_iff {universe' : List ι} (hnodup : sources.Nodup)
    (hall : ∀ n v, Path adj sources n v → v ∈ universe') {fuel : ℕ}
    (hfuel : universe'.length ≤ fuel) (v : ι) (d : ℕ) :
    (loop adj fuel 0 (start sources)).hops.get? v = some d ↔
      Path adj sources d v ∧ ∀ m, Path adj sources m v → d ≤ m := by
  obtain ⟨hstart, hqueue, hzero⟩ := layered_start adj hnodup
  have hexp : (start sources).Expanded adj 0 :=
    ⟨fun i hi => absurd hi (Nat.not_lt_zero i), fun u d _ _ e he => (hzero e he).trans_le (Nat.zero_le _)⟩
  obtain ⟨hlayered, hext, j, hj, hexpanded⟩ := hstart.loop hall hexp (hfuel.trans_eq (Nat.zero_add fuel).symm)
  -- along any path the distances found grow by at most one a step
  have hshort : ∀ m w, Path adj sources m w →
      ∃ e ≤ m, (loop adj fuel 0 (start sources)).hops.get? w = some e := by
    intro m w hpath
    induction hpath with
    | source hw =>
      rw [← hqueue, ← hstart.keys_eq] at hw
      obtain ⟨e, he⟩ := OrderedMap.mem_keys.mp hw
      have hget := OrderedMap.get?_eq_some.mpr he
      exact ⟨e, (hzero e (mem_values_of_get? hget)).le, hext.get?_of _ _ hget⟩
    | step _ hadj ih =>
      obtain ⟨e, hle, he⟩ := ih
      have hmem := OrderedMap.mem_keys_of_get? he
      rw [hlayered.keys_eq] at hmem
      obtain ⟨i, hi⟩ := List.mem_iff_getElem?.mp hmem
      have hij : i < j := (List.getElem?_eq_some_iff.mp hi).1.trans_le hj
      obtain ⟨f, hf, hget⟩ := hexpanded.closed i hij _ e hi he _ hadj
      exact ⟨f, by omega, hget⟩
  constructor
  · intro hget
    refine ⟨hlayered.sound v d hget, fun m hm => ?_⟩
    obtain ⟨e, hle, he⟩ := hshort m v hm
    exact (Option.some.inj (hget.symm.trans he)).trans_le hle
  · rintro ⟨hpath, hmin⟩
    obtain ⟨e, hle, he⟩ := hshort d v hpath
    rw [he, le_antisymm hle (hmin e (hlayered.sound v e he))]

/-! ### Sources given more than once -/

/-- The second list is the first without some vertices that were met before. -/
inductive Thinned : List ι → List ι → List ι → Prop
  | nil {met : List ι} : Thinned met [] []
  | keep {met rest rest' : List ι} {u : ι} :
      Thinned (u :: met) rest rest' → Thinned met (u :: rest) (u :: rest')
  | skip {met rest rest' : List ι} {u : ι} :
      u ∈ met → Thinned met rest rest' → Thinned met (u :: rest) rest'

omit [DecidableEq ι] in
theorem Thinned.refl (met l : List ι) : Thinned met l l := by
  induction l generalizing met with
  | nil => exact .nil
  | cons u l ih => exact .keep (ih (u :: met))

omit [DecidableEq ι] in
theorem Thinned.append {met rest rest' : List ι} (h : Thinned met rest rest') (new : List ι) :
    Thinned met (rest ++ new) (rest' ++ new) := by
  induction h with
  | nil => exact .refl _ new
  | keep _ ih => exact .keep ih
  | skip hmet _ ih => exact .skip hmet ih

omit [DecidableEq ι] in
theorem Thinned.length_le {met rest rest' : List ι} (h : Thinned met rest rest') :
    rest'.length ≤ rest.length := by
  induction h with
  | nil => exact le_rfl
  | keep _ ih => exact Nat.succ_le_succ ih
  | skip _ _ ih => exact ih.trans (Nat.le_succ _)

theorem exists_thinned (met l : List ι) : ∃ l', Thinned met l l' ∧ l'.Nodup ∧
    (∀ v ∈ l', v ∈ l ∧ v ∉ met) ∧ ∀ v ∈ l, v ∈ l' ∨ v ∈ met := by
  induction l generalizing met with
  | nil =>
    exact ⟨[], .nil, List.nodup_nil, fun v hv => absurd hv List.not_mem_nil,
      fun v hv => absurd hv List.not_mem_nil⟩
  | cons u l ih =>
    by_cases hu : u ∈ met
    · obtain ⟨l', hthin, hnodup, hsub, hcover⟩ := ih met
      refine ⟨l', .skip hu hthin, hnodup, fun v hv => ⟨List.mem_cons_of_mem u (hsub v hv).1, (hsub v hv).2⟩,
        fun v hv => ?_⟩
      rcases List.mem_cons.mp hv with rfl | hv
      · exact Or.inr hu
      · exact hcover v hv
    · obtain ⟨l', hthin, hnodup, hsub, hcover⟩ := ih (u :: met)
      refine ⟨u :: l', .keep hthin, List.nodup_cons.mpr ⟨fun hv => (hsub u hv).2 List.mem_cons_self, hnodup⟩,
        fun v hv => ?_, fun v hv => ?_⟩
      · rcases List.mem_cons.mp hv with rfl | hv
        · exact ⟨List.mem_cons_self, hu⟩
        · exact ⟨List.mem_cons_of_mem u (hsub v hv).1, fun hm => (hsub v hv).2 (List.mem_cons_of_mem u hm)⟩
      · rcases List.mem_cons.mp hv with rfl | hv
        · exact Or.inl List.mem_cons_self
        · rcases hcover v hv with hv | hv
          · exact Or.inl (List.mem_cons_of_mem u hv)
          · rcases List.mem_cons.mp hv with rfl | hv
            · exact Or.inl List.mem_cons_self
            · exact Or.inr hv

theorem foldl_visit_of_has {nbs : List ι} (hall : ∀ v ∈ nbs, s.hops.has v = true) :
    nbs.foldl (visit cur) s = s := by
  induction nbs with
  | nil => rfl
  | cons nb nbs ih =>
    rw [List.foldl_cons, visit, if_pos (hall nb List.mem_cons_self)]
    exact ih fun v hv => hall v (List.mem_cons_of_mem nb hv)

/-- What a visit adds depends on what is found so far, not on the queue. -/
theorem foldl_visit_same {s' : Search ι} (hhops : s.hops = s'.hops) (nbs : List ι) :
    (nbs.foldl (visit cur) s).hops = (nbs.foldl (visit cur) s').hops ∧
      (∃ new, (nbs.foldl (visit cur) s).queue = s.queue ++ new ∧
        (nbs.foldl (visit cur) s').queue = s'.queue ++ new) ∧
      (∀ v, s.hops.has v = true → (nbs.foldl (visit cur) s).hops.has v = true) ∧
      ∀ v ∈ nbs, (nbs.foldl (visit cur) s).hops.has v = true := by
  induction nbs generalizing s s' with
  | nil =>
    exact ⟨hhops, ⟨[], (List.append_nil _).symm, (List.append_nil _).symm⟩, fun v hv => hv,
      fun v hv => absurd hv List.not_mem_nil⟩
  | cons nb nbs ih =>
    rw [List.foldl_cons, List.foldl_cons]
    have hone : (visit cur s nb).hops = (visit cur s' nb).hops ∧
        (∃ new, (visit cur s nb).queue = s.queue ++ new ∧ (visit cur s' nb).queue = s'.queue ++ new) ∧
        (∀ v, s.hops.has v = true → (visit cur s nb).hops.has v = true) ∧
        (visit cur s nb).hops.has nb = true := by
      rw [visit, visit, ← hhops]
      split_ifs with hhas
      · exact ⟨hhops, ⟨[], (List.append_nil _).symm, (List.append_nil _).symm⟩, fun v hv => hv, hhas⟩
      · refine ⟨rfl, ⟨[nb], rfl, rfl⟩, fun v hv => OrderedMap.has_set_of_has hv, ?_⟩
        rw [OrderedMap.has, OrderedMap.get?_set_self]
        rfl
    obtain ⟨hsame, ⟨new, hnew, hnew'⟩, hkeep, hnb⟩ := hone
    obtain ⟨hrest, ⟨more, hmore, hmore'⟩, hkeep', hall⟩ := ih hsame
    refine ⟨hrest, ⟨new ++ more, ?_, ?_⟩, fun v hv => hkeep' v (hkeep v hv), fun v hv => ?_⟩
    · rw [hmore, hnew, List.append_assoc]
    · rw [hmore', hnew', List.append_assoc]
    · rcases List.mem_cons.mp hv with rfl | hv
      · exact hkeep' v hnb
      · exact hall v hv

omit [DecidableEq ι] in
theorem getElem?_of_drop {l rest : List ι} {h : ℕ} {u : ι} (hdrop : l.drop h = u :: rest) :
    l[h]? = some u ∧ l.drop (h + 1) = rest ∧ h < l.length := by
  have hget : l[h]? = some u := by
    rw [← List.head?_drop, hdrop]
    rfl
  refine ⟨hget, ?_, (List.getElem?_eq_some_iff.mp hget).1⟩
  rw [← List.tail_drop, hdrop]
  rfl

/-- To expand a vertex again changes nothing. -/
theorem loop_thinned {fuel fuel' h h' : ℕ} {s s' : Search ι} {met : List ι} (hhops : s.hops = s'.hops)
    (hrest : Thinned met (s.queue.drop h) (s'.queue.drop h'))
    (hmet : ∀ u ∈ met, ∀ v ∈ adj u, s.hops.has v = true)
    (hfuel : (s.queue.drop h).length + fuel' ≤ (s'.queue.drop h').length + fuel)
    (hend : (loop adj fuel' h' s').queue.length ≤ h' + fuel') :
    (loop adj fuel h s).hops = (loop adj fuel' h' s').hops := by
  have hstop : ∀ {fuel h : ℕ} {s : Search ι}, s.queue.drop h = [] → loop adj fuel h s = s := by
    intro fuel h s hempty
    cases fuel with
    | zero => rfl
    | succ fuel => rw [loop, List.getElem?_eq_none (List.drop_eq_nil_iff.mp hempty)]
  induction fuel generalizing fuel' h h' s s' met with
  | zero =>
    have hlength := hrest.length_le
    obtain rfl : fuel' = 0 := by omega
    exact hhops
  | succ fuel ih =>
    generalize hq : s.queue.drop h = q at hrest hfuel
    generalize hq' : s'.queue.drop h' = q' at hrest hfuel
    cases hrest with
    | nil => rw [hstop hq, hstop hq', hhops]
    | @keep _ rest rest' u hrest =>
      obtain ⟨hget, hdrop, hlt⟩ := getElem?_of_drop hq
      obtain ⟨hget', hdrop', hlt'⟩ := getElem?_of_drop hq'
      cases fuel' with
      | zero =>
        change s'.queue.length ≤ h' + 0 at hend
        omega
      | succ fuel' =>
        rw [loop, hget'] at hend
        rw [loop, hget, loop, hget']
        dsimp only at hend ⊢
        obtain ⟨hsame, ⟨new, hnew, hnew'⟩, hkeep, hall⟩ := foldl_visit_same hhops (adj u)
        have hgrown : ((adj u).foldl (visit u) s).queue.drop (h + 1) = rest ++ new := by
          rw [hnew, List.drop_append_of_le_length hlt, hdrop]
        have hgrown' : ((adj u).foldl (visit u) s').queue.drop (h' + 1) = rest' ++ new := by
          rw [hnew', List.drop_append_of_le_length hlt', hdrop']
        have hmetNew : ∀ w ∈ u :: met, ∀ v ∈ adj w, ((adj u).foldl (visit u) s).hops.has v = true := by
          intro w hw v hv
          rcases List.mem_cons.mp hw with rfl | hw
          · exact hall v hv
          · exact hkeep v (hmet w hw v hv)
        refine ih hsame ?_ hmetNew ?_ ?_
        · rw [hgrown, hgrown']
          exact hrest.append new
        · rw [hgrown, hgrown', List.length_append, List.length_append]
          rw [List.length_cons, List.length_cons] at hfuel
          omega
        · omega
    | skip hu hrest =>
      obtain ⟨hget, hdrop, hlt⟩ := getElem?_of_drop hq
      rw [loop, hget]
      dsimp only
      rw [foldl_visit_of_has (hmet _ hu)]
      refine ih hhops ?_ hmet ?_ hend
      · rw [hdrop, hq']
        exact hrest
      · rw [hdrop, hq']
        rw [List.length_cons] at hfuel
        omega

theorem start_queue (sources : List ι) : (start sources).queue = sources := by
  have hstart : ∀ (l : List ι) (s : Search ι), (l.foldl enter s).queue = s.queue ++ l := by
    intro l
    induction l with
    | nil => exact fun s => (List.append_nil _).symm
    | cons r l ih =>
      intro s
      rw [List.foldl_cons, ih, enter, List.append_assoc]
      rfl
  exact (hstart sources ⟨.empty, []⟩).trans (List.nil_append sources)

/-- A source that is entered again changes no distance. -/
theorem Thinned.start {met l l' : List ι} (h : Thinned met l l') :
    ∀ s s' : Search ι, s.hops = s'.hops → (∀ u ∈ met, s.hops.get? u = some 0) →
      (l.foldl enter s).hops = (l'.foldl enter s').hops := by
  induction h with
  | nil => exact fun s s' hhops _ => hhops
  | @keep met rest rest' u _ ih =>
    intro s s' hhops hmet
    rw [List.foldl_cons, List.foldl_cons]
    refine ih (s.enter u) (s'.enter u) (congrArg (fun hops => hops.set u 0) hhops) fun v hv => ?_
    rw [enter, OrderedMap.get?_set]
    split_ifs with hvu
    · rfl
    · exact hmet v ((List.mem_cons.mp hv).resolve_left hvu)
  | @skip met rest rest' u hu _ ih =>
    intro s s' hhops hmet
    rw [List.foldl_cons]
    have hsame : (s.enter u).hops = s.hops := OrderedMap.set_of_get? (hmet u hu)
    exact ih (s.enter u) s' (hsame.trans hhops) fun v hv => hsame ▸ hmet v hv

omit [DecidableEq ι] in
theorem Path.of_sources {sources' : List ι} (hsub : ∀ v ∈ sources, v ∈ sources') {n : ℕ} {v : ι}
    (h : Path adj sources n v) : Path adj sources' n v := by
  induction h with
  | source hv => exact .source (hsub _ hv)
  | step _ hadj ih => exact .step ih hadj

/-- The same for sources that may be given more than once: each of them takes a step of the loop. -/
theorem get?_loop_roots_iff {universe' : List ι} (hall : ∀ n v, Path adj sources n v → v ∈ universe')
    {fuel : ℕ} (hfuel : universe'.length + sources.length ≤ fuel) (v : ι) (d : ℕ) :
    (loop adj fuel 0 (start sources)).hops.get? v = some d ↔
      Path adj sources d v ∧ ∀ m, Path adj sources m v → d ≤ m := by
  obtain ⟨l', hthin, hnodup, hsub, hcover⟩ := exists_thinned [] sources
  have hto : ∀ n w, Path adj l' n w → Path adj sources n w := fun n w =>
    Path.of_sources fun u hu => (hsub u hu).1
  have hfrom : ∀ n w, Path adj sources n w → Path adj l' n w := fun n w =>
    Path.of_sources fun u hu => (hcover u hu).resolve_right List.not_mem_nil
  have hall' : ∀ n w, Path adj l' n w → w ∈ universe' := fun n w hw => hall n w (hto n w hw)
  have hsame : (loop adj fuel 0 (start sources)).hops = (loop adj universe'.length 0 (start l')).hops := by
    refine loop_thinned (hthin.start _ _ rfl fun u hu => absurd hu List.not_mem_nil) ?_
      (fun u hu => absurd hu List.not_mem_nil) ?_ ?_
    · rw [start_queue, start_queue, List.drop_zero, List.drop_zero]
      exact hthin
    · rw [start_queue, start_queue, List.drop_zero, List.drop_zero]
      omega
    · obtain ⟨hstart, -, hzero⟩ := layered_start adj hnodup
      have hexp : (start l').Expanded adj 0 := ⟨fun i hi => absurd hi (Nat.not_lt_zero i),
        fun u d _ _ e he => (hzero e he).trans_le (Nat.zero_le _)⟩
      obtain ⟨hlayered, -, -⟩ := hstart.loop hall' hexp (Nat.zero_add universe'.length).ge
      have hkeys := (loop adj universe'.length 0 (start l')).hops.nodup_keys
      rw [hlayered.keys_eq] at hkeys
      refine ((List.subperm_of_subset hkeys fun w hw => ?_).length_le).trans (Nat.zero_add _).ge
      rw [← hlayered.keys_eq] at hw
      obtain ⟨e, he⟩ := OrderedMap.mem_keys.mp hw
      exact hall' e w (hlayered.sound w e (OrderedMap.get?_eq_some.mpr he))
  rw [hsame, get?_loop_iff hnodup hall' le_rfl]
  exact and_congr ⟨hto d v, hfrom d v⟩ (forall_congr' fun m => ⟨fun h hm => h (hfrom m v hm), fun h hm => h (hto m v hm)⟩)

end Search
end Foundations
