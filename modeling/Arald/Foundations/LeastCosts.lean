import Arald.Foundations.OrderedMap

/-!
# Least costs from several sources

Distances in a map, a nearest vertex that is not done by a linear scan, and its edges relaxed, until
every vertex is done. With costs that are not negative the distance of a vertex that is done is the
cost of a cheapest path. Along a least cost there is always a neighbour that the rest of the path
goes through.
-/

namespace Foundations
namespace LeastCosts

variable {ι ε κ : Type*}

/-- `v` is at the end of a path of cost `c` from a source. -/
inductive Path [Zero κ] [Add κ] (adj : ι → List (ι × ε)) (cost : ε → κ) (sources : List ι) : κ → ι → Prop
  | source {v : ι} : v ∈ sources → Path adj cost sources 0 v
  | step {c : κ} {u v : ι} {e : ε} :
      Path adj cost sources c u → (v, e) ∈ adj u → Path adj cost sources (c + cost e) v

section
variable [DecidableEq ι] [LinearOrder κ]

/-- The nearer of the vertices that are not done, the first of them at a tie. -/
def nearer (done : List ι) (cur : Option (ι × κ)) (e : ι × κ) : Option (ι × κ) :=
  if e.1 ∈ done then cur
  else
    match cur with
    | none => some e
    | some best => if e.2 < best.2 then some e else cur

def nearest (dist : OrderedMap ι κ) (done : List ι) : Option ι :=
  (dist.entries.foldl (nearer done) none).map Prod.fst

variable [AddCommMonoid κ]

def relax (cost : ε → κ) (cur : ι) (dist : OrderedMap ι κ) (edge : ι × ε) : OrderedMap ι κ :=
  let nd := (dist.get? cur).getD 0 + cost edge.2
  match dist.get? edge.1 with
  | some d => if nd < d then dist.set edge.1 nd else dist
  | none => dist.set edge.1 nd

def loop (adj : ι → List (ι × ε)) (cost : ε → κ) : ℕ → OrderedMap ι κ → List ι → OrderedMap ι κ
  | 0, dist, _ => dist
  | fuel + 1, dist, done =>
    match nearest dist done with
    | none => dist
    | some cur => loop adj cost fuel ((adj cur).foldl (relax cost cur) dist) (cur :: done)

def start (sources : List ι) : OrderedMap ι κ := sources.foldl (fun dist r => dist.set r 0) .empty

end

/-! ### The nearest vertex -/

section
variable [DecidableEq ι] [LinearOrder κ] {dist : OrderedMap ι κ} {done : List ι} {cur v : ι} {d : κ}

/-- What a scan of entries leaves. -/
structure Scanned (done : List ι) (l : List (ι × κ)) (cur : Option (ι × κ)) : Prop where
  allDone : cur = none → ∀ e ∈ l, e.1 ∈ done
  isNearest : ∀ best, cur = some best → best ∈ l ∧ best.1 ∉ done ∧ ∀ e ∈ l, e.1 ∉ done → best.2 ≤ e.2

theorem Scanned.nearer {l : List (ι × κ)} {cur : Option (ι × κ)} (h : Scanned done l cur) (a : ι × κ) :
    Scanned done (l ++ [a]) (nearer done cur a) := by
  have hkeep : ∀ best, cur = some best → (a.1 ∉ done → best.2 ≤ a.2) →
      best ∈ l ++ [a] ∧ best.1 ∉ done ∧ ∀ e ∈ l ++ [a], e.1 ∉ done → best.2 ≤ e.2 := by
    intro best hbest hle
    obtain ⟨hmem, hnot, hmin⟩ := h.isNearest best hbest
    refine ⟨List.mem_append_left _ hmem, hnot, fun e he hout => ?_⟩
    rcases List.mem_append.mp he with he | he
    · exact hmin e he hout
    · obtain rfl := List.mem_singleton.mp he
      exact hle hout
  have htake : a.1 ∉ done → (∀ e ∈ l, e.1 ∉ done → a.2 ≤ e.2) →
      a ∈ l ++ [a] ∧ a.1 ∉ done ∧ ∀ e ∈ l ++ [a], e.1 ∉ done → a.2 ≤ e.2 := by
    intro hnot hmin
    refine ⟨List.mem_append_right _ (List.mem_singleton.mpr rfl), hnot, fun e he hout => ?_⟩
    rcases List.mem_append.mp he with he | he
    · exact hmin e he hout
    · rw [List.mem_singleton.mp he]
  unfold LeastCosts.nearer
  split_ifs with hdone
  · refine ⟨fun hnone e he => ?_, fun best hbest => hkeep best hbest fun hnot => absurd hdone hnot⟩
    rcases List.mem_append.mp he with he | he
    · exact h.allDone hnone e he
    · rw [List.mem_singleton.mp he]
      exact hdone
  · cases hcur : cur with
    | none =>
      refine ⟨fun hsome => absurd hsome (Option.some_ne_none a), fun best hbest => ?_⟩
      obtain rfl := Option.some.inj hbest
      exact htake hdone fun e he hout => absurd (h.allDone hcur e he) hout
    | some best =>
      dsimp only
      split_ifs with hlt
      · refine ⟨fun hsome => absurd hsome (Option.some_ne_none a), fun best' hbest => ?_⟩
        obtain rfl := Option.some.inj hbest
        exact htake hdone fun e he hout => hlt.le.trans ((h.isNearest best hcur).2.2 e he hout)
      · refine ⟨fun hnone => absurd hnone (Option.some_ne_none best), fun best' hbest => ?_⟩
        obtain rfl := Option.some.inj hbest
        exact hkeep best hcur fun _ => not_lt.mp hlt

theorem scanned_foldl (done : List ι) (l : List (ι × κ)) : Scanned done l (l.foldl (nearer done) none) := by
  induction l using List.reverseRecOn with
  | nil =>
    refine ⟨fun _ e he => absurd he List.not_mem_nil, fun best hbest => ?_⟩
    cases hbest
  | append_singleton l a ih =>
    rw [List.foldl_append]
    exact ih.nearer a

theorem nearest_eq_none (h : nearest dist done = none) (hv : dist.get? v = some d) : v ∈ done :=
  (scanned_foldl done dist.entries).allDone (Option.map_eq_none_iff.mp h) _ (OrderedMap.get?_eq_some.mp hv)

theorem nearest_eq_some (h : nearest dist done = some cur) :
    cur ∉ done ∧ ∃ dcur, dist.get? cur = some dcur ∧
      ∀ v d, dist.get? v = some d → v ∉ done → dcur ≤ d := by
  obtain ⟨best, hbest, rfl⟩ := Option.map_eq_some_iff.mp h
  obtain ⟨hmem, hnot, hmin⟩ := (scanned_foldl done dist.entries).isNearest best hbest
  exact ⟨hnot, best.2, OrderedMap.get?_eq_some.mpr hmem, fun v d hv hout =>
    hmin _ (OrderedMap.get?_eq_some.mp hv) hout⟩

end

/-! ### Edges -/

section
variable [DecidableEq ι] [LinearOrder κ] {dist dist' dist'' : OrderedMap ι κ} {dcur : κ}

/-- Edges of a vertex at distance `dcur` have been relaxed: no distance grows, and none below `dcur`
changes. -/
structure Relaxed (dcur : κ) (dist dist' : OrderedMap ι κ) : Prop where
  le : ∀ v d, dist.get? v = some d → ∃ d' ≤ d, dist'.get? v = some d'
  keep : ∀ v d, dist.get? v = some d → d ≤ dcur → dist'.get? v = some d
  new : ∀ v d', dist'.get? v = some d' → dist.get? v = some d' ∨ dcur ≤ d'

theorem Relaxed.refl (dcur : κ) (dist : OrderedMap ι κ) : Relaxed dcur dist dist :=
  ⟨fun _ d h => ⟨d, le_rfl, h⟩, fun _ _ h _ => h, fun _ _ h => Or.inl h⟩

theorem Relaxed.trans (h : Relaxed dcur dist dist')
    (h' : Relaxed dcur dist' dist'') : Relaxed dcur dist dist'' := by
  refine ⟨fun v d hv => ?_, fun v d hv hle => h'.keep v d (h.keep v d hv hle) hle, fun v d hv => ?_⟩
  · obtain ⟨e, hle, he⟩ := h.le v d hv
    obtain ⟨f, hle', hf⟩ := h'.le v e he
    exact ⟨f, hle'.trans hle, hf⟩
  · rcases h'.new v d hv with hold | hnew
    · exact h.new v d hold
    · exact Or.inr hnew

end

section
variable [DecidableEq ι] [AddCommMonoid κ] [LinearOrder κ] [IsOrderedAddMonoid κ] {adj : ι → List (ι × ε)} {cost : ε → κ}
  {sources : List ι} {dist : OrderedMap ι κ} {done : List ι} {cur v : ι} {d dcur : κ}

/-- Every distance is that of a path; a vertex that is done is not farther than the others, and its
edges are relaxed. -/
structure Labelled (adj : ι → List (ι × ε)) (cost : ε → κ) (sources : List ι) (dist : OrderedMap ι κ)
    (done : List ι) : Prop where
  sound : ∀ v d, dist.get? v = some d → Path adj cost sources d v
  source : ∀ v ∈ sources, ∃ d ≤ 0, dist.get? v = some d
  nodup : done.Nodup
  found : ∀ v ∈ done, ∃ d, dist.get? v = some d
  near : ∀ v ∈ done, ∀ u ∉ done, ∀ d d', dist.get? v = some d → dist.get? u = some d' → d ≤ d'
  closed : ∀ v ∈ done, ∀ d, dist.get? v = some d → ∀ e ∈ adj v, ∃ d' ≤ d + cost e.2, dist.get? e.1 = some d'

/-- One edge. -/
theorem relaxed_relax (hcur : dist.get? cur = some dcur) {e : ι × ε} (hcost : 0 ≤ cost e.2) :
    Relaxed dcur dist (relax cost cur dist e) ∧
      (∃ d ≤ dcur + cost e.2, (relax cost cur dist e).get? e.1 = some d) ∧
      ∀ v d, (relax cost cur dist e).get? v = some d → dist.get? v = some d ∨ v = e.1 ∧ d = dcur + cost e.2 := by
  have hle : dcur ≤ dcur + cost e.2 := le_add_of_nonneg_right hcost
  have hset : (∀ d, dist.get? e.1 = some d → dcur + cost e.2 < d) →
      Relaxed dcur dist (dist.set e.1 (dcur + cost e.2)) ∧
        (∃ d ≤ dcur + cost e.2, (dist.set e.1 (dcur + cost e.2)).get? e.1 = some d) ∧
        ∀ v d, (dist.set e.1 (dcur + cost e.2)).get? v = some d →
          dist.get? v = some d ∨ v = e.1 ∧ d = dcur + cost e.2 := by
    intro hfar
    refine ⟨⟨fun v d hv => ?_, fun v d hv hnear => ?_, fun v d hv => ?_⟩,
      ⟨_, le_rfl, OrderedMap.get?_set_self _ _ _⟩, fun v d hv => ?_⟩
    · rw [OrderedMap.get?_set]
      split_ifs with hve
      · exact ⟨_, (hfar d (hve ▸ hv)).le, rfl⟩
      · exact ⟨d, le_rfl, hv⟩
    · rw [OrderedMap.get?_set]
      split_ifs with hve
      · exact absurd (hfar d (hve ▸ hv)) (hnear.trans hle).not_gt
      · exact hv
    · rw [OrderedMap.get?_set] at hv
      split_ifs at hv
      · exact Or.inr (Option.some.inj hv ▸ hle)
      · exact Or.inl hv
    · rw [OrderedMap.get?_set] at hv
      split_ifs at hv with hve
      · exact Or.inr ⟨hve, (Option.some.inj hv).symm⟩
      · exact Or.inl hv
  unfold relax
  rw [hcur, Option.getD_some]
  dsimp only
  cases hold : dist.get? e.1 with
  | none =>
    refine hset fun d hd => ?_
    rw [hold] at hd
    cases hd
  | some d =>
    dsimp only
    split_ifs with hlt
    · refine hset fun d' hd' => ?_
      rw [hold] at hd'
      exact Option.some.inj hd' ▸ hlt
    · exact ⟨.refl dcur dist, ⟨d, not_lt.mp hlt, hold⟩, fun v d hv => Or.inl hv⟩

/-- All edges of a vertex. -/
theorem relaxed_foldl {edges : List (ι × ε)} (hcur : dist.get? cur = some dcur)
    (hcost : ∀ e ∈ edges, 0 ≤ cost e.2) :
    Relaxed dcur dist (edges.foldl (relax cost cur) dist) ∧
      (∀ e ∈ edges, ∃ d ≤ dcur + cost e.2, (edges.foldl (relax cost cur) dist).get? e.1 = some d) ∧
      ∀ v d, (edges.foldl (relax cost cur) dist).get? v = some d →
        dist.get? v = some d ∨ ∃ e ∈ edges, v = e.1 ∧ d = dcur + cost e.2 := by
  induction edges generalizing dist with
  | nil => exact ⟨.refl dcur dist, fun e he => absurd he List.not_mem_nil, fun v d hv => Or.inl hv⟩
  | cons e edges ih =>
    rw [List.foldl_cons]
    obtain ⟨hone, ⟨d, hd, hget⟩, honly⟩ := relaxed_relax hcur (hcost e List.mem_cons_self)
    obtain ⟨hrest, hfound, hfrom⟩ := ih (hone.keep cur dcur hcur le_rfl)
      fun e' he' => hcost e' (List.mem_cons_of_mem e he')
    refine ⟨hone.trans hrest, fun e' he' => ?_, fun v d' hv => ?_⟩
    · rcases List.mem_cons.mp he' with rfl | he'
      · obtain ⟨d', hle, hget'⟩ := hrest.le e'.1 d hget
        exact ⟨d', hle.trans hd, hget'⟩
      · exact hfound e' he'
    · rcases hfrom v d' hv with hv | ⟨e', he', hsame⟩
      · rcases honly v d' hv with hv | hsame
        · exact Or.inl hv
        · exact Or.inr ⟨e, List.mem_cons_self, hsame⟩
      · exact Or.inr ⟨e', List.mem_cons_of_mem e he', hsame⟩

/-- A nearest vertex is done. -/
theorem Labelled.expand (h : Labelled adj cost sources dist done) (hcost : ∀ u, ∀ e ∈ adj u, 0 ≤ cost e.2)
    (hcur : nearest dist done = some cur) :
    Labelled adj cost sources ((adj cur).foldl (relax cost cur) dist) (cur :: done) := by
  obtain ⟨hnot, dcur, hget, hmin⟩ := nearest_eq_some hcur
  obtain ⟨hrelaxed, hfound, hfrom⟩ := relaxed_foldl hget (hcost cur)
  have hdone : ∀ v ∈ cur :: done, ∀ d, dist.get? v = some d → d ≤ dcur := by
    intro v hv d hd
    rcases List.mem_cons.mp hv with rfl | hv
    · rw [hget] at hd
      exact (Option.some.inj hd).ge
    · exact h.near v hv cur hnot d dcur hd hget
  have hback : ∀ v ∈ cur :: done, ∀ d, ((adj cur).foldl (relax cost cur) dist).get? v = some d →
      dist.get? v = some d := by
    intro v hv d hd
    have hold : ∃ d', dist.get? v = some d' := by
      rcases List.mem_cons.mp hv with rfl | hv
      · exact ⟨dcur, hget⟩
      · exact h.found v hv
    obtain ⟨d', hd'⟩ := hold
    have hkeep := hrelaxed.keep v d' hd' (hdone v hv d' hd')
    rw [hd] at hkeep
    exact Option.some.inj hkeep ▸ hd'
  refine ⟨fun v d hv => ?_, fun v hv => ?_, List.nodup_cons.mpr ⟨hnot, h.nodup⟩, fun v hv => ?_,
    fun v hv u hu d d' hd hd' => ?_, fun v hv d hd e he => ?_⟩
  · rcases hfrom v d hv with hold | ⟨e, he, rfl, rfl⟩
    · exact h.sound v d hold
    · exact .step (h.sound cur dcur hget) he
  · obtain ⟨d, hle, hd⟩ := h.source v hv
    obtain ⟨d', hle', hd'⟩ := hrelaxed.le v d hd
    exact ⟨d', hle'.trans hle, hd'⟩
  · have hold : ∃ d', dist.get? v = some d' := by
      rcases List.mem_cons.mp hv with rfl | hv
      · exact ⟨dcur, hget⟩
      · exact h.found v hv
    obtain ⟨d', hd'⟩ := hold
    exact ⟨d', hrelaxed.keep v d' hd' (hdone v hv d' hd')⟩
  · have hle := hdone v hv d (hback v hv d hd)
    rcases hrelaxed.new u d' hd' with hold | hnew
    · exact hle.trans (hmin u d' hold fun hmem => hu (List.mem_cons_of_mem cur hmem))
    · exact hle.trans hnew
  · rcases List.mem_cons.mp hv with rfl | hv'
    · have hd' := hback v hv d hd
      rw [hget] at hd'
      obtain ⟨d', hle, hget'⟩ := hfound e he
      exact ⟨d', Option.some.inj hd' ▸ hle, hget'⟩
    · obtain ⟨d', hle, hd'⟩ := h.closed v hv' d (hback v hv d hd) e he
      obtain ⟨d'', hle', hd''⟩ := hrelaxed.le e.1 d' hd'
      exact ⟨d'', hle'.trans hle, hd''⟩

/-- The distances are costs of paths, and no path is cheaper. -/
structure Answers (adj : ι → List (ι × ε)) (cost : ε → κ) (sources : List ι) (dist : OrderedMap ι κ) :
    Prop where
  sound : ∀ v d, dist.get? v = some d → Path adj cost sources d v
  short : ∀ c v, Path adj cost sources c v → ∃ d ≤ c, dist.get? v = some d

omit [IsOrderedAddMonoid κ] in
theorem Answers.get?_iff (h : Answers adj cost sources dist) :
    dist.get? v = some d ↔ IsLeast {c | Path adj cost sources c v} d := by
  constructor
  · intro hv
    refine ⟨h.sound v d hv, fun c hc => ?_⟩
    obtain ⟨d', hle, hd'⟩ := h.short c v hc
    rw [hv] at hd'
    exact (Option.some.inj hd').trans_le hle
  · rintro ⟨hpath, hmin⟩
    obtain ⟨d', hle, hd'⟩ := h.short d v hpath
    rw [hd', le_antisymm hle (hmin (h.sound v d' hd'))]

omit [IsOrderedAddMonoid κ] in
/-- Where there is a path there is a cheapest one. -/
theorem Answers.exists_isLeast (h : Answers adj cost sources dist)
    (hv : {c | Path adj cost sources c v}.Nonempty) : ∃ d, IsLeast {c | Path adj cost sources c v} d := by
  obtain ⟨c, hc⟩ := hv
  obtain ⟨d, -, hd⟩ := h.short c v hc
  exact ⟨d, h.get?_iff.mp hd⟩

/-- Once every vertex found is done, the distances are the least costs. -/
theorem Labelled.answers (h : Labelled adj cost sources dist done)
    (hall : ∀ v d, dist.get? v = some d → v ∈ done) : Answers adj cost sources dist := by
  refine ⟨h.sound, fun c w hpath => ?_⟩
  induction hpath with
  | source hw => exact h.source _ hw
  | step _ hadj ih =>
    obtain ⟨d, hle, hd⟩ := ih
    obtain ⟨d', hle', hd'⟩ := h.closed _ (hall _ d hd) d hd _ hadj
    exact ⟨d', hle'.trans (add_le_add_left hle _), hd'⟩

/-- With fuel for every vertex, the loop gets all of them done. -/
theorem Labelled.loop {universe' : List ι} (hall : ∀ c v, Path adj cost sources c v → v ∈ universe')
    (hcost : ∀ u, ∀ e ∈ adj u, 0 ≤ cost e.2) {fuel : ℕ} (h : Labelled adj cost sources dist done)
    (hfuel : universe'.length ≤ done.length + fuel) :
    Answers adj cost sources (LeastCosts.loop adj cost fuel dist done) := by
  induction fuel generalizing dist done with
  | zero =>
    refine h.answers fun w e hw => ?_
    by_contra hnot
    have hnodup : (w :: done).Nodup := List.nodup_cons.mpr ⟨hnot, h.nodup⟩
    have hsub : w :: done ⊆ universe' := by
      intro u hu
      rcases List.mem_cons.mp hu with rfl | hu
      · exact hall e u (h.sound u e hw)
      · obtain ⟨f, hf⟩ := h.found u hu
        exact hall f u (h.sound u f hf)
    have hlength := (List.subperm_of_subset hnodup hsub).length_le
    rw [List.length_cons] at hlength
    omega
  | succ fuel ih =>
    rw [LeastCosts.loop]
    cases hcur : nearest dist done with
    | none => exact h.answers fun w e hw => nearest_eq_none hcur hw
    | some cur =>
      refine ih (h.expand hcost hcur) ?_
      rw [List.length_cons]
      omega

omit [IsOrderedAddMonoid κ] in
theorem labelled_start (adj : ι → List (ι × ε)) (cost : ε → κ) (sources : List ι) :
    Labelled adj cost sources (start sources) [] := by
  have hstart : ∀ (l : List ι) (dist : OrderedMap ι κ) (v : ι),
      (l.foldl (fun dist r => dist.set r 0) dist).get? v = if v ∈ l then some 0 else dist.get? v := by
    intro l
    induction l with
    | nil => exact fun dist v => (if_neg List.not_mem_nil).symm
    | cons r l ih =>
      intro dist v
      rw [List.foldl_cons, ih, OrderedMap.get?_set]
      by_cases hl : v ∈ l
      · rw [if_pos hl, if_pos (List.mem_cons_of_mem r hl)]
      · rw [if_neg hl]
        exact if_congr (by rw [List.mem_cons, or_iff_left hl]) rfl rfl
  have hget : ∀ v, (start sources : OrderedMap ι κ).get? v = if v ∈ sources then some 0 else none := by
    intro v
    exact hstart sources .empty v
  refine ⟨fun v d hv => ?_, fun v hv => ⟨0, le_rfl, ?_⟩, List.nodup_nil, fun v hv => absurd hv List.not_mem_nil,
    fun v hv => absurd hv List.not_mem_nil, fun v hv => absurd hv List.not_mem_nil⟩
  · rw [hget] at hv
    split_ifs at hv with hmem
    rw [← Option.some.inj hv]
    exact .source hmem
  · rw [hget, if_pos hv]

/-- The distances from the sources are the least costs of paths. -/
theorem answers_loop {universe' : List ι} (hall : ∀ c v, Path adj cost sources c v → v ∈ universe')
    (hcost : ∀ u, ∀ e ∈ adj u, 0 ≤ cost e.2) {fuel : ℕ} (hfuel : universe'.length ≤ fuel) :
    Answers adj cost sources (loop adj cost fuel (start sources) []) :=
  (labelled_start adj cost sources).loop hall hcost (hfuel.trans (Nat.le_add_left _ _))

end

/-! ### Next hops -/

section
variable [AddCommMonoid κ] [LinearOrder κ] {adj : ι → List (ι × ε)} {cost : ε → κ}
  {sources : List ι} {v : ι} {d d' : κ} {e : ι × ε}

/-- Edges go both ways. -/
def Symmetric (adj : ι → List (ι × ε)) : Prop := ∀ u v e, (v, e) ∈ adj u → (u, e) ∈ adj v

/-- No neighbour offers a shortcut. -/
theorem le_through (hsymm : Symmetric adj) (h : IsLeast {c | Path adj cost sources c v} d) (he : e ∈ adj v)
    (h' : IsLeast {c | Path adj cost sources c e.1} d') : d ≤ d' + cost e.2 :=
  h.2 (Path.step h'.1 (hsymm v e.1 e.2 he))

variable [IsOrderedCancelAddMonoid κ]

theorem Path.nonneg (hcost : ∀ u, ∀ e ∈ adj u, 0 ≤ cost e.2) (h : Path adj cost sources d v) : 0 ≤ d := by
  induction h with
  | source _ => exact le_rfl
  | step _ hadj ih => exact add_nonneg ih (hcost _ _ hadj)

/-- Some neighbour is on a cheapest path. -/
theorem exists_next (hsymm : Symmetric adj) (h : IsLeast {c | Path adj cost sources c v} d)
    (hv : v ∉ sources) :
    ∃ e ∈ adj v, ∃ d', IsLeast {c | Path adj cost sources c e.1} d' ∧ d' + cost e.2 = d := by
  obtain ⟨hpath, hmin⟩ := h
  cases hpath with
  | source hmem => exact absurd hmem hv
  | @step c u _ e hu hadj =>
    refine ⟨(u, e), hsymm u v e hadj, c, ⟨hu, fun c' hc' => ?_⟩, rfl⟩
    exact le_of_add_le_add_right (hmin (Path.step hc' hadj))

end

end LeastCosts
end Foundations
