import Mathlib

/-!
# Flooding with duplicate suppression on a graph

A message spreads from a source with a budget of hops. Every vertex passes on
the first copy it gets, as long as that copy has hops left, and ignores all
others. Which copy comes first is up to the links, so a vertex may get a copy
that has spent its budget on a detour, and what lies behind it is not reached.

Two conditions exclude this: no copy overtakes another on a longer way, or the
budget is large enough for any way through the graph.
-/

namespace Foundations

variable {V : Type*} {G : SimpleGraph V} {s : V} {T : ℕ} {took : V → ℕ → Prop}

/-- A flood with a budget of `T` hops that has come to its end. `took v j` says
that the first copy of `v` had made `j` hops before the last one. -/
structure FinishedFlood (G : SimpleGraph V) (s : V) (T : ℕ) (took : V → ℕ → Prop) : Prop where
  source : ∀ v, G.Adj s v → ∃ j, took v j
  spreads : ∀ u j v, took u j → j < T → G.Adj u v → v ≠ s → ∃ i, took v i

namespace FinishedFlood

variable (h : FinishedFlood G s T took)
include h

/-- When first copies come on shortest ways, the flood gets as far as its budget. -/
theorem took_of_shortest (hshortest : ∀ v j, took v j → ((j + 1 : ℕ) : ℕ∞) ≤ G.edist s v) {v : V}
    (hv : v ≠ s) (hdist : G.edist s v ≤ ((T + 1 : ℕ) : ℕ∞)) : ∃ j, took v j := by
  have hwalk : ∀ {a v : V} (p : G.Walk a v), a = s → v ≠ s → p.length ≤ T + 1 →
      ∃ j, took v j := by
    intro a v p
    induction p using SimpleGraph.Walk.concatRec with
    | Hnil => exact fun ha hv _ => absurd ha hv
    | @Hconcat a u v p hadj ih =>
      intro ha hv hlength
      subst ha
      rw [SimpleGraph.Walk.length_concat] at hlength
      by_cases hu : u = a
      · exact h.source v (hu ▸ hadj)
      · obtain ⟨j, hj⟩ := ih rfl hu (by omega)
        have hle : ((j + 1 : ℕ) : ℕ∞) ≤ p.length := (hshortest u j hj).trans p.edist_le
        have hhops : j + 1 ≤ p.length := by exact_mod_cast hle
        exact h.spreads u j v hj (by omega) hadj hv
  have hfinite : G.edist s v ≠ ⊤ := ne_top_of_le_ne_top (ENat.natCast_ne_top _) hdist
  obtain ⟨p, hp⟩ := SimpleGraph.exists_walk_of_edist_ne_top hfinite
  rw [← hp] at hdist
  exact hwalk p rfl hv (by exact_mod_cast hdist)

/-- Whatever the order, the `i`-th vertex to be reached gets a copy that has made
at most `i` hops before. With at most `T + 2` vertices every one is reached. -/
theorem took_of_few {order nodes : List V} (hnodup : order.Nodup) (hsource : s ∉ order)
    (hearly : ∀ i v, order[i]? = some v → ∃ j ≤ i, took v j)
    (horder : ∀ v j, took v j → v ∈ order) (hnodes : ∀ v ∈ order, v ∈ nodes) (hs : s ∈ nodes)
    (hadj : ∀ u v, G.Adj u v → v ∈ nodes) (hfew : nodes.length ≤ T + 2) {v : V} (hv : v ≠ s)
    (hreach : G.Reachable s v) : ∃ j, took v j := by
  obtain ⟨p⟩ := hreach
  have hwalk : ∀ {a v : V} (_ : G.Walk a v), a = s → v ≠ s → ∃ j, took v j := by
    intro a v p
    induction p using SimpleGraph.Walk.concatRec with
    | Hnil => exact fun ha hv => absurd ha hv
    | @Hconcat a u v p huv ih =>
      intro ha hv
      subst ha
      by_cases hu : u = a
      · exact h.source v (hu ▸ huv)
      by_contra hnone
      have hfresh : v ∉ order := by
        intro hmem
        obtain ⟨i, hi⟩ := List.getElem?_of_mem hmem
        obtain ⟨j, -, hj⟩ := hearly i v hi
        exact hnone ⟨j, hj⟩
      -- the vertices reached, the source and `v` are all different
      have hall : (a :: v :: order).Nodup := by
        simp [hnodup, hsource, hfresh, Ne.symm hv]
      have hsubset : a :: v :: order ⊆ nodes := by
        intro x hx
        simp only [List.mem_cons] at hx
        rcases hx with rfl | rfl | hx
        · exact hs
        · exact hadj u x huv
        · exact hnodes x hx
      have hlength := (hall.subperm hsubset).length_le
      simp only [List.length_cons] at hlength
      obtain ⟨k, hk⟩ := ih rfl hu
      obtain ⟨i, hi⟩ := List.getElem?_of_mem (horder u k hk)
      obtain ⟨hlt, -⟩ := List.getElem?_eq_some_iff.mp hi
      obtain ⟨j, hji, hj⟩ := hearly i u hi
      exact hnone (h.spreads u j v hj (by omega) huv hv)
  exact hwalk p rfl hv

end FinishedFlood
end Foundations
