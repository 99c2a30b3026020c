import Arald.Foundations.Runs

/-!
# What has held since

A run may have passed a step that satisfies `P`, and from the state in which this step
was taken on, every state of the run may satisfy `Q`. What holds of a state only because
of such a step is known to have held since.
-/

namespace Foundations
namespace System

variable {σ ε : Type*} {S : System σ ε} {P : σ → ε → Prop} {Q I : σ → Prop} {start s : σ}
  {events : List ε}

theorem run_append (S : System σ ε) (s : σ) (es fs : List ε) :
    S.run s (es ++ fs) = (S.run s es).bind fun t => S.run t fs := by
  induction es generalizing s with
  | nil => rfl
  | cons e es ih =>
    rw [List.cons_append, run_cons, run_cons, Option.bind_assoc]
    congr 1
    funext t
    exact ih t

/-- `P` held of a step of the run, and `Q` of all states from that step on. -/
def Since (S : System σ ε) (P : σ → ε → Prop) (Q : σ → Prop) (start : σ) (events : List ε) : Prop :=
  ∃ before e after, events = before ++ e :: after ∧ (∃ s, S.run start before = some s ∧ P s e) ∧
    ∀ between, between <+: e :: after → ∀ s, S.run start (before ++ between) = some s → Q s

/-- `Q` holds of one more state. -/
theorem Since.snoc (h : S.Since P Q start events) {e : ε}
    (hQ : ∀ s, S.run start (events ++ [e]) = some s → Q s) : S.Since P Q start (events ++ [e]) := by
  obtain ⟨before, first, after, rfl, hP, hsince⟩ := h
  refine ⟨before, first, after ++ [e], by simp, hP, ?_⟩
  intro between hbetween s hrun
  rw [← List.cons_append, List.prefix_concat_iff] at hbetween
  rcases hbetween with rfl | hbetween
  · apply hQ s
    simpa using hrun
  · exact hsince between hbetween s hrun

/-- `P` holds of the last step. -/
theorem since_last {e : ε} (hrun : S.run start events = some s) (hP : P s e) (hQ : Q s)
    (hlast : ∀ t, S.run start (events ++ [e]) = some t → Q t) : S.Since P Q start (events ++ [e]) := by
  refine ⟨events, e, [], rfl, ⟨s, hrun, hP⟩, ?_⟩
  intro between hbetween t ht
  rcases List.prefix_concat_iff.mp (show between <+: [] ++ [e] from hbetween) with rfl | hbetween
  · exact hlast t ht
  · obtain rfl := List.prefix_nil.mp hbetween
    rw [List.append_nil, hrun] at ht
    obtain rfl := Option.some_injective _ ht
    exact hQ

/-- What no initial state has, and a step brings about only if `P` holds of it, is there
because `P` held of some step; and what it needs has held since. -/
theorem since_of_run (hinit : ∀ s, S.Init s → ¬I s) (hQ : ∀ s, I s → Q s)
    (hstep : ∀ s e s', S.Reachable s → S.step s e = some s' → I s' → I s ∨ (P s e ∧ Q s))
    (hstart : S.Init start) (hrun : S.run start events = some s) (hs : I s) :
    S.Since P Q start events := by
  induction events using List.reverseRecOn generalizing s with
  | nil =>
    obtain rfl : start = s := by simpa using hrun
    exact absurd hs (hinit start hstart)
  | append_singleton events e ih =>
    have hlast : ∀ t, S.run start (events ++ [e]) = some t → Q t := by
      intro t ht
      rw [hrun] at ht
      obtain rfl := Option.some_injective _ ht
      exact hQ s hs
    rw [run_append] at hrun
    obtain ⟨t, ht, hone⟩ := Option.bind_eq_some_iff.mp hrun
    rw [run_cons] at hone
    obtain ⟨s', hs', hnil⟩ := Option.bind_eq_some_iff.mp hone
    obtain rfl : s' = s := by simpa using hnil
    rcases hstep t e s' (reachable_of_run hstart ht) hs' hs with hbefore | ⟨hP, hQt⟩
    · exact (ih ht hbefore).snoc hlast
    · exact since_last ht hP hQt hlast

end System
end Foundations
