import Mathlib

/-!
# Token buckets

A bucket is refilled at a rate, once in every interval and never above its
capacity, and every spending is taken from it. What is spent between two
instants is then at most the capacity and what the rate gives from the first
instant to one interval after the second.
-/

namespace Foundations

/-- The amounts spent from `first` to `last`, of a history of instants and amounts. -/
def spentBetween (history : List (ℚ × ℚ)) (first last : ℚ) : ℚ :=
  ((history.filter fun e => decide (first ≤ e.1 ∧ e.1 ≤ last)).map Prod.snd).sum

/-- `level` is what is left at the instant `clock`. -/
structure TokenBucket (cap rate interval : ℚ) (history : List (ℚ × ℚ)) (level clock : ℚ) : Prop where
  nonneg : 0 ≤ level
  le_cap : level ≤ cap
  past : ∀ e ∈ history, e.1 ≤ clock
  since : ∀ first ≤ clock,
    spentBetween history first clock + level ≤ cap + rate * (clock - first + interval)
  between : ∀ first last, first ≤ last →
    spentBetween history first last ≤ cap + rate * (last - first + interval)

variable {cap rate interval level clock amount first last : ℚ} {history : List (ℚ × ℚ)}

theorem spentBetween_append (history' : List (ℚ × ℚ)) :
    spentBetween (history ++ history') first last =
      spentBetween history first last + spentBetween history' first last := by
  rw [spentBetween, List.filter_append, List.map_append, List.sum_append]
  rfl

theorem spentBetween_eq_zero (h : ∀ e ∈ history, ¬(first ≤ e.1 ∧ e.1 ≤ last)) :
    spentBetween history first last = 0 := by
  rw [spentBetween, List.filter_eq_nil_iff.mpr fun e he => by simpa using h e he]
  rfl

/-- Nothing is spent after the clock. -/
theorem spentBetween_of_le (h : ∀ e ∈ history, e.1 ≤ clock) (hlast : clock ≤ last) :
    spentBetween history first last = spentBetween history first clock := by
  rw [spentBetween, spentBetween]
  congr 2
  refine List.filter_congr fun e he => decide_eq_decide.mpr ?_
  rw [and_iff_left (h e he), and_iff_left ((h e he).trans hlast)]

theorem spentBetween_singleton (h : first ≤ clock ∧ clock ≤ last) :
    spentBetween [(clock, amount)] first last = amount := by
  have hkept : [(clock, amount)].filter (fun e => decide (first ≤ e.1 ∧ e.1 ≤ last)) =
      [(clock, amount)] := List.filter_cons_of_pos (decide_eq_true h)
  rw [spentBetween, hkept, List.map_singleton, List.sum_singleton]

namespace TokenBucket

/-- A full bucket. -/
theorem full (hcap : 0 ≤ cap) (hrate : 0 ≤ rate) (hinterval : 0 ≤ interval) (clock : ℚ) :
    TokenBucket cap rate interval [] cap clock := by
  have hgiven : ∀ first last : ℚ, first ≤ last → 0 ≤ rate * (last - first + interval) := by
    intro first last hle
    exact mul_nonneg hrate (add_nonneg (sub_nonneg.mpr hle) hinterval)
  refine ⟨hcap, le_rfl, fun e he => absurd he List.not_mem_nil, fun first hle => ?_,
    fun first last hle => ?_⟩
  · rw [spentBetween_eq_zero fun e he => absurd he List.not_mem_nil, zero_add]
    exact le_add_of_nonneg_right (hgiven first clock hle)
  · rw [spentBetween_eq_zero fun e he => absurd he List.not_mem_nil]
    exact add_nonneg hcap (hgiven first last hle)

theorem refill (h : TokenBucket cap rate interval history level clock) (hrate : 0 ≤ rate)
    (hinterval : 0 ≤ interval) :
    TokenBucket cap rate interval history (min cap (level + rate * interval)) (clock + interval) := by
  have hclock : clock ≤ clock + interval := le_add_of_nonneg_right hinterval
  refine ⟨le_min (h.nonneg.trans h.le_cap) (add_nonneg h.nonneg (mul_nonneg hrate hinterval)),
    min_le_left _ _, fun e he => (h.past e he).trans hclock, fun first hle => ?_, h.between⟩
  rw [spentBetween_of_le h.past hclock]
  rcases le_or_gt first clock with hbefore | hafter
  · have hpaid := h.since first hbefore
    have hlevel := min_le_right cap (level + rate * interval)
    linarith
  · have hnone : spentBetween history first clock = 0 :=
      spentBetween_eq_zero fun e _ hin => (hin.1.trans hin.2).not_gt hafter
    have hgiven : 0 ≤ rate * (clock + interval - first + interval) :=
      mul_nonneg hrate (add_nonneg (sub_nonneg.mpr hle) hinterval)
    have hlevel := min_le_left cap (level + rate * interval)
    linarith

theorem spend (h : TokenBucket cap rate interval history level clock) (hrate : 0 ≤ rate)
    (hamount : 0 ≤ amount) (hlevel : amount ≤ level) :
    TokenBucket cap rate interval (history ++ [(clock, amount)]) (level - amount) clock := by
  have hpast : ∀ e ∈ history ++ [(clock, amount)], e.1 ≤ clock := by
    intro e he
    rcases List.mem_append.mp he with he | he
    · exact h.past e he
    · rw [List.mem_singleton.mp he]
  have hsince : ∀ first ≤ clock, spentBetween (history ++ [(clock, amount)]) first clock +
      (level - amount) ≤ cap + rate * (clock - first + interval) := by
    intro first hle
    rw [spentBetween_append, spentBetween_singleton ⟨hle, le_rfl⟩, add_assoc, add_sub_cancel]
    exact h.since first hle
  refine ⟨sub_nonneg.mpr hlevel, (sub_le_self _ hamount).trans h.le_cap, hpast, hsince,
    fun first last hle => ?_⟩
  by_cases hin : first ≤ clock ∧ clock ≤ last
  · rw [spentBetween_of_le hpast hin.2]
    have hpaid := hsince first hin.1
    have hmore : rate * (clock - first + interval) ≤ rate * (last - first + interval) :=
      mul_le_mul_of_nonneg_left (by linarith [hin.2]) hrate
    linarith
  · have hnone : spentBetween [(clock, amount)] first last = 0 := by
      refine spentBetween_eq_zero fun e he => ?_
      rwa [List.mem_singleton.mp he]
    rw [spentBetween_append, hnone, add_zero]
    exact h.between first last hle

end TokenBucket

end Foundations
