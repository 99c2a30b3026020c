import Mathlib

/-!
# Counting in fixed windows

A budget for each window of a fixed length. A window opens with the first event
that no earlier window covers, so windows follow the events and not a grid, and two
of them start at least one length apart. An interval of that length can still meet
two windows: the bound for it is twice the budget.
-/

namespace Foundations

structure FixedWindow (τ : Type*) where
  start : τ
  count : ℕ
  deriving DecidableEq

/-- What is known of one event: when it was, whether it opened a window, and
whether it was within the budget. -/
structure CountedEvent (τ : Type*) where
  time : τ
  opens : Bool
  allowed : Bool
  deriving DecidableEq

namespace FixedWindow

variable {τ : Type*} [AddCommGroup τ] [LinearOrder τ] [IsOrderedAddMonoid τ]
variable (budget : ℕ) (length : τ)

/-- No window covers an event at `now`. -/
def opens (held : Option (FixedWindow τ)) (now : τ) : Bool :=
  held.all fun w => w.start + length ≤ now

/-- The window after an event at `now`. -/
def counting (held : Option (FixedWindow τ)) (now : τ) : FixedWindow τ :=
  match held with
  | some w => if w.start + length ≤ now then ⟨now, 1⟩ else { w with count := w.count + 1 }
  | none => ⟨now, 1⟩

def outcomes : Option (FixedWindow τ) → List τ → List (CountedEvent τ)
  | _, [] => []
  | held, now :: rest =>
    ⟨now, opens length held now, (counting length held now).count ≤ budget⟩ ::
      outcomes (some (counting length held now)) rest

/-- The events within the budget from `t` up to one length later, the end included. -/
def allowedWithin (t : τ) (events : List (CountedEvent τ)) : ℕ :=
  events.countP fun a => a.allowed && (t ≤ a.time && a.time ≤ t + length)

variable {budget length} {held : Option (FixedWindow τ)} {w : FixedWindow τ} {now t : τ} {times : List τ}

section

omit [IsOrderedAddMonoid τ]

theorem counting_of_opens (h : opens length held now = true) : counting length held now = ⟨now, 1⟩ := by
  cases held with
  | none => rfl
  | some w => exact if_pos (of_decide_eq_true h)

theorem counting_of_covered (h : now < w.start + length) :
    counting length (some w) now = { w with count := w.count + 1 } :=
  if_neg (not_le.mpr h)

theorem opens_some_eq_false : opens length (some w) now = false ↔ now < w.start + length := by
  simp [opens]

theorem opens_eq_false (h : opens length held now = false) :
    ∃ w, held = some w ∧ now < w.start + length := by
  cases held with
  | none => cases h
  | some w => exact ⟨w, rfl, opens_some_eq_false.mp h⟩

theorem mem_outcomes_time {a : CountedEvent τ} (h : a ∈ outcomes budget length held times) : a.time ∈ times := by
  induction times generalizing held with
  | nil => cases h
  | cons now rest ih =>
    rcases List.mem_cons.mp h with rfl | hrest
    · exact List.mem_cons_self
    · exact List.mem_cons_of_mem _ (ih hrest)

/-! ### One window -/

/-- Until the next window opens, the budget that is left is not exceeded. -/
theorem countP_allowed_le_of_covered {events : List (CountedEvent τ)}
    (hstarts : events <+: outcomes budget length (some w) times) (hcovered : ∀ a ∈ events, a.opens = false) :
    events.countP (·.allowed) ≤ budget - w.count := by
  induction times generalizing w events with
  | nil =>
    have hnil : events = [] := List.prefix_nil.mp hstarts
    simp [hnil]
  | cons now rest ih =>
    rcases List.prefix_cons_iff.mp hstarts with rfl | ⟨events', rfl, hrest⟩
    · simp
    · have hhead : now < w.start + length := opens_some_eq_false.mp (hcovered _ List.mem_cons_self)
      rw [counting_of_covered hhead] at hrest ⊢
      have htail := ih hrest fun a ha => hcovered a (List.mem_cons_of_mem _ ha)
      rw [List.countP_cons]
      dsimp only at htail ⊢
      split_ifs with hallowed
      · have hroom : w.count + 1 ≤ budget := of_decide_eq_true hallowed
        omega
      · omega

/-- At most the budget is allowed among events of which only the first may open a
window. -/
theorem countP_allowed_le {first : CountedEvent τ} {events : List (CountedEvent τ)}
    (hpart : first :: events <:+: outcomes budget length held times)
    (hcovered : ∀ a ∈ events, a.opens = false) :
    (first :: events).countP (·.allowed) ≤ budget := by
  induction times generalizing held with
  | nil => exact absurd (List.infix_nil.mp hpart) (List.cons_ne_nil _ _)
  | cons now rest ih =>
    rcases List.infix_cons_iff.mp hpart with hstarts | hrest
    · obtain ⟨rfl, hevents⟩ := List.cons_prefix_cons.mp hstarts
      have htail := countP_allowed_le_of_covered hevents hcovered
      have hcount : 1 ≤ (counting length held now).count := by
        cases held with
        | none => exact le_rfl
        | some w =>
          rw [counting]
          split_ifs <;> simp
      rw [List.countP_cons]
      dsimp only at htail ⊢
      split_ifs with hallowed
      · have hroom : (counting length held now).count ≤ budget := of_decide_eq_true hallowed
        omega
      · omega
    · exact ih hrest

end

/-! ### An interval of one length -/

omit [IsOrderedAddMonoid τ] in
theorem allowedWithin_cons (a : CountedEvent τ) (events : List (CountedEvent τ)) :
    allowedWithin length t (a :: events) = allowedWithin length t events +
      if a.allowed && (t ≤ a.time && a.time ≤ t + length) then 1 else 0 :=
  List.countP_cons

omit [IsOrderedAddMonoid τ] in
theorem allowedWithin_of_late {events : List (CountedEvent τ)} (h : ∀ a ∈ events, t + length < a.time) :
    allowedWithin length t events = 0 := by
  refine List.countP_eq_zero.mpr fun a ha hin => ?_
  have hle : a.time ≤ t + length := of_decide_eq_true (Bool.and_elim_right (Bool.and_elim_right hin))
  exact absurd (h a ha) (not_lt.mpr hle)

variable (budget length) in
/-- An interval that starts before the window meets no later window. -/
theorem allowedWithin_of_later (hsorted : times.Pairwise (· ≤ ·)) (hstart : t < w.start) :
    allowedWithin length t (outcomes budget length (some w) times) ≤ budget - w.count := by
  induction times generalizing w with
  | nil => exact Nat.zero_le _
  | cons now rest ih =>
    obtain ⟨hfirst, hrest⟩ := List.pairwise_cons.mp hsorted
    by_cases hlate : t + length < now
    · have hall : ∀ a ∈ outcomes budget length (some w) (now :: rest), t + length < a.time := by
        intro a ha
        rcases List.mem_cons.mp (mem_outcomes_time ha) with hnow | hmem
        · rwa [hnow]
        · exact hlate.trans_le (hfirst _ hmem)
      rw [allowedWithin_of_late hall]
      exact Nat.zero_le _
    · have hcovered : now < w.start + length :=
        (not_lt.mp hlate).trans_lt (add_lt_add_left hstart length)
      rw [outcomes, counting_of_covered hcovered, allowedWithin_cons]
      have htail := ih (w := { w with count := w.count + 1 }) hrest hstart
      dsimp only at htail ⊢
      split_ifs with hallowed
      · have hroom : w.count + 1 ≤ budget := of_decide_eq_true (Bool.and_elim_left hallowed)
        omega
      · omega

variable (budget) in
/-- An interval that starts before the end of the window meets one later window. -/
theorem allowedWithin_of_overlap (hsorted : times.Pairwise (· ≤ ·)) (hend : t < w.start + length) :
    allowedWithin length t (outcomes budget length (some w) times) ≤ (budget - w.count) + budget := by
  induction times generalizing w with
  | nil => exact Nat.zero_le _
  | cons now rest ih =>
    obtain ⟨-, hrest⟩ := List.pairwise_cons.mp hsorted
    rw [outcomes, allowedWithin_cons]
    by_cases hcovered : now < w.start + length
    · rw [counting_of_covered hcovered]
      have htail := ih (w := { w with count := w.count + 1 }) hrest hend
      dsimp only at htail ⊢
      split_ifs with hallowed
      · have hroom : w.count + 1 ≤ budget := of_decide_eq_true (Bool.and_elim_left hallowed)
        omega
      · omega
    · have hopens : opens length (some w) now = true := decide_eq_true (not_lt.mp hcovered)
      rw [counting_of_opens hopens]
      have hnew : t < now := hend.trans_le (not_lt.mp hcovered)
      have htail := allowedWithin_of_later budget length (w := ⟨now, 1⟩) hrest hnew
      dsimp only at htail ⊢
      split_ifs with hallowed
      · have hroom : 1 ≤ budget := of_decide_eq_true (Bool.and_elim_left hallowed)
        omega
      · omega

variable (budget held t) in
/-- At most twice the budget is allowed in an interval of the length of a window. -/
theorem allowedWithin_le (hlength : 0 < length) (hsorted : times.Pairwise (· ≤ ·)) :
    allowedWithin length t (outcomes budget length held times) ≤ 2 * budget := by
  induction times generalizing held with
  | nil => exact Nat.zero_le _
  | cons now rest ih =>
    obtain ⟨-, hrest⟩ := List.pairwise_cons.mp hsorted
    by_cases hbefore : now < t
    · rw [outcomes, allowedWithin_cons]
      have hout : (decide (t ≤ now) && decide (now ≤ t + length)) = false := by simp [not_le.mpr hbefore]
      simpa [hout] using ih _ hrest
    · cases hopens : opens length held now with
      | true =>
        rw [outcomes, allowedWithin_cons, counting_of_opens hopens]
        have hoverlap : t < now + length := (not_lt.mp hbefore).trans_lt (lt_add_of_pos_right now hlength)
        have htail := allowedWithin_of_overlap budget (w := ⟨now, 1⟩) hrest hoverlap
        dsimp only at htail ⊢
        split_ifs with hallowed
        · have hroom : 1 ≤ budget := of_decide_eq_true (Bool.and_elim_left hallowed)
          omega
        · omega
      | false =>
        obtain ⟨w, rfl, hcovered⟩ := opens_eq_false hopens
        have hoverlap := allowedWithin_of_overlap budget hsorted ((not_lt.mp hbefore).trans_lt hcovered)
        omega

end FixedWindow
end Foundations
