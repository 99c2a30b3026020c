import Mathlib

/-!
# A cap on what is finished in any window of time

Work is admitted while the recent completions and the work under way are fewer than the cap.
Completions leave the recent ones from the front once they are as old as the window is long. No
window of that length then holds more completions than the cap, wherever it begins.
-/

namespace Foundations

/-- The completions so far, the recent ones, the work under way, and the time. -/
structure Capped (cap : ℕ) (window : ℤ) (history recent : List ℤ) (pending clock : ℤ) : Prop where
  kept (a : ℤ) : clock < a + window → history.countP (a ≤ ·) ≤ recent.countP (a ≤ ·)
  /-- A window that is not over has room for the work under way. -/
  room (a : ℤ) : clock < a + window → history.countP (a ≤ ·) + pending ≤ cap
  within (a : ℤ) : history.countP (fun t => a ≤ t ∧ t < a + window) ≤ cap

namespace Capped

variable {cap : ℕ} {window pending clock : ℤ} {history recent : List ℤ}

theorem start (cap : ℕ) (window clock : ℤ) : Capped cap window [] [] 0 clock :=
  ⟨fun _ _ => le_rfl, fun _ _ => by simp, fun _ => Nat.zero_le _⟩

theorem advance (h : Capped cap window history recent pending clock) {later : ℤ} (hle : clock ≤ later) :
    Capped cap window history recent pending later :=
  ⟨fun a ha => h.kept a (by omega), fun a ha => h.room a (by omega), h.within⟩

/-- What is dropped is too old for a window that is not over. -/
theorem prune (h : Capped cap window history recent pending clock) :
    Capped cap window history (recent.dropWhile fun t => window ≤ clock - t) pending clock := by
  refine ⟨fun a ha => (h.kept a ha).trans ?_, h.room, h.within⟩
  clear h
  induction recent with
  | nil => exact le_rfl
  | cons t recent ih =>
    rw [List.dropWhile_cons]
    split_ifs with hold
    · have hbefore : ¬a ≤ t := by
        have hle := of_decide_eq_true hold
        omega
      rw [List.countP_cons_of_neg (by simpa using hbefore)]
      exact ih
    · exact le_rfl

theorem allow (h : Capped cap window history recent pending clock) (hroom : recent.length + pending < cap) :
    Capped cap window history recent (pending + 1) clock := by
  refine ⟨h.kept, fun a ha => ?_, h.within⟩
  have hkept := h.kept a ha
  have hcount : recent.countP (a ≤ ·) ≤ recent.length := List.countP_le_length
  omega

theorem abandon (h : Capped cap window history recent pending clock) :
    Capped cap window history recent (pending - 1) clock := by
  refine ⟨h.kept, fun a ha => ?_, h.within⟩
  have hroom := h.room a ha
  omega

theorem finish (h : Capped cap window history recent pending clock) (hpending : 0 < pending) :
    Capped cap window (history ++ [clock]) (recent ++ [clock]) (pending - 1) clock := by
  refine ⟨fun a ha => ?_, fun a ha => ?_, fun a => ?_⟩
  · rw [List.countP_append, List.countP_append]
    exact Nat.add_le_add_right (h.kept a ha) _
  · have hroom := h.room a ha
    have hlast : [clock].countP (a ≤ ·) ≤ 1 := List.countP_le_length
    rw [List.countP_append]
    omega
  · rw [List.countP_append]
    by_cases hin : a ≤ clock ∧ clock < a + window
    · have hroom := h.room a hin.2
      have hmono : history.countP (fun t => a ≤ t ∧ t < a + window) ≤ history.countP (a ≤ ·) :=
        List.countP_mono_left fun t _ ht => decide_eq_true (of_decide_eq_true ht).1
      have hlast : [clock].countP (fun t => a ≤ t ∧ t < a + window) ≤ 1 := List.countP_le_length
      omega
    · have hlast : [clock].countP (fun t => a ≤ t ∧ t < a + window) = 0 := by
        rw [List.countP_cons_of_neg (by simpa using hin), List.countP_nil]
      rw [hlast]
      exact h.within a

end Capped

end Foundations
