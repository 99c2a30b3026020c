import Mathlib

/-!
# Tables of records

A list whose elements are told apart by their places. What holds of every record after one of them
is replaced or a new one is added, and how many records satisfy a test.
-/

namespace Foundations

variable {α : Type*} {l : List α} {a b : α} {i j : ℕ}

theorem getElem?_set_of_some (h : l[i]? = some a) (b : α) (j : ℕ) :
    (l.set i b)[j]? = if j = i then some b else l[j]? := by
  rw [List.getElem?_set]
  by_cases hj : j = i
  · rw [if_pos hj.symm, if_pos hj, if_pos (List.getElem?_eq_some_iff.mp h).1]
  · rw [if_neg (Ne.symm hj), if_neg hj]

theorem forall_set (h : l[i]? = some a) {P : ℕ → α → Prop} :
    (∀ j c, (l.set i b)[j]? = some c → P j c) ↔ P i b ∧ ∀ j c, j ≠ i → l[j]? = some c → P j c := by
  constructor
  · intro hall
    refine ⟨hall i b ?_, fun j c hj hc => hall j c ?_⟩
    · rw [getElem?_set_of_some h, if_pos rfl]
    · rwa [getElem?_set_of_some h, if_neg hj]
  · rintro ⟨hself, hothers⟩ j c hc
    rw [getElem?_set_of_some h] at hc
    split_ifs at hc with hj
    · cases hc
      exact hj ▸ hself
    · exact hothers j c hj hc

theorem forall_concat {P : ℕ → α → Prop} :
    (∀ j c, (l ++ [a])[j]? = some c → P j c) ↔ (∀ j c, l[j]? = some c → P j c) ∧ P l.length a := by
  constructor
  · intro hall
    refine ⟨fun j c hc => hall j c ?_, hall _ _ List.getElem?_concat_length⟩
    rwa [List.getElem?_append_left (List.getElem?_eq_some_iff.mp hc).1]
  · rintro ⟨hothers, hlast⟩ j c hc
    rcases Nat.lt_or_ge j l.length with hj | hj
    · rw [List.getElem?_append_left hj] at hc
      exact hothers j c hc
    · have hlt := (List.getElem?_eq_some_iff.mp hc).1
      rw [List.length_append, List.length_singleton] at hlt
      obtain rfl : j = l.length := by omega
      rw [List.getElem?_concat_length] at hc
      cases hc
      exact hlast

theorem countP_set_of_some (h : l[i]? = some a) (b : α) (p : α → Bool) :
    (l.set i b).countP p + (p a).toNat = l.countP p + (p b).toNat := by
  induction l generalizing i with
  | nil => cases h
  | cons c l ih =>
    cases i with
    | zero =>
      cases h
      rw [List.set_cons_zero, List.countP_cons, List.countP_cons]
      cases p a <;> cases p b <;> rfl
    | succ i =>
      have hrest := ih (show l[i]? = some a from h)
      rw [List.set_cons_succ, List.countP_cons, List.countP_cons]
      omega

/-- A record that passes is counted. -/
theorem countP_pos_of_some (h : l[i]? = some a) {p : α → Bool} (hp : p a = true) : 0 < l.countP p :=
  List.countP_pos_iff.mpr ⟨a, List.mem_of_getElem? h, hp⟩

end Foundations
