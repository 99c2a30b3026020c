import Arald.Foundations.Chunks

/-!
# Differences of neighbours

A list as the differences of its neighbours, in any commutative group, and the running sums that
give it back. Loops over an index that visit the elements of a list.
-/

namespace Foundations

section
variable {α : Type*} [AddCommGroup α] (prev : α) (l : List α)

def deltas : α → List α → List α
  | _, [] => []
  | prev, v :: l => (v - prev) :: deltas v l

def sums : α → List α → List α
  | _, [] => []
  | prev, d :: l => (prev + d) :: sums (prev + d) l

@[simp] theorem length_deltas : (deltas prev l).length = l.length := by
  induction l generalizing prev with
  | nil => rfl
  | cons v l ih => rw [deltas, List.length_cons, ih, List.length_cons]

theorem sums_deltas : sums prev (deltas prev l) = l := by
  induction l generalizing prev with
  | nil => rfl
  | cons v l ih => rw [deltas, sums, add_sub_cancel, ih]

theorem deltas_sums : deltas prev (sums prev l) = l := by
  induction l generalizing prev with
  | nil => rfl
  | cons d l ih => rw [sums, deltas, add_sub_cancel_left, ih]

end

/-- A loop over the indices of a list is one over the list. -/
theorem foldl_range_getD {α σ : Type*} (f : σ → α → σ) (s : σ) (l : List α) (d : α) (offset : ℕ) (n : ℕ)
    (h : offset + n ≤ l.length) :
    (List.range n).foldl (fun s i => f s (l.getD (offset + i) d)) s = ((l.drop offset).take n).foldl f s := by
  induction n with
  | zero => rfl
  | succ n ih =>
    have hlt : n < (l.drop offset).length := by
      rw [List.length_drop]
      omega
    rw [List.range_succ, List.foldl_append, ih (by omega), List.take_succ_eq_append_getElem hlt, List.foldl_append,
      List.getElem_drop, List.foldl_cons, List.foldl_nil, List.getD_eq_getElem _ _ (by omega)]
    rfl

end Foundations
