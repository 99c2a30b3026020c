import Mathlib

/-!
# Grids

Cells by row and column, each on or off. What a list of writes leaves in a cell, and the
rows of a grid as lists.
-/

namespace Foundations

/-- Row and column. -/
abbrev Cell := ℕ × ℕ

abbrev Grid := Cell → Bool

namespace Grid

variable {g : Grid} {cell : Cell} {v : Bool} {writes : List (Cell × Bool)} {cells : List Cell} {size r c : ℕ}

def empty : Grid := fun _ => false

def set (g : Grid) (cell : Cell) (v : Bool) : Grid := fun other => if other = cell then v else g other

@[simp] theorem set_self : g.set cell v cell = v := if_pos rfl

@[simp] theorem set_of_ne {other : Cell} (h : other ≠ cell) : g.set cell v other = g other := if_neg h

/-- The writes, one after the other. -/
def writeAll (g : Grid) (writes : List (Cell × Bool)) : Grid := writes.foldl (fun g w => g.set w.1 w.2) g

theorem writeAll_of_not_mem (h : cell ∉ writes.map Prod.fst) : g.writeAll writes cell = g cell := by
  induction writes generalizing g with
  | nil => rfl
  | cons w writes ih =>
    rw [List.map_cons, List.mem_cons, not_or] at h
    exact (ih h.2).trans (set_of_ne h.1)

/-- Where no cell is written twice, each has what was written to it. -/
theorem writeAll_of_mem (hnodup : (writes.map Prod.fst).Nodup) (h : (cell, v) ∈ writes) :
    g.writeAll writes cell = v := by
  induction writes generalizing g with
  | nil => cases h
  | cons w writes ih =>
    rw [List.map_cons, List.nodup_cons] at hnodup
    rcases List.mem_cons.mp h with rfl | hmem
    · exact (writeAll_of_not_mem hnodup.1).trans set_self
    · exact ih hnodup.2 hmem

/-- The cells, all turned on. -/
def mark (g : Grid) (cells : List Cell) : Grid := cells.foldl (fun g cell => g.set cell true) g

theorem mark_eq (g : Grid) (cells : List Cell) (cell : Cell) : g.mark cells cell = (g cell || decide (cell ∈ cells)) := by
  induction cells generalizing g with
  | nil => simp [mark]
  | cons first cells ih =>
    have hrest : g.mark (first :: cells) = (g.set first true).mark cells := rfl
    rw [hrest, ih]
    by_cases hcell : cell = first
    · simp [hcell]
    · simp [hcell]

/-! ### Rows -/

/-- The first `size` rows of a grid, as long as they are many. -/
def rows (g : Grid) (size : ℕ) : List (List Bool) :=
  (List.range size).map fun r => (List.range size).map fun c => g (r, c)

def ofRows (rows : List (List Bool)) : Grid := fun cell => (rows.getD cell.1 []).getD cell.2 false

@[simp] theorem length_rows (g : Grid) (size : ℕ) : (g.rows size).length = size := by simp [rows]

theorem length_of_mem_rows {row : List Bool} (h : row ∈ g.rows size) : row.length = size := by
  obtain ⟨r, -, rfl⟩ := List.mem_map.mp h
  simp

theorem ofRows_rows (hr : r < size) (hc : c < size) : ofRows (g.rows size) (r, c) = g (r, c) := by
  simp [ofRows, rows, hr, hc]

end Grid

end Foundations
