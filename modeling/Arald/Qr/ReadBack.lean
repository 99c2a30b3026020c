import Arald.Qr.CodewordsRead
import Arald.Qr.Decoder

/-!
# Codes read back

The decoder gets from the matrix the bytes that were encoded, whatever mask was chosen.
-/

namespace Arald

open Foundations

variable {version size mask : ℕ} {ecLevel : EcLevel} {canvas : Canvas} {cell : Cell} {bits : List Bool}

/-! ### What is reserved -/

/-- A loop reserves what its rounds reserve. -/
theorem reserved_foldl {α : Type*} {step : Canvas → α → Canvas} {xs : List α} {P : Prop}
    (hstep : ∀ canvas, ∀ x ∈ xs, (step canvas x).reserved cell = true → canvas.reserved cell = true ∨ P)
    (h : (xs.foldl step canvas).reserved cell = true) : canvas.reserved cell = true ∨ P := by
  induction xs generalizing canvas with
  | nil => exact Or.inl h
  | cons x xs ih =>
    rcases ih (fun canvas y hy => hstep canvas y (List.mem_cons_of_mem x hy)) h with hfirst | hp
    · exact hstep canvas x List.mem_cons_self hfirst
    · exact Or.inr hp

theorem reserved_place {other : Cell} {dark : Bool} (h : (canvas.place other dark).reserved cell = true) :
    canvas.reserved cell = true ∨ cell = other := by
  by_cases hcell : cell = other
  · exact Or.inr hcell
  · have hsame : canvas.reserved.set other true cell = canvas.reserved cell := Grid.set_of_ne hcell
    exact Or.inl (hsame.symm.trans h)

theorem mem_pairs {α β : Type} {rs : List α} {cs : List β} {rc : α × β} (h : rc ∈ pairs rs cs) :
    rc.1 ∈ rs ∧ rc.2 ∈ cs := by
  obtain ⟨r, hr, hmem⟩ := List.mem_flatMap.mp h
  obtain ⟨c, hc, rfl⟩ := List.mem_map.mp hmem
  exact ⟨hr, hc⟩

theorem mem_integersFrom {first i : ℤ} {count : ℕ} (h : i ∈ integersFrom first count) :
    first ≤ i ∧ i < first + count := by
  obtain ⟨n, hn, rfl⟩ := List.mem_map.mp h
  have hlt := List.mem_range.mp hn
  omega

theorem reserved_placeFinderPattern {topRow leftCol : ℕ}
    (h : (placeFinderPattern canvas topRow leftCol size).reserved cell = true) :
    canvas.reserved cell = true ∨
      (topRow ≤ cell.1 + 1 ∧ cell.1 ≤ topRow + 7) ∧ leftCol ≤ cell.2 + 1 ∧ cell.2 ≤ leftCol + 7 := by
  refine reserved_foldl (fun canvas rc hrc h => ?_) h
  obtain ⟨hr, hc⟩ := mem_pairs hrc
  have hrow := mem_integersFrom hr
  have hcol := mem_integersFrom hc
  by_cases hout : topRow + rc.1 < 0 ∨ size ≤ topRow + rc.1 ∨ leftCol + rc.2 < 0 ∨ size ≤ leftCol + rc.2
  · exact Or.inl (by rwa [if_pos hout] at h)
  · rw [if_neg hout] at h
    rcases reserved_place h with hbefore | rfl
    · exact Or.inl hbefore
    · exact Or.inr (by omega)

theorem reserved_placeTimingPatterns (h : (placeTimingPatterns canvas size).reserved cell = true) :
    canvas.reserved cell = true ∨ cell.1 = 6 ∨ cell.2 = 6 := by
  refine reserved_foldl (fun canvas i _ h => ?_) h
  have hone : ∀ {canvas : Canvas} {other : Cell} {dark : Bool},
      (if canvas.reserved other then canvas else canvas.place other dark).reserved cell = true →
      canvas.reserved cell = true ∨ cell = other := by
    intro canvas other dark h
    split_ifs at h with hreserved
    · exact Or.inl h
    · exact reserved_place h
  rcases hone h with hrow | rfl
  · rcases hone hrow with hbefore | rfl
    · exact Or.inl hbefore
    · exact Or.inr (Or.inl rfl)
  · exact Or.inr (Or.inr rfl)

/-- The five by five cells around a center. -/
def nearCenter (cell center : Cell) : Bool :=
  center.1 ≤ cell.1 + 2 && cell.1 ≤ center.1 + 2 && center.2 ≤ cell.2 + 2 && cell.2 ≤ center.2 + 2

def alignmentCenters (version : ℕ) : List Cell :=
  (pairs (alignmentCoords version) (alignmentCoords version)).filter fun rc =>
    !isNearFinder rc.1 rc.2 (matrixSize version)

theorem reserved_drawAlignmentPattern {center : Cell} (hrow : 2 ≤ center.1) (hcol : 2 ≤ center.2)
    (h : (drawAlignmentPattern canvas center.1 center.2).reserved cell = true) :
    canvas.reserved cell = true ∨ nearCenter cell center = true := by
  refine reserved_foldl (fun canvas rc hrc h => ?_) h
  obtain ⟨hr, hc⟩ := mem_pairs hrc
  have hr' := mem_integersFrom hr
  have hc' := mem_integersFrom hc
  rcases reserved_place h with hbefore | rfl
  · exact Or.inl hbefore
  · refine Or.inr ?_
    simp only [nearCenter, Bool.and_eq_true, decide_eq_true_eq]
    omega

theorem reserved_placeAlignmentPatterns (hversion : version ∈ versions)
    (h : (placeAlignmentPatterns canvas version (matrixSize version)).reserved cell = true) :
    canvas.reserved cell = true ∨ (alignmentCenters version).any (nearCenter cell) = true := by
  have hcoords : ∀ v ∈ versions, ∀ n ∈ alignmentCoords v, 2 ≤ n := by decide
  refine reserved_foldl (fun canvas rc hrc h => ?_) h
  obtain ⟨hr, hc⟩ := mem_pairs hrc
  split_ifs at h with hnear
  · exact Or.inl h
  · rcases reserved_drawAlignmentPattern (hcoords version hversion _ hr) (hcoords version hversion _ hc) h with
      hbefore | hcenter
    · exact Or.inl hbefore
    · exact Or.inr (List.any_eq_true.mpr ⟨rc, List.mem_filter.mpr ⟨hrc, by simpa using hnear⟩, hcenter⟩)

/-- The corners with finder patterns and format bits, the lines of the timing patterns, the
areas of the version bits, and the alignment patterns. -/
def isFunctionCell (version : ℕ) (cell : Cell) : Bool :=
  (cell.1 ≤ 8 && (cell.2 ≤ 8 || matrixSize version - 8 ≤ cell.2)) || (matrixSize version - 8 ≤ cell.1 && cell.2 ≤ 8) ||
    cell.1 = 6 || cell.2 = 6 ||
    (7 ≤ version && ((cell.1 < 6 && matrixSize version - 11 ≤ cell.2) ||
      (matrixSize version - 11 ≤ cell.1 && cell.2 < 6))) ||
    (alignmentCenters version).any (nearCenter cell)

theorem formatCoords_isFunctionCell : ∀ v ∈ versions,
    ∀ cell ∈ formatCopy1Coords ++ formatCopy2Coords (matrixSize v), isFunctionCell v cell = true := by
  decide

theorem versionCoords_isFunctionCell : ∀ v ∈ versions, 7 ≤ v →
    ∀ cell ∈ (versionInfoCoords (matrixSize v)).flatMap fun ab => [ab.1, ab.2], isFunctionCell v cell = true := by
  decide

theorem isFunctionCell_of_placePatterns (hversion : version ∈ versions)
    (h : (placePatterns version).reserved cell = true) : isFunctionCell version cell = true := by
  have hsize : 21 ≤ matrixSize version := by
    rw [versions, List.mem_range'_1] at hversion
    rw [matrixSize]
    omega
  have hdark : 4 * version + 9 = matrixSize version - 8 := by
    rw [matrixSize]
    omega
  simp only [isFunctionCell, Bool.or_eq_true, Bool.and_eq_true, decide_eq_true_eq]
  rcases reserved_place h with h | rfl
  · rcases reserved_placeAlignmentPatterns hversion h with h | hcenter
    · rcases reserved_placeTimingPatterns h with h | htiming
      · rcases reserved_placeFinderPattern h with h | hcorner
        · rcases reserved_placeFinderPattern h with h | hcorner
          · rcases reserved_placeFinderPattern h with h | hcorner
            · cases h
            · omega
          · omega
        · omega
      · tauto
    · exact Or.inr hcenter
  · dsimp only
    omega

theorem reserved_functionPatterns (version : ℕ) (cell : Cell) :
    (functionPatterns version).reserved cell = ((placePatterns version).reserved cell ||
      decide (cell ∈ formatCopy1Coords) || decide (cell ∈ formatCopy2Coords (matrixSize version)) ||
      decide (7 ≤ version ∧ cell ∈ (versionInfoCoords (matrixSize version)).flatMap fun ab => [ab.1, ab.2])) := by
  simp only [functionPatterns, reserveFormatInfoArea, reserveVersionInfoArea]
  split_ifs with hseven
  · rw [Grid.mark_eq, Grid.mark_eq, Grid.mark_eq]
    simp [hseven]
  · rw [Grid.mark_eq, Grid.mark_eq]
    simp [hseven]

/-- Nothing else is reserved. -/
theorem isFunctionCell_of_reserved (hversion : version ∈ versions)
    (h : (functionPatterns version).reserved cell = true) : isFunctionCell version cell = true := by
  rw [reserved_functionPatterns, Bool.or_eq_true, Bool.or_eq_true, Bool.or_eq_true, decide_eq_true_eq,
    decide_eq_true_eq, decide_eq_true_eq] at h
  rcases h with ((hplaced | hcopy) | hcopy) | ⟨hseven, hcoords⟩
  · exact isFunctionCell_of_placePatterns hversion hplaced
  · exact formatCoords_isFunctionCell version hversion cell (List.mem_append_left _ hcopy)
  · exact formatCoords_isFunctionCell version hversion cell (List.mem_append_right _ hcopy)
  · exact versionCoords_isFunctionCell version hversion hseven cell hcoords

end Arald
