import Mathlib

/-!
# Lines

Texts over any alphabet with two letters for the end of a line. A text is split at every kind
of break, or only where both letters stand together, and lines are put together again with
both letters, either between them or after each of them.
-/

namespace Foundations

section
variable {α : Type*} [DecidableEq α] (cr lf : α)

/-- The lines between the breaks, each of which is one letter or both. -/
def splitLines : List α → List (List α)
  | [] => [[]]
  | [u] => if u = cr ∨ u = lf then [[], []] else [[u]]
  | u :: v :: rest =>
    if u = cr ∧ v = lf then [] :: splitLines rest
    else if u = cr ∨ u = lf then [] :: splitLines (v :: rest)
    else (splitLines (v :: rest)).modifyHead (u :: ·)

/-- The lines between the breaks of both letters. -/
def strictLines : List α → List (List α)
  | [] => [[]]
  | [u] => [[u]]
  | u :: v :: rest =>
    if u = cr ∧ v = lf then [] :: strictLines rest
    else (strictLines (v :: rest)).modifyHead (u :: ·)

/-- Both letters for every break. -/
def unifyBreaks : List α → List α
  | [] => []
  | [u] => if u = cr ∨ u = lf then [cr, lf] else [u]
  | u :: v :: rest =>
    if u = cr ∧ v = lf then cr :: lf :: unifyBreaks rest
    else if u = cr ∨ u = lf then cr :: lf :: unifyBreaks (v :: rest)
    else u :: unifyBreaks (v :: rest)

/-- A break at the end. -/
def endBreak (text : List α) : List α := if [cr, lf] <:+ text then text else text ++ [cr, lf]

end

section
variable {α : Type*} (cr lf : α)

/-- The lines with a break between them. -/
def joinLines : List (List α) → List α
  | [] => []
  | [line] => line
  | line :: next :: lines => line ++ cr :: lf :: joinLines (next :: lines)

/-- The lines with a break after each of them. -/
def closeLines (lines : List (List α)) : List α := lines.flatMap (· ++ [cr, lf])

def NoBreak (line : List α) : Prop := ∀ u ∈ line, u ≠ cr ∧ u ≠ lf

end

/-- What is left of an empty text after the last break is no line. -/
def completeLines {α : Type*} (lines : List (List α)) : List (List α) :=
  if lines.getLast?.any List.isEmpty then lines.dropLast else lines

section
variable {α : Type*} {cr lf u : α} {line text rest : List α} {lines more : List (List α)}

/-! ### Putting lines together -/

theorem joinLines_cons (line : List α) (h : lines ≠ []) :
    joinLines cr lf (line :: lines) = line ++ cr :: lf :: joinLines cr lf lines := by
  cases lines with
  | nil => exact absurd rfl h
  | cons next lines => rfl

theorem joinLines_modifyHead (u : α) (h : lines ≠ []) :
    joinLines cr lf (lines.modifyHead (u :: ·)) = u :: joinLines cr lf lines := by
  match lines, h with
  | [line], _ => rfl
  | line :: next :: lines, _ => rfl

theorem joinLines_append (hlines : lines ≠ []) (hmore : more ≠ []) :
    joinLines cr lf (lines ++ more) = joinLines cr lf lines ++ cr :: lf :: joinLines cr lf more := by
  induction lines with
  | nil => exact absurd rfl hlines
  | cons line lines ih =>
    by_cases hnil : lines = []
    · subst hnil
      exact joinLines_cons line hmore
    · rw [List.cons_append, joinLines_cons line (by simp [hnil]), ih hnil, joinLines_cons line hnil, List.append_assoc]
      rfl

theorem joinLines_concat (lines : List (List α)) (line : List α) :
    joinLines cr lf (lines ++ [line]) = closeLines cr lf lines ++ line := by
  induction lines with
  | nil => rfl
  | cons first lines ih =>
    rw [List.cons_append, joinLines_cons first (by simp), ih, closeLines, closeLines, List.flatMap_cons,
      List.append_assoc, List.append_assoc]
    rfl

/-- Lines of lines. -/
theorem joinLines_map_joinLines {blocks : List (List (List α))} (h : ∀ block ∈ blocks, block ≠ []) :
    joinLines cr lf (blocks.map (joinLines cr lf)) = joinLines cr lf blocks.flatten := by
  induction blocks with
  | nil => rfl
  | cons block blocks ih =>
    have hblock := h block List.mem_cons_self
    have hblocks : ∀ block ∈ blocks, block ≠ [] := fun other hmem => h other (List.mem_cons_of_mem _ hmem)
    rw [List.map_cons, List.flatten_cons]
    cases blocks with
    | nil => rw [List.map_nil, List.flatten_nil, List.append_nil, joinLines]
    | cons next blocks =>
      have hnext : next ≠ [] := hblocks next List.mem_cons_self
      rw [joinLines_cons _ (by simp), ih hblocks, joinLines_append hblock (by simp [hnext])]

theorem completeLines_concat_nil (lines : List (List α)) : completeLines (lines ++ [[]]) = lines := by
  simp [completeLines]

theorem completeLines_concat (lines : List (List α)) (h : line ≠ []) :
    completeLines (lines ++ [line]) = lines ++ [line] := by
  simp [completeLines, h]

theorem completeLines_append (lines : List (List α)) (hmore : more ≠ []) :
    completeLines (lines ++ more) = lines ++ completeLines more := by
  obtain ⟨init, last, rfl⟩ := List.eq_nil_or_concat' more |>.resolve_left hmore
  rw [← List.append_assoc]
  by_cases hlast : last = []
  · rw [hlast, completeLines_concat_nil, completeLines_concat_nil]
  · rw [completeLines_concat _ hlast, completeLines_concat _ hlast, List.append_assoc]

theorem completeLines_map {f : List α → List α} (hf : ∀ line, f line = [] ↔ line = []) (lines : List (List α)) :
    completeLines (lines.map f) = (completeLines lines).map f := by
  rcases List.eq_nil_or_concat' lines with rfl | ⟨init, last, rfl⟩
  · rfl
  · rw [List.map_append, List.map_singleton]
    by_cases hlast : last = []
    · rw [(hf last).mpr hlast, hlast, completeLines_concat_nil, completeLines_concat_nil]
    · rw [completeLines_concat _ hlast, completeLines_concat _ (mt (hf last).mp hlast), List.map_append,
        List.map_singleton]

theorem mem_of_mem_completeLines (h : line ∈ completeLines lines) : line ∈ lines := by
  rw [completeLines] at h
  split_ifs at h
  · exact List.mem_of_mem_dropLast h
  · exact h

theorem noBreak_cons : NoBreak cr lf (u :: line) ↔ (u ≠ cr ∧ u ≠ lf) ∧ NoBreak cr lf line := by
  simp [NoBreak]

end

section
variable {α : Type*} [DecidableEq α] {cr lf u : α} {line text rest : List α} {lines : List (List α)}

/-! ### The break at the end -/

theorem endBreak_concat (lines : List (List α)) (hline : NoBreak cr lf line) (hne : line ≠ []) :
    endBreak cr lf (joinLines cr lf (lines ++ [line])) = closeLines cr lf (lines ++ [line]) := by
  have hsuffix : ¬[cr, lf] <:+ joinLines cr lf (lines ++ [line]) := by
    rw [joinLines_concat]
    intro h
    have hlast := h.getLast (by simp)
    rw [List.getLast_append_of_ne_nil _ hne] at hlast
    exact (hline _ (List.getLast_mem hne)).2 hlast.symm
  rw [endBreak, if_neg hsuffix, joinLines_concat, closeLines, closeLines, List.flatMap_append, List.append_assoc]
  simp

theorem endBreak_concat_nil (h : lines ≠ []) :
    endBreak cr lf (joinLines cr lf (lines ++ [[]])) = closeLines cr lf lines := by
  obtain ⟨init, last, rfl⟩ := List.eq_nil_or_concat'  lines |>.resolve_left h
  have hsuffix : [cr, lf] <:+ closeLines cr lf (init ++ [last]) := by
    rw [closeLines, List.flatMap_append, List.flatMap_singleton]
    exact (List.suffix_append _ _).trans (List.suffix_append _ _)
  rw [joinLines_concat, List.append_nil, endBreak, if_pos hsuffix]

/-- A text with a break at the end is its complete lines. -/
theorem endBreak_joinLines (hlines : ∀ line ∈ lines, NoBreak cr lf line) (hne : lines ≠ []) (hempty : lines ≠ [[]]) :
    endBreak cr lf (joinLines cr lf lines) = closeLines cr lf (completeLines lines) := by
  obtain ⟨init, last, rfl⟩ := List.eq_nil_or_concat' lines |>.resolve_left hne
  by_cases hlast : last = []
  · subst hlast
    rw [completeLines_concat_nil]
    refine endBreak_concat_nil ?_
    rintro rfl
    exact hempty rfl
  · rw [completeLines_concat init hlast]
    exact endBreak_concat init (hlines last (by simp)) hlast

/-! ### Splitting -/

theorem splitLines_cons (h : u ≠ cr ∧ u ≠ lf) (rest : List α) :
    splitLines cr lf (u :: rest) = (splitLines cr lf rest).modifyHead (u :: ·) := by
  cases rest with
  | nil => simp [splitLines, h]
  | cons v rest => simp [splitLines, h]

theorem splitLines_break (rest : List α) : splitLines cr lf (cr :: lf :: rest) = [] :: splitLines cr lf rest := by
  rw [splitLines, if_pos ⟨rfl, rfl⟩]

theorem splitLines_append_break (h : NoBreak cr lf line) (rest : List α) :
    splitLines cr lf (line ++ cr :: lf :: rest) = line :: splitLines cr lf rest := by
  induction line with
  | nil => exact splitLines_break rest
  | cons u line ih =>
    rw [noBreak_cons] at h
    rw [List.cons_append, splitLines_cons h.1, ih h.2]
    rfl

theorem splitLines_of_noBreak (h : NoBreak cr lf line) : splitLines cr lf line = [line] := by
  induction line with
  | nil => rfl
  | cons u line ih =>
    rw [noBreak_cons] at h
    rw [splitLines_cons h.1, ih h.2]
    rfl

/-- Lines without breaks are found again. -/
theorem splitLines_joinLines (hlines : ∀ line ∈ lines, NoBreak cr lf line) (hne : lines ≠ []) :
    splitLines cr lf (joinLines cr lf lines) = lines := by
  induction lines with
  | nil => exact absurd rfl hne
  | cons line lines ih =>
    have hline := hlines line List.mem_cons_self
    by_cases hnil : lines = []
    · subst hnil
      exact splitLines_of_noBreak hline
    · rw [joinLines_cons line hnil, splitLines_append_break hline,
        ih (fun other hmem => hlines other (List.mem_cons_of_mem _ hmem)) hnil]

theorem splitLines_ne_nil (text : List α) : splitLines cr lf text ≠ [] := by
  fun_induction splitLines cr lf text <;> simp_all

theorem noBreak_of_mem_splitLines (h : line ∈ splitLines cr lf text) : NoBreak cr lf line := by
  induction text using splitLines.induct cr lf generalizing line with
  | case1 =>
    rw [splitLines, List.mem_singleton] at h
    subst h
    exact nofun
  | case2 u hu =>
    rw [splitLines, if_pos hu] at h
    have hnil : line = [] := by simpa using h
    subst hnil
    exact nofun
  | case3 u hu =>
    rw [splitLines, if_neg hu, List.mem_singleton] at h
    subst h
    exact noBreak_cons.mpr ⟨not_or.mp hu, nofun⟩
  | case4 u v rest hbreak ih =>
    rw [splitLines, if_pos hbreak] at h
    rcases List.mem_cons.mp h with rfl | h
    · exact nofun
    · exact ih h
  | case5 u v rest hbreak hu ih =>
    rw [splitLines, if_neg hbreak, if_pos hu] at h
    rcases List.mem_cons.mp h with rfl | h
    · exact nofun
    · exact ih h
  | case6 u v rest hbreak hu ih =>
    rw [splitLines, if_neg hbreak, if_neg hu] at h
    cases hsplit : splitLines cr lf (v :: rest) with
    | nil => exact absurd hsplit (splitLines_ne_nil _)
    | cons first others =>
      rw [hsplit] at h ih
      rcases List.mem_cons.mp h with rfl | h
      · exact noBreak_cons.mpr ⟨not_or.mp hu, ih List.mem_cons_self⟩
      · exact ih (List.mem_cons_of_mem _ h)

/-- The lines with breaks of both letters between them. -/
theorem joinLines_splitLines (text : List α) : joinLines cr lf (splitLines cr lf text) = unifyBreaks cr lf text := by
  induction text using splitLines.induct cr lf with
  | case1 => rfl
  | case2 u hu => rw [splitLines, unifyBreaks, if_pos hu, if_pos hu, joinLines, joinLines, List.nil_append]
  | case3 u hu => rw [splitLines, unifyBreaks, if_neg hu, if_neg hu, joinLines]
  | case4 u v rest hbreak ih =>
    rw [splitLines, unifyBreaks, if_pos hbreak, if_pos hbreak, joinLines_cons [] (splitLines_ne_nil _), ih,
      List.nil_append]
  | case5 u v rest hbreak hu ih =>
    rw [splitLines, unifyBreaks, if_neg hbreak, if_neg hbreak, if_pos hu, if_pos hu,
      joinLines_cons [] (splitLines_ne_nil _), ih, List.nil_append]
  | case6 u v rest hbreak hu ih =>
    rw [splitLines, unifyBreaks, if_neg hbreak, if_neg hbreak, if_neg hu, if_neg hu,
      joinLines_modifyHead u (splitLines_ne_nil _), ih]

theorem splitLines_eq_singleton_nil (h : splitLines cr lf text = [[]]) : text = [] := by
  cases text with
  | nil => rfl
  | cons u rest =>
    by_cases hu : u = cr ∨ u = lf
    · cases rest with
      | nil => simp [splitLines, hu] at h
      | cons v rest =>
        have hne : splitLines cr lf rest ≠ [] := splitLines_ne_nil rest
        have hne' : splitLines cr lf (v :: rest) ≠ [] := splitLines_ne_nil (v :: rest)
        rw [splitLines] at h
        split_ifs at h <;> simp_all
    · rw [splitLines_cons (not_or.mp hu)] at h
      cases hsplit : splitLines cr lf rest with
      | nil => exact absurd hsplit (splitLines_ne_nil _)
      | cons first others =>
        rw [hsplit] at h
        simp at h

/-! ### Strict lines -/

theorem strictLines_append_break (h : NoBreak cr lf line) (rest : List α) :
    strictLines cr lf (line ++ cr :: lf :: rest) = line :: strictLines cr lf rest := by
  induction line with
  | nil => rw [List.nil_append, strictLines, if_pos ⟨rfl, rfl⟩]
  | cons u line ih =>
    rw [noBreak_cons] at h
    cases line with
    | nil => 
      rw [List.cons_append, List.nil_append, strictLines, if_neg (fun hbreak => h.1.1 hbreak.1)]
      rw [List.nil_append] at ih
      rw [ih h.2]
      rfl
    | cons v line =>
      rw [List.cons_append, List.cons_append, strictLines, if_neg (fun hbreak => h.1.1 hbreak.1), ← List.cons_append,
        ih h.2]
      rfl

/-- Closed lines are found again. -/
theorem strictLines_closeLines (hlines : ∀ line ∈ lines, NoBreak cr lf line) :
    strictLines cr lf (closeLines cr lf lines) = lines ++ [[]] := by
  induction lines with
  | nil => rfl
  | cons line lines ih =>
    have hrest := ih fun other hmem => hlines other (List.mem_cons_of_mem _ hmem)
    rw [closeLines, List.flatMap_cons, List.append_assoc]
    exact (strictLines_append_break (hlines line List.mem_cons_self) _).trans (congrArg (line :: ·) hrest)

end
end Foundations
