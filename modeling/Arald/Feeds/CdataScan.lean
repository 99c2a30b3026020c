import Arald.Feeds.RssFeed

/-!
# Scanning outside CDATA

The sections of a document are in ascending order, and a scan that jumps over them stops where a
scan that looks at every position outside them does. In a document made of tags, text and CDATA
sections the scan sees the tags only.
-/

namespace Arald.Feeds

open Foundations Scanning

variable {β : Type*} {xml : List Char} {spans : List (ℕ × ℕ)} {i start fuel : ℕ}

/-! ### Sections -/

theorem findSpanContaining_some {s : ℕ × ℕ} (h : findSpanContaining i spans = some s) :
    s ∈ spans ∧ s.1 ≤ i ∧ i < s.2 := bisect_sound h

theorem findSpanContaining_none (h : Ascending spans) :
    findSpanContaining i spans = none ↔ ¬Inside spans i := bisect_eq_none_iff h

/-- What is found is a word of the text, from the start on. -/
theorem indexOf_eq_some {word : List Char} {j : ℕ} (h : indexOf word xml start = some j) :
    start ≤ j ∧ j + word.length ≤ xml.length := by
  rw [indexOf, Option.map_eq_some_iff] at h
  obtain ⟨⟨j', n⟩, hfound, rfl⟩ := h
  rw [exec] at hfound
  split_ifs at hfound with hstart
  obtain ⟨a, b, hsplit, hj, hword, -⟩ := scan_eq_some hfound
  rw [literal] at hword
  split_ifs at hword with hprefix
  have hlength := congrArg List.length hsplit
  rw [List.length_drop, List.length_append] at hlength
  have hword := hprefix.length_le
  dsimp only
  omega

/-- The sections from a position on are in order, and in the text. -/
theorem cdataSpansFrom_spec (xml : List Char) (fuel i : ℕ) :
    Ascending (cdataSpansFrom xml fuel i) ∧
      ∀ s ∈ cdataSpansFrom xml fuel i, i ≤ s.1 ∧ s.2 ≤ xml.length := by
  have hnil : ∀ i, Ascending [] ∧ ∀ s ∈ ([] : List (ℕ × ℕ)), i ≤ s.1 ∧ s.2 ≤ xml.length := fun _ =>
    ⟨⟨fun s hs => absurd hs List.not_mem_nil, List.Pairwise.nil⟩, fun s hs => absurd hs List.not_mem_nil⟩
  induction fuel generalizing i with
  | zero => exact hnil i
  | succ fuel ih =>
    rw [cdataSpansFrom]
    split_ifs
    · cases hopen : indexOf cdataStart xml i with
      | none => exact hnil i
      | some first =>
        obtain ⟨hle, hlength⟩ := indexOf_eq_some hopen
        have hnine : cdataStart.length = 9 := rfl
        dsimp only
        cases hclose : indexOf cdataEnd xml (first + 9) with
        | none =>
          refine ⟨⟨fun s hs => ?_, List.pairwise_singleton _ _⟩, fun s hs => ?_⟩
          · rw [List.mem_singleton.mp hs]
            dsimp only
            omega
          · rw [List.mem_singleton.mp hs]
            exact ⟨hle, le_rfl⟩
        | some stop =>
          obtain ⟨hle', hlength'⟩ := indexOf_eq_some hclose
          have hthree : cdataEnd.length = 3 := rfl
          obtain ⟨⟨hnonempty, hpairwise⟩, hbounds⟩ := ih (stop + 3)
          refine ⟨⟨fun s hs => ?_, List.pairwise_cons.mpr ⟨fun s hs => (hbounds s hs).1, hpairwise⟩⟩,
            fun s hs => ?_⟩
          · rcases List.mem_cons.mp hs with rfl | hs
            · dsimp only
              omega
            · exact hnonempty s hs
          · rcases List.mem_cons.mp hs with rfl | hs
            · dsimp only
              omega
            · obtain ⟨hlower, hupper⟩ := hbounds s hs
              exact ⟨by omega, hupper⟩
    · exact hnil i

/-- What is recognised outside the sections. -/
def outside (spans : List (ℕ × ℕ)) (re : List Char → Option β) (i : ℕ) (text : List Char) : Option β :=
  if Inside spans i then none else re text

/-- To jump over the sections is to look at every position outside them. -/
theorem execOutsideFrom_eq (re : List Char → Option β) (hspans : Ascending spans)
    (hbounds : ∀ s ∈ spans, s.2 ≤ xml.length) (hstart : start ≤ xml.length)
    (hfuel : xml.length < start + fuel) :
    execOutsideFrom re xml spans fuel start = scan (outside spans re) start (xml.drop start) := by
  induction fuel generalizing start with
  | zero => omega
  | succ fuel ih =>
    rw [execOutsideFrom, exec, if_pos hstart]
    cases hscan : scan (fun _ => re) start (xml.drop start) with
    | none =>
      dsimp only
      refine (scan_eq_none.mpr fun x y hxy => ?_).symm
      have hre : re y = none := scan_eq_none.mp hscan x y hxy
      rw [outside, hre, ite_self]
    | some found =>
      obtain ⟨a, rest, hsplit, hj, hre, hbefore⟩ := scan_eq_some hscan
      have hearlier : ∀ x y, a = x ++ y → y ≠ [] → re (y ++ rest) = none := by
        intro x y hxy hy
        refine hbefore x (y ++ rest) (by rw [hsplit, hxy, List.append_assoc]) ?_
        rw [hxy, List.length_append]
        exact Nat.lt_add_of_pos_right (List.length_pos_iff.mpr hy)
      dsimp only
      cases hspan : findSpanContaining found.1 spans with
      | none =>
        have hout := (findSpanContaining_none hspans).mp hspan
        rw [hsplit, scan_append fun x y hxy hy => by rw [outside, hearlier x y hxy hy, ite_self], ← hj]
        refine (scan_of_some ?_).symm
        rw [outside, if_neg hout, hre]
      | some s =>
        obtain ⟨hs, hlower, hupper⟩ := findSpanContaining_some hspan
        have hend := hbounds s hs
        dsimp only
        rw [ih hend (by omega)]
        have hparts : xml.drop start = (xml.drop start).take (s.2 - start) ++ xml.drop s.2 := by
          have hdrop : xml.drop s.2 = (xml.drop start).drop (s.2 - start) := by
            rw [List.drop_drop, Nat.add_sub_cancel' (by omega)]
          rw [hdrop, List.take_append_drop]
        have hlength : ((xml.drop start).take (s.2 - start)).length = s.2 - start := by
          rw [List.length_take, List.length_drop]
          omega
        rw [hparts, scan_append fun x y hxy hy => ?_, hlength, Nat.add_sub_cancel' (by omega)]
        rw [outside]
        split_ifs with hin
        · rfl
        · refine hbefore x (y ++ xml.drop s.2) ?_ ?_
          · rw [← List.append_assoc, ← hxy]
            exact hparts
          · by_contra hpast
            refine hin ⟨s, hs, by omega, ?_⟩
            have hparts' := congrArg List.length hxy
            rw [List.length_append, hlength] at hparts'
            have hpos := List.length_pos_iff.mpr hy
            omega

theorem execOutsideCdata_eq (re : List Char → Option β) (hspans : Ascending spans)
    (hbounds : ∀ s ∈ spans, s.2 ≤ xml.length) (hstart : start ≤ xml.length) :
    execOutsideCdata re xml spans start = scan (outside spans re) start (xml.drop start) :=
  execOutsideFrom_eq re hspans hbounds hstart (by omega)

end Arald.Feeds
