import Mathlib

/-!
# Scanning

A text is scanned from left to right for the first position at which something is recognised. What
is recognised may depend on the position, so that a scan that skips over parts of the text and one
that looks at every position can be compared. Sections of a text are intervals in ascending order,
searched by bisection.
-/

namespace Foundations
namespace Scanning

variable {α β : Type*}

/-- The first position, counted from `i`, at which something is recognised. -/
def scan (p : ℕ → List α → Option β) : ℕ → List α → Option (ℕ × β)
  | i, [] => (p i []).map fun b => (i, b)
  | i, a :: rest =>
    match p i (a :: rest) with
    | some b => some (i, b)
    | none => scan p (i + 1) rest

/-- The first position from `start` on. -/
def exec (p : List α → Option β) (text : List α) (start : ℕ) : Option (ℕ × β) :=
  if start ≤ text.length then scan (fun _ => p) start (text.drop start) else none

/-- The length of a word that the text begins with. -/
def literal [DecidableEq α] (word text : List α) : Option ℕ :=
  if word <+: text then some word.length else none

def indexOf [DecidableEq α] (word text : List α) (start : ℕ) : Option ℕ :=
  (exec (literal word) text start).map Prod.fst

section
variable {p q : ℕ → List α → Option β} {i j : ℕ} {a b text : List α} {found : β}

/-- Nothing is recognised from a position in `a` on. -/
theorem scan_append (h : ∀ x y, a = x ++ y → y ≠ [] → p (i + x.length) (y ++ b) = none) :
    scan p i (a ++ b) = scan p (i + a.length) b := by
  induction a generalizing i with
  | nil => rfl
  | cons c a ih =>
    have hhead : p i (c :: (a ++ b)) = none := h [] (c :: a) rfl (List.cons_ne_nil c a)
    rw [List.cons_append, scan, hhead]
    dsimp only
    rw [ih fun x y hsplit hy => ?_, List.length_cons, add_right_comm, add_assoc]
    have hlater := h (c :: x) y (by rw [hsplit, List.cons_append]) hy
    rwa [List.length_cons, ← add_assoc, add_right_comm] at hlater

theorem scan_of_some (h : p i text = some found) : scan p i text = some (i, found) := by
  cases text with
  | nil => rw [scan, h, Option.map_some]
  | cons c rest => rw [scan, h]

/-- What a scan finds, it finds first. -/
theorem scan_eq_some (h : scan p i text = some (j, found)) : ∃ a b, text = a ++ b ∧ j = i + a.length ∧
    p j b = some found ∧ ∀ x y, text = x ++ y → x.length < a.length → p (i + x.length) y = none := by
  induction text generalizing i with
  | nil =>
    rw [scan, Option.map_eq_some_iff] at h
    obtain ⟨b, hb, heq⟩ := h
    obtain ⟨rfl, rfl⟩ := Prod.mk.inj heq
    exact ⟨[], [], rfl, rfl, hb, fun x y _ hlt => absurd hlt (Nat.not_lt_zero _)⟩
  | cons c rest ih =>
    rw [scan] at h
    cases hhead : p i (c :: rest) with
    | some b =>
      rw [hhead] at h
      obtain ⟨rfl, rfl⟩ := Prod.mk.inj (Option.some.inj h)
      exact ⟨[], c :: rest, rfl, rfl, hhead, fun x y _ hlt => absurd hlt (Nat.not_lt_zero _)⟩
    | none =>
      rw [hhead] at h
      obtain ⟨a, b, hsplit, hj, hfound, hbefore⟩ := ih h
      refine ⟨c :: a, b, by rw [hsplit, List.cons_append], ?_, hfound, fun x y hxy hlt => ?_⟩
      · rw [hj, List.length_cons]
        omega
      · cases x with
        | nil =>
          rw [List.nil_append] at hxy
          exact hxy ▸ hhead
        | cons d x =>
          rw [List.cons_append] at hxy
          obtain ⟨rfl, hrest⟩ := List.cons.inj hxy
          rw [List.length_cons, List.length_cons] at hlt
          have hnone := hbefore x y hrest (Nat.lt_of_succ_lt_succ hlt)
          rwa [List.length_cons, ← add_assoc, add_right_comm]

theorem scan_eq_none : scan p i text = none ↔ ∀ x y, text = x ++ y → p (i + x.length) y = none := by
  induction text generalizing i with
  | nil =>
    rw [scan, Option.map_eq_none_iff]
    refine ⟨fun h x y hxy => ?_, fun h => h [] [] rfl⟩
    obtain ⟨rfl, rfl⟩ := List.append_eq_nil_iff.mp hxy.symm
    exact h
  | cons c rest ih =>
    rw [scan]
    constructor
    · intro h
      cases hhead : p i (c :: rest) with
      | some b =>
        rw [hhead] at h
        cases h
      | none =>
        rw [hhead] at h
        intro x y hxy
        cases x with
        | nil =>
          rw [List.nil_append] at hxy
          exact hxy ▸ hhead
        | cons d x =>
          rw [List.cons_append] at hxy
          obtain ⟨rfl, hrest⟩ := List.cons.inj hxy
          have hnone := ih.mp h x y hrest
          rwa [List.length_cons, ← add_assoc, add_right_comm]
    · intro h
      have hhead : p i (c :: rest) = none := h [] (c :: rest) rfl
      rw [hhead]
      dsimp only
      refine ih.mpr fun x y hxy => ?_
      have hnone := h (c :: x) y (by rw [hxy, List.cons_append])
      rwa [List.length_cons, ← add_assoc, add_right_comm] at hnone

/-- Scans that agree at every position. -/
theorem scan_congr (h : ∀ x y, text = x ++ y → p (i + x.length) y = q (i + x.length) y) :
    scan p i text = scan q i text := by
  induction text generalizing i with
  | nil =>
    have hhere : p i [] = q i [] := h [] [] rfl
    rw [scan, scan, hhere]
  | cons c rest ih =>
    have hhere : p i (c :: rest) = q i (c :: rest) := h [] (c :: rest) rfl
    rw [scan, scan, hhere, ih fun x y hxy => ?_]
    have hlater := h (c :: x) y (by rw [hxy, List.cons_append])
    rwa [List.length_cons, ← add_assoc, add_right_comm] at hlater

end

/-! ### Texts that are put together -/

section
variable {p : List α → Option β} {a b c : List α}

theorem exec_of_append (p : List α → Option β) (a b : List α) :
    exec p (a ++ b) a.length = scan (fun _ => p) a.length b := by
  rw [exec, if_pos (by rw [List.length_append]; exact Nat.le_add_right _ _), List.drop_left]

end

section
variable [DecidableEq α] {word a b c : List α}

theorem literal_append (word rest : List α) : literal word (word ++ rest) = some word.length :=
  if_pos (List.prefix_append word rest)

theorem indexOf_of_append (word a b : List α) :
    indexOf word (a ++ b) a.length = (scan (fun _ => literal word) a.length b).map Prod.fst := by
  rw [indexOf, exec_of_append]

end

/-! ### Sections -/

/-- Intervals that are not empty, one after the other. -/
def Ascending (spans : List (ℕ × ℕ)) : Prop :=
  (∀ s ∈ spans, s.1 < s.2) ∧ spans.Pairwise fun s t => s.2 ≤ t.1

def Inside (spans : List (ℕ × ℕ)) (i : ℕ) : Prop := ∃ s ∈ spans, s.1 ≤ i ∧ i < s.2

instance (spans : List (ℕ × ℕ)) (i : ℕ) : Decidable (Inside spans i) :=
  inferInstanceAs (Decidable (∃ s ∈ spans, s.1 ≤ i ∧ i < s.2))

/-- A section with the position, by bisection between `lo` and `hi`. -/
def bisect (spans : List (ℕ × ℕ)) (i : ℕ) : ℕ → ℤ → ℤ → Option (ℕ × ℕ)
  | 0, _, _ => none
  | fuel + 1, lo, hi =>
    if lo ≤ hi then
      let mid := (lo + hi) / 2
      match spans[mid.toNat]? with
      | none => none
      | some s =>
        if i < s.1 then bisect spans i fuel lo (mid - 1)
        else if s.2 ≤ i then bisect spans i fuel (mid + 1) hi
        else some s
    else none

section
variable {spans : List (ℕ × ℕ)} {s : ℕ × ℕ} {i : ℕ}

theorem Ascending.le {j k : ℕ} {t : ℕ × ℕ} (h : Ascending spans) (hjk : j < k) (hs : spans[j]? = some s)
    (ht : spans[k]? = some t) : s.2 ≤ t.1 := by
  obtain ⟨hj, rfl⟩ := List.getElem?_eq_some_iff.mp hs
  obtain ⟨hk, rfl⟩ := List.getElem?_eq_some_iff.mp ht
  exact List.pairwise_iff_getElem.mp h.2 j k hj hk hjk

/-- A section before another one ends before every position that is in the other. -/
theorem Ascending.lt_of_inside {j k : ℕ} {t : ℕ × ℕ} (h : Ascending spans) (hs : spans[j]? = some s)
    (ht : spans[k]? = some t) (hin : t.1 ≤ i) (hlt : i < t.2) :
    (i < s.1 → k < j) ∧ (s.2 ≤ i → j < k) ∧ (s.1 ≤ i → i < s.2 → s = t) := by
  have hnonempty := h.1 s (List.mem_of_getElem? hs)
  rcases Nat.lt_trichotomy j k with hjk | rfl | hkj
  · have horder := h.le hjk hs ht
    exact ⟨fun _ => by omega, fun _ => hjk, fun _ _ => by omega⟩
  · rw [hs] at ht
    obtain rfl := Option.some.inj ht
    exact ⟨fun _ => by omega, fun _ => by omega, fun _ _ => rfl⟩
  · have horder := h.le hkj ht hs
    exact ⟨fun _ => hkj, fun _ => by omega, fun _ _ => by omega⟩

theorem bisect_sound {fuel : ℕ} {lo hi : ℤ} (h : bisect spans i fuel lo hi = some s) :
    s ∈ spans ∧ s.1 ≤ i ∧ i < s.2 := by
  induction fuel generalizing lo hi with
  | zero => cases h
  | succ fuel ih =>
    rw [bisect] at h
    split_ifs at h
    dsimp only at h
    cases hmid : spans[((lo + hi) / 2).toNat]? with
    | none =>
      rw [hmid] at h
      cases h
    | some t =>
      rw [hmid] at h
      dsimp only at h
      split_ifs at h with hbefore hafter
      · exact ih h
      · exact ih h
      · obtain rfl := Option.some.inj h
        exact ⟨List.mem_of_getElem? hmid, not_lt.mp hbefore, not_le.mp hafter⟩

/-- Bisection finds the section with the position, where it is between the bounds. -/
theorem bisect_complete (h : Ascending spans) {k : ℕ} (hs : spans[k]? = some s) (hin : s.1 ≤ i) (hlt : i < s.2)
    {fuel : ℕ} {lo hi : ℤ} (hlo : 0 ≤ lo) (hhi : hi < spans.length) (hlower : lo ≤ k) (hupper : k ≤ hi)
    (hfuel : hi - lo < fuel) : bisect spans i fuel lo hi = some s := by
  induction fuel generalizing lo hi with
  | zero => omega
  | succ fuel ih =>
    rw [bisect, if_pos (hlower.trans hupper)]
    dsimp only
    have hmid : ((lo + hi) / 2).toNat < spans.length := by omega
    have hget := List.getElem?_eq_getElem hmid
    rw [hget]
    dsimp only
    obtain ⟨hleft, hright, hsame⟩ := h.lt_of_inside hget hs hin hlt
    split_ifs with hbefore hafter
    · have hk := hleft hbefore
      exact ih hlo (by omega) hlower (by omega) (by omega)
    · have hk := hright hafter
      exact ih (by omega) hhi (by omega) hupper (by omega)
    · rw [hsame (not_lt.mp hbefore) (not_le.mp hafter)]

/-- A section with the position is found if there is one. -/
theorem bisect_eq_none_iff (h : Ascending spans) :
    bisect spans i spans.length 0 (spans.length - 1) = none ↔ ¬Inside spans i := by
  constructor
  · rintro hnone ⟨s, hs, hin, hlt⟩
    obtain ⟨k, hk⟩ := List.getElem?_of_mem hs
    have hlength := (List.getElem?_eq_some_iff.mp hk).1
    rw [bisect_complete h hk hin hlt le_rfl (by omega) (by omega) (by omega) (by omega)] at hnone
    cases hnone
  · intro hout
    cases hfound : bisect spans i spans.length 0 (spans.length - 1) with
    | none => rfl
    | some s => exact absurd ⟨s, bisect_sound hfound⟩ hout

end

end Scanning
end Foundations
