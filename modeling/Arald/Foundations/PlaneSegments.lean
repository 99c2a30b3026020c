import Mathlib

/-!
# Segments in the plane

Points have coordinates in an ordered field, and a segment is the `segment` of
the vector space. The predicates on coordinates that programs use are compared
with common points of segments: a point in the bounding box and on the line, the
sign test for proper crossings with its degenerate cases, and the two segments
as graphs over a common range of ordinates.
-/

namespace Foundations

variable {K : Type*} [Field K] [LinearOrder K] [IsStrictOrderedRing K]

theorem mem_segment_iff {a b p : K × K} :
    p ∈ segment K a b ↔
      ∃ t : K, 0 ≤ t ∧ t ≤ 1 ∧ p.1 = a.1 + t * (b.1 - a.1) ∧ p.2 = a.2 + t * (b.2 - a.2) := by
  rw [segment_eq_image']
  constructor
  · rintro ⟨t, ⟨h0, h1⟩, rfl⟩
    exact ⟨t, h0, h1, rfl, rfl⟩
  · rintro ⟨t, h0, h1, hx, hy⟩
    exact ⟨t, ⟨h0, h1⟩, Prod.ext hx.symm hy.symm⟩

/-- Twice the signed area of the triangle `a`, `c`, `b`. -/
def signedArea (a b c : K × K) : K := (c.1 - a.1) * (b.2 - a.2) - (b.1 - a.1) * (c.2 - a.2)

theorem between_of_convex {u v t : K} (h0 : 0 ≤ t) (h1 : t ≤ 1) :
    min u v ≤ u + t * (v - u) ∧ u + t * (v - u) ≤ max u v := by
  rcases le_total u v with huv | hvu
  · rw [min_eq_left huv, max_eq_right huv]
    constructor <;> nlinarith
  · rw [min_eq_right hvu, max_eq_left hvu]
    constructor <;> nlinarith

/-- A number between two different ones divides their distance in a ratio of the unit interval. -/
theorem ratio_mem_unit {u v w : K} (hne : u ≠ v) (hmin : min u v ≤ w) (hmax : w ≤ max u v) :
    0 ≤ (w - u) / (v - u) ∧ (w - u) / (v - u) ≤ 1 := by
  rcases lt_or_gt_of_ne hne with huv | hvu
  · rw [min_eq_left huv.le] at hmin
    rw [max_eq_right huv.le] at hmax
    have hpos : 0 < v - u := sub_pos.mpr huv
    exact ⟨div_nonneg (sub_nonneg.mpr hmin) hpos.le, (div_le_one hpos).mpr (by linarith)⟩
  · rw [min_eq_right hvu.le] at hmin
    rw [max_eq_left hvu.le] at hmax
    have hneg : v - u < 0 := sub_neg.mpr hvu
    exact ⟨div_nonneg_of_nonpos (by linarith) hneg.le, (div_le_one_of_neg hneg).mpr (by linarith)⟩

/-- A point is on a segment when it is on its line and in its bounding box. -/
theorem mem_segment_iff_box {a b c : K × K} :
    c ∈ segment K a b ↔
      signedArea a b c = 0 ∧ min a.1 b.1 ≤ c.1 ∧ c.1 ≤ max a.1 b.1 ∧ min a.2 b.2 ≤ c.2 ∧
        c.2 ≤ max a.2 b.2 := by
  rw [mem_segment_iff, signedArea]
  constructor
  · rintro ⟨t, h0, h1, hx, hy⟩
    obtain ⟨hminx, hmaxx⟩ := between_of_convex (u := a.1) (v := b.1) h0 h1
    obtain ⟨hminy, hmaxy⟩ := between_of_convex (u := a.2) (v := b.2) h0 h1
    rw [hx, hy]
    exact ⟨by ring, hminx, hmaxx, hminy, hmaxy⟩
  · rintro ⟨hline, hminx, hmaxx, hminy, hmaxy⟩
    by_cases hx : a.1 = b.1
    · have hcx : c.1 = a.1 := by
        rw [← hx, min_self] at hminx
        rw [← hx, max_self] at hmaxx
        exact le_antisymm hmaxx hminx
      by_cases hy : a.2 = b.2
      · rw [← hy, min_self] at hminy
        rw [← hy, max_self] at hmaxy
        refine ⟨0, le_rfl, zero_le_one, by rw [hcx]; ring, ?_⟩
        rw [le_antisymm hmaxy hminy]
        ring
      · obtain ⟨h0, h1⟩ := ratio_mem_unit hy hminy hmaxy
        have hne : b.2 - a.2 ≠ 0 := sub_ne_zero.mpr (Ne.symm hy)
        refine ⟨(c.2 - a.2) / (b.2 - a.2), h0, h1, ?_, ?_⟩
        · rw [hcx, ← hx]
          ring
        · rw [div_mul_cancel₀ _ hne]
          ring
    · obtain ⟨h0, h1⟩ := ratio_mem_unit hx hminx hmaxx
      have hne : b.1 - a.1 ≠ 0 := sub_ne_zero.mpr (Ne.symm hx)
      refine ⟨(c.1 - a.1) / (b.1 - a.1), h0, h1, ?_, ?_⟩
      · rw [div_mul_cancel₀ _ hne]
        ring
      · field_simp
        linarith

/-! ### Crossings -/

/-- Two numbers of strictly opposite signs. -/
def Opposite (x y : K) : Prop := 0 < x ∧ y < 0 ∨ x < 0 ∧ 0 < y

instance (x y : K) : Decidable (Opposite x y) := inferInstanceAs (Decidable (_ ∨ _))

theorem Opposite.ratio {x y : K} (h : Opposite x y) :
    x - y ≠ 0 ∧ 0 ≤ x / (x - y) ∧ x / (x - y) ≤ 1 := by
  rcases h with ⟨hx, hy⟩ | ⟨hx, hy⟩
  · have hpos : 0 < x - y := by linarith
    exact ⟨hpos.ne', (div_pos hx hpos).le, (div_le_one hpos).mpr (by linarith)⟩
  · have hneg : x - y < 0 := by linarith
    exact ⟨hneg.ne, (div_pos_of_neg_of_neg hx hneg).le, (div_le_one_of_neg hneg).mpr (by linarith)⟩

variable {p₁ p₂ p₃ p₄ : K × K}

/-- Segments whose end points lie strictly on different sides of one another have a common point. -/
theorem exists_common_of_opposite
    (h : Opposite (signedArea p₃ p₄ p₁) (signedArea p₃ p₄ p₂))
    (h' : Opposite (signedArea p₁ p₂ p₃) (signedArea p₁ p₂ p₄)) :
    ∃ p, p ∈ segment K p₁ p₂ ∧ p ∈ segment K p₃ p₄ := by
  obtain ⟨hne, h0, h1⟩ := h.ratio
  obtain ⟨hne', h0', h1'⟩ := h'.ratio
  have hsum : signedArea p₁ p₂ p₃ - signedArea p₁ p₂ p₄ =
      -(signedArea p₃ p₄ p₁ - signedArea p₃ p₄ p₂) := by
    rw [signedArea, signedArea, signedArea, signedArea]
    ring
  set t := signedArea p₃ p₄ p₁ / (signedArea p₃ p₄ p₁ - signedArea p₃ p₄ p₂) with ht
  set s := signedArea p₁ p₂ p₃ / (signedArea p₁ p₂ p₃ - signedArea p₁ p₂ p₄) with hs
  refine ⟨(p₁.1 + t * (p₂.1 - p₁.1), p₁.2 + t * (p₂.2 - p₁.2)),
    mem_segment_iff.mpr ⟨t, h0, h1, rfl, rfl⟩, mem_segment_iff.mpr ⟨s, h0', h1', ?_, ?_⟩⟩
  · rw [hsum] at hs
    rw [ht, hs]
    field_simp
    rw [signedArea, signedArea, signedArea]
    ring
  · rw [hsum] at hs
    rw [ht, hs]
    field_simp
    rw [signedArea, signedArea, signedArea]
    ring

/-- Of two overlapping segments on one line, one has an end point on the other. -/
theorem endPoint_of_parallel {p : K × K} {t s l : K} (h0 : 0 < t) (h1 : t < 1) (h0' : 0 < s)
    (h1' : s < 1) (hx : p.1 = p₁.1 + t * (p₂.1 - p₁.1)) (hy : p.2 = p₁.2 + t * (p₂.2 - p₁.2))
    (hx' : p.1 = p₃.1 + s * (p₄.1 - p₃.1)) (hy' : p.2 = p₃.2 + s * (p₄.2 - p₃.2))
    (hlx : p₄.1 - p₃.1 = l * (p₂.1 - p₁.1)) (hly : p₄.2 - p₃.2 = l * (p₂.2 - p₁.2)) :
    p₁ ∈ segment K p₃ p₄ ∨ p₃ ∈ segment K p₁ p₂ ∨ p₄ ∈ segment K p₁ p₂ := by
  rw [hlx] at hx'
  rw [hly] at hy'
  rcases lt_trichotomy l 0 with hl | rfl | hl
  · -- the second segment runs the other way: `p₄` comes first
    by_cases hfirst : 0 ≤ t + (1 - s) * l
    · refine Or.inr (Or.inr (mem_segment_iff.mpr ⟨t + (1 - s) * l, hfirst, by nlinarith, ?_, ?_⟩))
      · linear_combination hlx - hx' + hx
      · linear_combination hly - hy' + hy
    · have hneg : t + (1 - s) * l < 0 := not_le.mp hfirst
      have hmul : (s - t / l) * l = s * l - t := by rw [sub_mul, div_mul_cancel₀ _ hl.ne]
      refine Or.inl (mem_segment_iff.mpr ⟨s - t / l, ?_, ?_, ?_, ?_⟩)
      · have := div_neg_of_pos_of_neg h0 hl
        linarith
      · have hdiv : -t / l ≤ 1 - s := (div_le_iff_of_neg hl).mpr (by linarith)
        rw [neg_div] at hdiv
        linarith
      · rw [hlx]
        linear_combination hx' - hx - (p₂.1 - p₁.1) * hmul
      · rw [hly]
        linear_combination hy' - hy - (p₂.2 - p₁.2) * hmul
  · refine Or.inr (Or.inl (mem_segment_iff.mpr ⟨t, h0.le, h1.le, ?_, ?_⟩))
    · linear_combination hx - hx'
    · linear_combination hy - hy'
  · by_cases hfirst : 0 ≤ t - s * l
    · refine Or.inr (Or.inl (mem_segment_iff.mpr ⟨t - s * l, hfirst, by nlinarith, ?_, ?_⟩))
      · linear_combination hx - hx'
      · linear_combination hy - hy'
    · have hneg : t - s * l < 0 := not_le.mp hfirst
      have hmul : (s - t / l) * l = s * l - t := by rw [sub_mul, div_mul_cancel₀ _ hl.ne']
      refine Or.inl (mem_segment_iff.mpr ⟨s - t / l, ?_, ?_, ?_, ?_⟩)
      · have hdiv : t / l ≤ s := (div_le_iff₀ hl).mpr (by linarith)
        linarith
      · have := div_pos h0 hl
        linarith
      · rw [hlx]
        linear_combination hx' - hx - (p₂.1 - p₁.1) * hmul
      · rw [hly]
        linear_combination hy' - hy - (p₂.2 - p₁.2) * hmul

/-- A vector with no area to a nonzero one is a multiple of it. -/
theorem exists_multiple {r w : K × K} (harea : r.1 * w.2 = r.2 * w.1) (hne : r ≠ 0) :
    ∃ l : K, w.1 = l * r.1 ∧ w.2 = l * r.2 := by
  by_cases hx : r.1 = 0
  · have hy : r.2 ≠ 0 := fun hy => hne (Prod.ext hx hy)
    refine ⟨w.2 / r.2, ?_, (div_mul_cancel₀ _ hy).symm⟩
    rw [hx, zero_mul] at harea
    rw [hx, mul_zero]
    exact (mul_eq_zero.mp harea.symm).resolve_left hy
  · refine ⟨w.1 / r.1, (div_mul_cancel₀ _ hx).symm, ?_⟩
    field_simp
    linarith

theorem opposite_mul {t c : K} (h0 : 0 < t) (h1 : t < 1) (hc : c ≠ 0) :
    Opposite (-t * c) ((1 - t) * c) := by
  rcases lt_or_gt_of_ne hc with hneg | hpos
  · exact Or.inl ⟨mul_pos_of_neg_of_neg (neg_neg_of_pos h0) hneg,
      mul_neg_of_pos_of_neg (sub_pos.mpr h1) hneg⟩
  · exact Or.inr ⟨mul_neg_of_neg_of_pos (neg_neg_of_pos h0) hpos, mul_pos (sub_pos.mpr h1) hpos⟩

/-- Two segments have a common point when they cross properly, or when an end point of one lies on
the other. -/
theorem exists_common_iff :
    (∃ p, p ∈ segment K p₁ p₂ ∧ p ∈ segment K p₃ p₄) ↔
      Opposite (signedArea p₃ p₄ p₁) (signedArea p₃ p₄ p₂) ∧
          Opposite (signedArea p₁ p₂ p₃) (signedArea p₁ p₂ p₄) ∨
        p₁ ∈ segment K p₃ p₄ ∨ p₂ ∈ segment K p₃ p₄ ∨ p₃ ∈ segment K p₁ p₂ ∨
          p₄ ∈ segment K p₁ p₂ := by
  constructor
  · rintro ⟨p, hp, hp'⟩
    obtain ⟨t, h0, h1, hx, hy⟩ := mem_segment_iff.mp hp
    obtain ⟨s, h0', h1', hx', hy'⟩ := mem_segment_iff.mp hp'
    rcases h0.eq_or_lt with rfl | h0
    · have heq : p = p₁ := Prod.ext (by rw [hx]; ring) (by rw [hy]; ring)
      exact Or.inr (Or.inl (heq ▸ hp'))
    rcases h1.eq_or_lt with rfl | h1
    · have heq : p = p₂ := Prod.ext (by rw [hx]; ring) (by rw [hy]; ring)
      exact Or.inr (Or.inr (Or.inl (heq ▸ hp')))
    rcases h0'.eq_or_lt with rfl | h0'
    · have heq : p = p₃ := Prod.ext (by rw [hx']; ring) (by rw [hy']; ring)
      exact Or.inr (Or.inr (Or.inr (Or.inl (heq ▸ hp))))
    rcases h1'.eq_or_lt with rfl | h1'
    · have heq : p = p₄ := Prod.ext (by rw [hx']; ring) (by rw [hy']; ring)
      exact Or.inr (Or.inr (Or.inr (Or.inr (heq ▸ hp))))
    -- the four areas are multiples of the area spanned by the two directions
    set c := (p₂.1 - p₁.1) * (p₄.2 - p₃.2) - (p₂.2 - p₁.2) * (p₄.1 - p₃.1) with hc
    have hd₁ : signedArea p₃ p₄ p₁ = -t * c := by
      rw [signedArea, hc]
      linear_combination (p₄.2 - p₃.2) * (hx' - hx) - (p₄.1 - p₃.1) * (hy' - hy)
    have hd₂ : signedArea p₃ p₄ p₂ = (1 - t) * c := by
      rw [signedArea, hc]
      linear_combination (p₄.2 - p₃.2) * (hx' - hx) - (p₄.1 - p₃.1) * (hy' - hy)
    have hd₃ : signedArea p₁ p₂ p₃ = s * c := by
      rw [signedArea, hc]
      linear_combination (p₂.2 - p₁.2) * (hx - hx') - (p₂.1 - p₁.1) * (hy - hy')
    have hd₄ : signedArea p₁ p₂ p₄ = (s - 1) * c := by
      rw [signedArea, hc]
      linear_combination (p₂.2 - p₁.2) * (hx - hx') - (p₂.1 - p₁.1) * (hy - hy')
    by_cases hzero : c = 0
    · by_cases hne : p₂ - p₁ = 0
      · have heq : p₂ = p₁ := sub_eq_zero.mp hne
        rw [heq, segment_same, Set.mem_singleton_iff] at hp
        exact Or.inr (Or.inl (hp ▸ hp'))
      · have harea : (p₂ - p₁).1 * (p₄ - p₃).2 = (p₂ - p₁).2 * (p₄ - p₃).1 :=
          sub_eq_zero.mp (hc.symm.trans hzero)
        obtain ⟨l, hlx, hly⟩ := exists_multiple harea hne
        rcases endPoint_of_parallel h0 h1 h0' h1' hx hy hx' hy' hlx hly with h | h | h
        · exact Or.inr (Or.inl h)
        · exact Or.inr (Or.inr (Or.inr (Or.inl h)))
        · exact Or.inr (Or.inr (Or.inr (Or.inr h)))
    · have h₁₂ := opposite_mul h0 h1 hzero
      have h₃₄ := opposite_mul h0' h1' (neg_ne_zero.mpr hzero)
      rw [← hd₁, ← hd₂] at h₁₂
      rw [show -s * -c = s * c by ring, show (1 - s) * -c = (s - 1) * c by ring, ← hd₃, ← hd₄]
        at h₃₄
      exact Or.inl ⟨h₁₂, h₃₄⟩
  · rintro (⟨h, h'⟩ | h | h | h | h)
    · exact exists_common_of_opposite h h'
    · exact ⟨p₁, left_mem_segment K p₁ p₂, h⟩
    · exact ⟨p₂, right_mem_segment K p₁ p₂, h⟩
    · exact ⟨p₃, h, left_mem_segment K p₃ p₄⟩
    · exact ⟨p₄, h, right_mem_segment K p₃ p₄⟩

/-! ### Segments as graphs over ordinates -/

/-- Where the line through `u` and `v` is at ordinate `y`. -/
def lineX (u v : K × K) (y : K) : K := (v.1 - u.1) * (y - u.2) / (v.2 - u.2) + u.1

variable {p q u v : K × K} {y y₀ y₁ : K}

omit [LinearOrder K] [IsStrictOrderedRing K] in
theorem lineX_left (u v : K × K) : lineX u v u.2 = u.1 := by
  rw [lineX, sub_self, mul_zero, zero_div, zero_add]

omit [LinearOrder K] [IsStrictOrderedRing K] in
theorem lineX_right (hne : u.2 ≠ v.2) : lineX u v v.2 = v.1 := by
  rw [lineX, mul_div_cancel_right₀ _ (sub_ne_zero.mpr (Ne.symm hne)), sub_add_cancel]

omit [LinearOrder K] [IsStrictOrderedRing K] in
theorem lineX_comm (hne : u.2 ≠ v.2) (y : K) : lineX u v y = lineX v u y := by
  have h : v.2 - u.2 ≠ 0 := sub_ne_zero.mpr (Ne.symm hne)
  have h' : u.2 - v.2 ≠ 0 := sub_ne_zero.mpr hne
  rw [lineX, lineX]
  field_simp
  ring

omit [LinearOrder K] [IsStrictOrderedRing K] in
theorem lineX_convex (u v : K × K) (y₀ y₁ t : K) :
    lineX u v (y₀ + t * (y₁ - y₀)) = lineX u v y₀ + t * (lineX u v y₁ - lineX u v y₀) := by
  rw [lineX, lineX, lineX]
  ring

theorem lineX_mem_segment (hne : u.2 ≠ v.2) (hy : y ∈ Set.uIcc u.2 v.2) :
    (lineX u v y, y) ∈ segment K u v := by
  obtain ⟨h0, h1⟩ := ratio_mem_unit hne hy.1 hy.2
  refine mem_segment_iff.mpr ⟨(y - u.2) / (v.2 - u.2), h0, h1, ?_, ?_⟩
  · rw [lineX]
    ring
  · rw [div_mul_cancel₀ _ (sub_ne_zero.mpr (Ne.symm hne))]
    ring

/-- Disjoint segments keep their order from left to right over their common range. -/
theorem lineX_lt_of_disjoint (hdisj : ∀ w, w ∈ segment K p q → w ∉ segment K u v)
    (hpq : p.2 ≠ q.2) (huv : u.2 ≠ v.2) (h₀ : y₀ ∈ Set.uIcc p.2 q.2) (h₀' : y₀ ∈ Set.uIcc u.2 v.2)
    (h₁ : y₁ ∈ Set.uIcc p.2 q.2) (h₁' : y₁ ∈ Set.uIcc u.2 v.2)
    (hlt : lineX p q y₀ < lineX u v y₀) : lineX p q y₁ < lineX u v y₁ := by
  by_contra hge
  rw [not_lt] at hge
  -- the difference changes sign, so it vanishes at an ordinate in between
  set t := (lineX u v y₀ - lineX p q y₀) /
    ((lineX u v y₀ - lineX p q y₀) + (lineX p q y₁ - lineX u v y₁)) with ht
  have hpos : 0 < (lineX u v y₀ - lineX p q y₀) + (lineX p q y₁ - lineX u v y₁) := by linarith
  have ht0 : 0 ≤ t := div_nonneg (by linarith) hpos.le
  have ht1 : t ≤ 1 := (div_le_one hpos).mpr (by linarith)
  have hmul : t * ((lineX u v y₀ - lineX p q y₀) + (lineX p q y₁ - lineX u v y₁)) =
      lineX u v y₀ - lineX p q y₀ := div_mul_cancel₀ _ hpos.ne'
  have hmem : y₀ + t * (y₁ - y₀) ∈ Set.uIcc y₀ y₁ := between_of_convex ht0 ht1
  have heq : lineX p q (y₀ + t * (y₁ - y₀)) = lineX u v (y₀ + t * (y₁ - y₀)) := by
    rw [lineX_convex, lineX_convex]
    linarith
  refine hdisj _ (lineX_mem_segment hpq (Set.uIcc_subset_uIcc h₀ h₁ hmem)) ?_
  rw [heq]
  exact lineX_mem_segment huv (Set.uIcc_subset_uIcc h₀' h₁' hmem)

/-- A horizontal segment that misses a point of its height is on one side of it. -/
theorem beside_of_horizontal {x : K} (hpq : p.2 = q.2) (hmiss : (x, p.2) ∉ segment K p q) :
    (x < p.1 ∧ x < q.1) ∨ (p.1 < x ∧ q.1 < x) := by
  by_contra hbetween
  rw [not_or, ← lt_min_iff, ← max_lt_iff, not_lt, not_lt] at hbetween
  refine hmiss (mem_segment_iff_box.mpr ⟨?_, hbetween.1, hbetween.2, min_le_left .., le_max_left ..⟩)
  rw [signedArea, ← hpq]
  ring

/-! ### Rays to the right -/

/-- The ray from `p` to the right crosses the edge `u`, `v`; an end point belongs to the part
above it. -/
def rayCrosses (u v p : K × K) : Bool :=
  (decide (p.2 < u.2) != decide (p.2 < v.2)) && decide (p.1 < lineX u v p.2)

/-- The point `w` is to the right of the segment `p`, `q`, at the height of one of its points. -/
def rightOf (p q w : K × K) : Bool :=
  (decide (p.2 < w.2) != decide (q.2 < w.2)) && decide (lineX p q w.2 < w.1)

omit [IsStrictOrderedRing K] in
theorem rayCrosses_swap (u v p : K × K) : rayCrosses u v p = rayCrosses v u p := by
  rw [rayCrosses, rayCrosses, bne_comm]
  by_cases hne : u.2 = v.2
  · rw [hne, bne_self_eq_false, Bool.false_and, Bool.false_and]
  · rw [lineX_comm hne]

omit [Field K] [IsStrictOrderedRing K] in
/-- Heights told apart by a strict comparison enclose the one they are compared with. -/
theorem mem_uIcc_of_bne {y a b : K} (h : (decide (y < a) != decide (y < b)) = true) :
    y ∈ Set.uIcc a b := by
  rcases lt_or_ge y a with ha | ha
  · rw [decide_eq_true ha, Bool.true_bne, Bool.not_eq_true', decide_eq_false_iff_not] at h
    exact Set.mem_uIcc.mpr (Or.inr ⟨not_lt.mp h, ha.le⟩)
  · rw [decide_eq_false ha.not_gt, Bool.false_bne, decide_eq_true_iff] at h
    exact Set.mem_uIcc.mpr (Or.inl ⟨ha, h.le⟩)

omit [Field K] [IsStrictOrderedRing K] in
theorem ne_of_straddle {y a b : K} (h : (decide (y < a) != decide (y < b)) = true) : a ≠ b := by
  rintro rfl
  rw [bne_self_eq_false] at h
  cases h

omit [Field K] [IsStrictOrderedRing K] in
theorem mem_uIcc_of_bne' {y a b : K} (h : (decide (a < y) != decide (b < y)) = true) :
    y ∈ Set.uIcc a b := by
  rcases lt_or_ge a y with ha | ha
  · rw [decide_eq_true ha, Bool.true_bne, Bool.not_eq_true', decide_eq_false_iff_not] at h
    exact Set.mem_uIcc.mpr (Or.inl ⟨ha.le, not_lt.mp h⟩)
  · rw [decide_eq_false ha.not_gt, Bool.false_bne, decide_eq_true_iff] at h
    exact Set.mem_uIcc.mpr (Or.inr ⟨h.le, ha⟩)

/-- Over the common range of two disjoint segments the comparison has one value. -/
theorem exists_side (hdisj : ∀ w, w ∈ segment K p q → w ∉ segment K u v) (hpq : p.2 ≠ q.2)
    (huv : u.2 ≠ v.2) :
    ∃ side : Bool, ∀ y, y ∈ Set.uIcc p.2 q.2 → y ∈ Set.uIcc u.2 v.2 →
      decide (lineX p q y < lineX u v y) = side := by
  by_cases hcommon : ∃ y, y ∈ Set.uIcc p.2 q.2 ∧ y ∈ Set.uIcc u.2 v.2
  · obtain ⟨y₀, h₀, h₀'⟩ := hcommon
    refine ⟨decide (lineX p q y₀ < lineX u v y₀), fun y hy hy' => decide_eq_decide.mpr ⟨?_, ?_⟩⟩
    · exact lineX_lt_of_disjoint hdisj hpq huv hy hy' h₀ h₀'
    · exact lineX_lt_of_disjoint hdisj hpq huv h₀ h₀' hy hy'
  · exact ⟨true, fun y hy hy' => absurd ⟨y, hy, hy'⟩ hcommon⟩

theorem and_eq_of_imp {a b c : Bool} (h : a = true → b = c) : (a && b) = (a && c) := by
  cases a with
  | false => rfl
  | true => exact congrArg (true && ·) (h rfl)

theorem straddles_xor (pu pv qu qv side : Bool) :
    (((pu != pv) && side) ^^ ((qu != qv) && side)) =
      (((pu != qu) && side) ^^ ((pv != qv) && side)) := by
  revert pu pv qu qv side
  decide

/-- Moving along a segment that misses an edge, the crossing of that edge changes only when one of
its ends changes sides. -/
theorem rayCrosses_xor (hdisj : ∀ w, w ∈ segment K p q → w ∉ segment K u v) :
    (rayCrosses u v p ^^ rayCrosses u v q) = (rightOf p q u ^^ rightOf p q v) := by
  by_cases hpq : p.2 = q.2
  · have hright : ∀ w, rightOf p q w = false := fun w => by
      rw [rightOf, hpq, bne_self_eq_false, Bool.false_and]
    rw [hright, hright, rayCrosses, rayCrosses, ← hpq]
    rw [and_eq_of_imp (c := decide (q.1 < lineX u v p.2)), Bool.xor_self, Bool.xor_self]
    intro hstraddle
    have hmem := lineX_mem_segment (ne_of_straddle hstraddle) (mem_uIcc_of_bne hstraddle)
    rcases beside_of_horizontal hpq fun hon => hdisj _ hon hmem with ⟨hp, hq⟩ | ⟨hp, hq⟩
    · rw [decide_eq_false hp.not_gt, decide_eq_false hq.not_gt]
    · rw [decide_eq_true hp, decide_eq_true hq]
  by_cases huv : u.2 = v.2
  · have hcross : ∀ w, rayCrosses u v w = false := fun w => by
      rw [rayCrosses, huv, bne_self_eq_false, Bool.false_and]
    rw [hcross, hcross, rightOf, rightOf, ← huv]
    rw [and_eq_of_imp (c := decide (lineX p q u.2 < v.1)), Bool.xor_self, Bool.xor_self]
    intro hstrip
    have hmem := lineX_mem_segment hpq (mem_uIcc_of_bne' hstrip)
    rcases beside_of_horizontal huv fun hon => hdisj _ hmem hon with ⟨hu, hv⟩ | ⟨hu, hv⟩
    · rw [decide_eq_true hu, decide_eq_true hv]
    · rw [decide_eq_false hu.not_gt, decide_eq_false hv.not_gt]
  · obtain ⟨side, hside⟩ := exists_side hdisj hpq huv
    have hp : rayCrosses u v p = ((decide (p.2 < u.2) != decide (p.2 < v.2)) && side) := by
      refine and_eq_of_imp fun h => ?_
      rw [← hside p.2 Set.left_mem_uIcc (mem_uIcc_of_bne h), lineX_left]
    have hq : rayCrosses u v q = ((decide (q.2 < u.2) != decide (q.2 < v.2)) && side) := by
      refine and_eq_of_imp fun h => ?_
      rw [← hside q.2 Set.right_mem_uIcc (mem_uIcc_of_bne h), lineX_right hpq]
    have hu : rightOf p q u = ((decide (p.2 < u.2) != decide (q.2 < u.2)) && side) := by
      refine and_eq_of_imp fun h => ?_
      rw [← hside u.2 (mem_uIcc_of_bne' h) Set.left_mem_uIcc, lineX_left]
    have hv : rightOf p q v = ((decide (p.2 < v.2) != decide (q.2 < v.2)) && side) := by
      refine and_eq_of_imp fun h => ?_
      rw [← hside v.2 (mem_uIcc_of_bne' h) Set.right_mem_uIcc, lineX_right huv]
    rw [hp, hq, hu, hv]
    exact straddles_xor ..

end Foundations
