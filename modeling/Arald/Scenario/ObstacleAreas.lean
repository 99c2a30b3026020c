import Arald.Foundations.PlaneSegments

/-!
# Obstacle areas

The geometry of the failure areas of a scenario, with exact rational
coordinates: a point `(x, y)` is in a circle or inside a polygon by the even-odd
rule, and a link touches an area. A polygon is closed: each vertex is joined to
the one before it, the first to the last.
-/

namespace Arald.Scenario

open Foundations

abbrev Pt := ℚ × ℚ

inductive ResolvedShape
  | circle (center : Pt) (r : ℚ)
  | polygon (points : List Pt)

/-- `Math.hypot(dx, dy) <= r`. -/
def hypotLe (dx dy r : ℚ) : Bool := decide (0 ≤ r) && decide (dx * dx + dy * dy ≤ r * r)

/-- The edges in the order of the loops `for (let i = 0, j = length - 1; …; j = i++)`. -/
def edgesFrom (previous : Pt) : List Pt → List (Pt × Pt)
  | [] => []
  | a :: rest => (a, previous) :: edgesFrom a rest

def edges (poly : List Pt) : List (Pt × Pt) :=
  match poly.getLast? with
  | none => []
  | some last => edgesFrom last poly

def pointInPolygon (x y : ℚ) (poly : List Pt) : Bool :=
  (edges poly).foldl (fun inside e =>
    let (a, b) := e
    if (decide (a.2 > y) != decide (b.2 > y)) &&
        decide (x < (b.1 - a.1) * (y - a.2) / (b.2 - a.2) + a.1) then !inside
    else inside) false

def pointInArea (area : ResolvedShape) (x y : ℚ) : Bool :=
  match area with
  | .circle c r => hypotLe (x - c.1) (y - c.2) r
  | .polygon points => pointInPolygon x y points

/-- `on` of `segmentsCross`: an end point of one segment lies on the other. -/
def onSegment (a b c : Pt) (dd : ℚ) : Bool :=
  decide (dd = 0) && decide (min a.1 b.1 ≤ c.1) && decide (c.1 ≤ max a.1 b.1) &&
    decide (min a.2 b.2 ≤ c.2) && decide (c.2 ≤ max a.2 b.2)

def segmentsCross (p1 p2 p3 p4 : Pt) : Bool :=
  let d := fun a b c : Pt => (c.1 - a.1) * (b.2 - a.2) - (b.1 - a.1) * (c.2 - a.2)
  let d1 := d p3 p4 p1
  let d2 := d p3 p4 p2
  let d3 := d p1 p2 p3
  let d4 := d p1 p2 p4
  if (d1 > 0 ∧ d2 < 0 ∨ d1 < 0 ∧ d2 > 0) ∧ (d3 > 0 ∧ d4 < 0 ∨ d3 < 0 ∧ d4 > 0) then true
  else onSegment p3 p4 p1 d1 || onSegment p3 p4 p2 d2 || onSegment p1 p2 p3 d3 ||
    onSegment p1 p2 p4 d4

def segmentTouchesArea (area : ResolvedShape) (a b : Pt) : Bool :=
  match area with
  | .circle c r =>
    let vx := b.1 - a.1
    let vy := b.2 - a.2
    let len2 := vx * vx + vy * vy
    let f := if len2 = 0 then 0
      else max 0 (min 1 (((c.1 - a.1) * vx + (c.2 - a.2) * vy) / len2))
    hypotLe (c.1 - (a.1 + f * vx)) (c.2 - (a.2 + f * vy)) r
  | .polygon poly =>
    if pointInPolygon a.1 a.2 poly || pointInPolygon b.1 b.2 poly then true
    else (edges poly).any fun e => segmentsCross a b e.1 e.2

/-- The points of the edges of a polygon. -/
def boundary (poly : List Pt) : Set Pt := {p | ∃ e ∈ edges poly, p ∈ segment ℚ e.1 e.2}

/-! ### Closed chains of edges -/

theorem edgesFrom_append (previous : Pt) (l : List Pt) (a : Pt) :
    edgesFrom previous (l ++ [a]) = edgesFrom previous l ++ [(a, l.getLast?.getD previous)] := by
  induction l generalizing previous with
  | nil => rfl
  | cons b l ih =>
    rw [List.cons_append, edgesFrom, edgesFrom, ih, List.cons_append]
    cases l with
    | nil => rfl
    | cons c l => rw [List.getLast?_cons_cons, List.getLast?_cons, Option.getD_some, Option.getD_some]

theorem edges_append (l : List Pt) (a : Pt) : edges (l ++ [a]) = edgesFrom a (l ++ [a]) := by
  rw [edges, List.getLast?_concat]

theorem edges_cons_perm (a : Pt) (l : List Pt) : (edges (a :: l)).Perm (edgesFrom a (l ++ [a])) := by
  rw [edges, List.getLast?_cons, edgesFrom_append]
  exact (List.perm_append_singleton (a, l.getLast?.getD a) (edgesFrom a l)).symm

theorem edges_rotate_perm (poly : List Pt) (k : ℕ) : (edges (poly.rotate k)).Perm (edges poly) := by
  induction k with
  | zero => rw [List.rotate_zero]
  | succ k ih =>
    rw [← List.rotate_rotate]
    refine List.Perm.trans ?_ ih
    cases poly.rotate k with
    | nil => exact .nil
    | cons a l =>
      rw [List.rotate_cons_succ, List.rotate_zero, edges_append]
      exact (edges_cons_perm a l).symm

theorem edgesFrom_reverse_perm (a b : Pt) (l : List Pt) :
    (edgesFrom a (l.reverse ++ [b])).Perm ((edgesFrom b (l ++ [a])).map Prod.swap) := by
  induction l generalizing b with
  | nil => exact .refl _
  | cons c l ih =>
    rw [List.reverse_cons, edgesFrom_append, List.getLast?_concat, Option.getD_some]
    exact List.perm_append_comm.trans ((ih c).cons (b, c))

theorem edges_reverse_perm (poly : List Pt) :
    (edges poly.reverse).Perm ((edges poly).map Prod.swap) := by
  cases poly with
  | nil => exact .nil
  | cons a l =>
    rw [List.reverse_cons, edges_append]
    exact (edgesFrom_reverse_perm a a l).trans ((edges_cons_perm a l).map Prod.swap).symm

/-- Whatever is toggled at both ends of every edge of a closed chain is toggled an even number of
times. -/
theorem foldl_xor_edgesFrom (h : Pt → Bool) (previous : Pt) (l : List Pt) (x : Bool) :
    (edgesFrom previous l).foldl (fun x e => x ^^ (h e.1 ^^ h e.2)) x =
      (x ^^ (h (l.getLast?.getD previous) ^^ h previous)) := by
  induction l generalizing previous x with
  | nil => rw [List.getLast?_nil, Option.getD_none, Bool.xor_self, Bool.xor_false]; rfl
  | cons a l ih =>
    rw [edgesFrom, List.foldl_cons, ih, List.getLast?_cons, Option.getD_some, Bool.xor_assoc]
    congr 1
    generalize h (l.getLast?.getD a) = e
    generalize h a = f
    generalize h previous = g
    revert e f g
    decide

theorem foldl_xor_edges (h : Pt → Bool) (poly : List Pt) (x : Bool) :
    (edges poly).foldl (fun x e => x ^^ (h e.1 ^^ h e.2)) x = x := by
  cases poly with
  | nil => rfl
  | cons a l =>
    rw [edges, List.getLast?_cons]
    change (edgesFrom (l.getLast?.getD a) (a :: l)).foldl _ x = x
    rw [foldl_xor_edgesFrom, List.getLast?_cons, Option.getD_some, Bool.xor_self, Bool.xor_false]

/-! ### The even-odd rule -/

theorem pointInPolygon_eq (x y : ℚ) (poly : List Pt) :
    pointInPolygon x y poly =
      (edges poly).foldl (fun inside e => inside ^^ rayCrosses e.1 e.2 (x, y)) false := by
  rw [pointInPolygon]
  congr 1
  funext inside e
  change (if rayCrosses e.1 e.2 (x, y) = true then !inside else inside) = _
  cases rayCrosses e.1 e.2 (x, y) with
  | true => rw [if_pos rfl, Bool.xor_true]
  | false => rw [if_neg Bool.false_ne_true, Bool.xor_false]

theorem foldl_xor_perm {f : Pt × Pt → Bool} {l l' : List (Pt × Pt)} (h : l.Perm l') (x : Bool) :
    l.foldl (fun x e => x ^^ f e) x = l'.foldl (fun x e => x ^^ f e) x := by
  have : RightCommutative fun (x : Bool) e => x ^^ f e :=
    ⟨fun x e e' => by rw [Bool.xor_assoc, Bool.xor_comm (f e), ← Bool.xor_assoc]⟩
  exact h.foldl_eq x

theorem foldl_xor_xor (f g : Pt × Pt → Bool) (l : List (Pt × Pt)) (x y : Bool) :
    (l.foldl (fun x e => x ^^ f e) x ^^ l.foldl (fun x e => x ^^ g e) y) =
      l.foldl (fun x e => x ^^ (f e ^^ g e)) (x ^^ y) := by
  induction l generalizing x y with
  | nil => rfl
  | cons e l ih =>
    rw [List.foldl_cons, List.foldl_cons, List.foldl_cons, ih]
    congr 1
    generalize f e = fe
    generalize g e = ge
    revert x y fe ge
    decide

theorem foldl_xor_congr {f g : Pt × Pt → Bool} {l : List (Pt × Pt)} (h : ∀ e ∈ l, f e = g e)
    (x : Bool) : l.foldl (fun x e => x ^^ f e) x = l.foldl (fun x e => x ^^ g e) x := by
  induction l generalizing x with
  | nil => rfl
  | cons e l ih =>
    rw [List.foldl_cons, List.foldl_cons, h e List.mem_cons_self,
      ih fun e' he' => h e' (List.mem_cons_of_mem _ he')]

/-- The even-odd rule has one value along a segment that meets no edge. -/
theorem pointInPolygon_eq_of_disjoint {poly : List Pt} {p q : Pt}
    (hdisj : ∀ w ∈ segment ℚ p q, w ∉ boundary poly) :
    pointInPolygon p.1 p.2 poly = pointInPolygon q.1 q.2 poly := by
  have hedge : ∀ e ∈ edges poly, (rayCrosses e.1 e.2 p ^^ rayCrosses e.1 e.2 q) =
      (rightOf p q e.1 ^^ rightOf p q e.2) := by
    intro e he
    exact rayCrosses_xor fun w hw hon => hdisj w hw ⟨e, he, hon⟩
  have hxor : (pointInPolygon p.1 p.2 poly ^^ pointInPolygon q.1 q.2 poly) = false := by
    rw [pointInPolygon_eq, pointInPolygon_eq, foldl_xor_xor]
    exact (foldl_xor_congr hedge _).trans (foldl_xor_edges (rightOf p q) poly false)
  exact bne_eq_false_iff_eq.mp hxor

theorem pointInPolygon_rotate (x y : ℚ) (poly : List Pt) (k : ℕ) :
    pointInPolygon x y (poly.rotate k) = pointInPolygon x y poly := by
  rw [pointInPolygon_eq, pointInPolygon_eq, foldl_xor_perm (edges_rotate_perm poly k)]

theorem pointInPolygon_reverse (x y : ℚ) (poly : List Pt) :
    pointInPolygon x y poly.reverse = pointInPolygon x y poly := by
  rw [pointInPolygon_eq, pointInPolygon_eq, foldl_xor_perm (edges_reverse_perm poly),
    List.foldl_map]
  exact foldl_xor_congr (fun e _ => rayCrosses_swap ..) false

theorem boundary_rotate (poly : List Pt) (k : ℕ) : boundary (poly.rotate k) = boundary poly := by
  ext p
  exact exists_congr fun e => and_congr_left fun _ => (edges_rotate_perm poly k).mem_iff

theorem boundary_reverse (poly : List Pt) : boundary poly.reverse = boundary poly := by
  ext p
  constructor
  · rintro ⟨e, he, hp⟩
    obtain ⟨e', he', rfl⟩ := List.mem_map.mp ((edges_reverse_perm poly).mem_iff.mp he)
    exact ⟨e', he', segment_symm ℚ e'.1 e'.2 ▸ hp⟩
  · rintro ⟨e, he, hp⟩
    exact ⟨e.swap, (edges_reverse_perm poly).mem_iff.mpr (List.mem_map_of_mem he),
      segment_symm ℚ e.1 e.2 ▸ hp⟩

/-! ### Links -/

theorem onSegment_iff (a b c : Pt) :
    onSegment a b c (signedArea a b c) = true ↔ c ∈ segment ℚ a b := by
  rw [onSegment, mem_segment_iff_box]
  simp only [Bool.and_eq_true, decide_eq_true_eq, and_assoc]

/-- Two segments cross when they have a common point. -/
theorem segmentsCross_iff (p1 p2 p3 p4 : Pt) :
    segmentsCross p1 p2 p3 p4 = true ↔
      ∃ p, p ∈ segment ℚ p1 p2 ∧ p ∈ segment ℚ p3 p4 := by
  rw [exists_common_iff]
  change (if Opposite (signedArea p3 p4 p1) (signedArea p3 p4 p2) ∧
      Opposite (signedArea p1 p2 p3) (signedArea p1 p2 p4) then true
    else onSegment p3 p4 p1 (signedArea p3 p4 p1) || onSegment p3 p4 p2 (signedArea p3 p4 p2) ||
      onSegment p1 p2 p3 (signedArea p1 p2 p3) || onSegment p1 p2 p4 (signedArea p1 p2 p4)) = true ↔ _
  split_ifs with h
  · exact iff_of_true rfl (Or.inl h)
  · rw [or_iff_right h, Bool.or_eq_true, Bool.or_eq_true, Bool.or_eq_true, onSegment_iff,
      onSegment_iff, onSegment_iff, onSegment_iff, or_assoc, or_assoc]

/-- A link touches a polygon when a point of it is on the boundary or inside. -/
theorem segmentTouchesArea_polygon_iff (poly : List Pt) (a b : Pt) :
    segmentTouchesArea (.polygon poly) a b = true ↔
      ∃ p ∈ segment ℚ a b, p ∈ boundary poly ∨ pointInPolygon p.1 p.2 poly = true := by
  rw [segmentTouchesArea]
  split_ifs with hends
  · refine iff_of_true rfl ?_
    rcases Bool.or_eq_true_iff.mp hends with h | h
    · exact ⟨a, left_mem_segment ℚ a b, Or.inr h⟩
    · exact ⟨b, right_mem_segment ℚ a b, Or.inr h⟩
  · rw [List.any_eq_true]
    constructor
    · rintro ⟨e, he, hcross⟩
      obtain ⟨p, hp, hon⟩ := (segmentsCross_iff ..).mp hcross
      exact ⟨p, hp, Or.inl ⟨e, he, hon⟩⟩
    · intro hsome
      by_contra hnone
      have hdisj : ∀ w ∈ segment ℚ a b, w ∉ boundary poly := by
        rintro w hw ⟨e, he, hon⟩
        exact hnone ⟨e, he, (segmentsCross_iff ..).mpr ⟨w, hw, hon⟩⟩
      obtain ⟨p, hp, hon | hinside⟩ := hsome
      · exact hdisj p hp hon
      · have hsub : segment ℚ a p ⊆ segment ℚ a b :=
          (convex_segment a b).segment_subset (left_mem_segment ℚ a b) hp
        have hsame := pointInPolygon_eq_of_disjoint fun w hw => hdisj w (hsub hw)
        rw [hinside] at hsame
        exact hends (Bool.or_eq_true_iff.mpr (Or.inl hsame))

theorem hypotLe_iff {dx dy r : ℚ} : hypotLe dx dy r = true ↔ 0 ≤ r ∧ dx * dx + dy * dy ≤ r * r := by
  rw [hypotLe, Bool.and_eq_true, decide_eq_true_eq, decide_eq_true_eq]

/-- The parameter `f` of a link's point nearest to a centre: no other point is nearer. -/
theorem nearest_le (wx wy vx vy : ℚ) {t : ℚ} (h0 : 0 ≤ t) (h1 : t ≤ 1) :
    let f := if vx * vx + vy * vy = 0 then 0
      else max 0 (min 1 ((wx * vx + wy * vy) / (vx * vx + vy * vy)))
    (wx - f * vx) * (wx - f * vx) + (wy - f * vy) * (wy - f * vy) ≤
      (wx - t * vx) * (wx - t * vx) + (wy - t * vy) * (wy - t * vy) := by
  intro f
  set len2 := vx * vx + vy * vy with hlen2
  set m := wx * vx + wy * vy with hm
  have hgap : (wx - t * vx) * (wx - t * vx) + (wy - t * vy) * (wy - t * vy) -
      ((wx - f * vx) * (wx - f * vx) + (wy - f * vy) * (wy - f * vy)) =
        (t - f) * (len2 * (t + f) - 2 * m) := by
    rw [hlen2, hm]
    ring
  suffices hprod : 0 ≤ (t - f) * (len2 * (t + f) - 2 * m) by linarith
  by_cases hzero : len2 = 0
  · have hvx : vx = 0 := by nlinarith [mul_self_nonneg vx, mul_self_nonneg vy]
    have hvy : vy = 0 := by nlinarith [mul_self_nonneg vx, mul_self_nonneg vy]
    rw [hzero, hm, hvx, hvy]
    simp only [mul_zero, zero_mul, add_zero, sub_zero, le_refl]
  · have hpos : 0 < len2 := lt_of_le_of_ne
      (add_nonneg (mul_self_nonneg vx) (mul_self_nonneg vy)) (Ne.symm hzero)
    have hf : f = max 0 (min 1 (m / len2)) := if_neg hzero
    have hmul : m / len2 * len2 = m := div_mul_cancel₀ m hzero
    rcases le_total (m / len2) 0 with hlow | hlow
    · rw [hf, min_eq_right (hlow.trans zero_le_one), max_eq_left hlow]
      have hmle : m ≤ 0 := hmul ▸ mul_nonpos_of_nonpos_of_nonneg hlow hpos.le
      nlinarith [mul_nonneg hpos.le h0]
    rcases le_total (m / len2) 1 with hhigh | hhigh
    · rw [hf, min_eq_right hhigh, max_eq_right hlow]
      have hsquare : (t - m / len2) * (len2 * (t + m / len2) - 2 * m) =
          len2 * ((t - m / len2) * (t - m / len2)) := by
        linear_combination (2 * (t - m / len2)) * hmul
      rw [hsquare]
      exact mul_nonneg hpos.le (mul_self_nonneg _)
    · rw [hf, min_eq_left hhigh, max_eq_right zero_le_one]
      have hmge : len2 ≤ m := (one_le_div hpos).mp hhigh
      exact mul_nonneg_of_nonpos_of_nonpos (by linarith) (by nlinarith)

/-- A link touches a circle when a point of it is within the radius. -/
theorem segmentTouchesArea_circle_iff (c : Pt) (r : ℚ) (a b : Pt) :
    segmentTouchesArea (.circle c r) a b = true ↔
      ∃ p ∈ segment ℚ a b, pointInArea (.circle c r) p.1 p.2 = true := by
  rw [segmentTouchesArea]
  set f := if (b.1 - a.1) * (b.1 - a.1) + (b.2 - a.2) * (b.2 - a.2) = 0 then (0 : ℚ)
    else max 0 (min 1 (((c.1 - a.1) * (b.1 - a.1) + (c.2 - a.2) * (b.2 - a.2)) /
      ((b.1 - a.1) * (b.1 - a.1) + (b.2 - a.2) * (b.2 - a.2)))) with hf
  constructor
  · intro hnear
    obtain ⟨hr, hle⟩ := hypotLe_iff.mp hnear
    refine ⟨(a.1 + f * (b.1 - a.1), a.2 + f * (b.2 - a.2)), mem_segment_iff.mpr ⟨f, ?_, ?_, rfl, rfl⟩,
      hypotLe_iff.mpr ⟨hr, ?_⟩⟩
    · rw [hf]
      split_ifs
      · exact le_rfl
      · exact le_max_left _ _
    · rw [hf]
      split_ifs
      · exact zero_le_one
      · exact max_le zero_le_one (min_le_left _ _)
    · linarith
  · rintro ⟨p, hp, hin⟩
    obtain ⟨t, h0, h1, hx, hy⟩ := mem_segment_iff.mp hp
    obtain ⟨hr, hle⟩ := hypotLe_iff.mp hin
    have hnearest := nearest_le (c.1 - a.1) (c.2 - a.2) (b.1 - a.1) (b.2 - a.2) h0 h1
    rw [hx, hy] at hle
    refine hypotLe_iff.mpr ⟨hr, ?_⟩
    have hleft : ∀ x v w s : ℚ, x - (w + s * v) = x - w - s * v := fun x v w s => by ring
    rw [hleft, hleft]
    linarith

/-- A link touches a polygon when a point of it is on the boundary or inside, whichever end of the
link, vertex of the polygon or orientation comes first. -/
theorem polygon_cuts_touching_links (poly : List Pt) (a b : Pt) :
    (segmentTouchesArea (.polygon poly) a b = true ↔
      ∃ p ∈ segment ℚ a b, p ∈ boundary poly ∨ pointInPolygon p.1 p.2 poly = true) ∧
      segmentTouchesArea (.polygon poly) b a = segmentTouchesArea (.polygon poly) a b ∧
      (∀ k, segmentTouchesArea (.polygon (poly.rotate k)) a b =
        segmentTouchesArea (.polygon poly) a b) ∧
      segmentTouchesArea (.polygon poly.reverse) a b = segmentTouchesArea (.polygon poly) a b := by
  refine ⟨segmentTouchesArea_polygon_iff poly a b, ?_, fun k => ?_, ?_⟩
  · rw [Bool.eq_iff_iff, segmentTouchesArea_polygon_iff, segmentTouchesArea_polygon_iff,
      segment_symm ℚ b a]
  · rw [Bool.eq_iff_iff, segmentTouchesArea_polygon_iff, segmentTouchesArea_polygon_iff,
      boundary_rotate]
    simp only [pointInPolygon_rotate]
  · rw [Bool.eq_iff_iff, segmentTouchesArea_polygon_iff, segmentTouchesArea_polygon_iff,
      boundary_reverse]
    simp only [pointInPolygon_reverse]

end Arald.Scenario
