import Mathlib

/-!
# Union-find with path halving

The forest of parents is an array, here a function read below its size. `find`
halves the path it follows; `union` points the root of its first argument to the
root of the second, without ranks.

A forest represents an equivalence: each element is related to its parent, and
related roots are equal. The loop of `find` ends because some rank, which is not
stored, grows along the parents.
-/

namespace Foundations

structure UnionFind where
  size : ℕ
  parent : ℕ → ℕ

namespace UnionFind

def new (n : ℕ) : UnionFind := ⟨n, fun i => i⟩

/-- The loop of `find`, with fuel for as many turns as there are elements. -/
def findLoop : ℕ → (ℕ → ℕ) → ℕ → ℕ × (ℕ → ℕ)
  | 0, parent, x => (x, parent)
  | fuel + 1, parent, x =>
    if parent x = x then (x, parent)
    else findLoop fuel (Function.update parent x (parent (parent x))) (parent (parent x))

def find (uf : UnionFind) (x : ℕ) : ℕ × UnionFind :=
  let found := findLoop uf.size uf.parent x
  (found.1, { uf with parent := found.2 })

def union (uf : UnionFind) (a b : ℕ) : UnionFind :=
  let left := uf.find a
  let right := left.2.find b
  { right.2 with parent := Function.update right.2.parent left.1 right.1 }

/-- The forest over `n` elements represents `E`, and `rank` grows along its parents. -/
structure Forest (E : ℕ → ℕ → Prop) (n : ℕ) (parent rank : ℕ → ℕ) : Prop where
  parent_lt : ∀ x < n, parent x < n
  related : ∀ x < n, E x (parent x)
  root_unique : ∀ x < n, ∀ y < n, parent x = x → parent y = y → E x y → x = y
  rank_lt : ∀ x < n, parent x ≠ x → rank x < rank (parent x)

/-- The elements of larger rank, which bound the rest of a path. -/
def above (n : ℕ) (rank : ℕ → ℕ) (x : ℕ) : Finset ℕ := (Finset.range n).filter fun y => rank x < rank y

theorem card_above_lt {n : ℕ} {rank : ℕ → ℕ} {x : ℕ} (hx : x < n) : (above n rank x).card < n := by
  have hsub : above n rank x ⊂ Finset.range n := by
    refine Finset.filter_ssubset.mpr ⟨x, Finset.mem_range.mpr hx, lt_irrefl _⟩
  exact (Finset.card_lt_card hsub).trans_eq (Finset.card_range n)

theorem card_above_lt_of_rank_lt {n : ℕ} {rank : ℕ → ℕ} {x y : ℕ} (hy : y < n)
    (hlt : rank x < rank y) : (above n rank y).card < (above n rank x).card := by
  refine Finset.card_lt_card ⟨fun z hz => ?_, fun hsub => ?_⟩
  · obtain ⟨hz, hrank⟩ := Finset.mem_filter.mp hz
    exact Finset.mem_filter.mpr ⟨hz, hlt.trans hrank⟩
  · have hmem := hsub (Finset.mem_filter.mpr ⟨Finset.mem_range.mpr hy, hlt⟩)
    exact lt_irrefl _ (Finset.mem_filter.mp hmem).2

variable {E : ℕ → ℕ → Prop} {n : ℕ} {parent rank : ℕ → ℕ} {x : ℕ}

theorem Forest.rank_le (h : Forest E n parent rank) (hx : x < n) : rank x ≤ rank (parent x) := by
  by_cases hroot : parent x = x
  · rw [hroot]
  · exact (h.rank_lt x hx hroot).le

theorem Forest.rank_lt_grand (h : Forest E n parent rank) (hx : x < n) (hroot : parent x ≠ x) :
    rank x < rank (parent (parent x)) :=
  (h.rank_lt x hx hroot).trans_le (h.rank_le (h.parent_lt x hx))

/-- Halving makes no new roots. -/
theorem Forest.root_of_halved (h : Forest E n parent rank) (hx : x < n) (hroot : parent x ≠ x)
    {y : ℕ} (hy : Function.update parent x (parent (parent x)) y = y) : parent y = y := by
  by_cases hyx : y = x
  · have hgrand := h.rank_lt_grand hx hroot
    rw [hyx, Function.update_self] at hy
    rw [hy] at hgrand
    exact absurd hgrand (lt_irrefl _)
  · rwa [Function.update_of_ne hyx] at hy

/-- Pointing an element to its grandparent changes nothing that the forest represents. -/
theorem Forest.halve (h : Forest E n parent rank) (hE : Equivalence E) (hx : x < n)
    (hroot : parent x ≠ x) :
    Forest E n (Function.update parent x (parent (parent x))) rank := by
  refine ⟨fun y hy => ?_, fun y hy => ?_, fun y hy z hz hyr hzr => ?_, fun y hy hyr => ?_⟩
  · by_cases hyx : y = x
    · rw [hyx, Function.update_self]
      exact h.parent_lt _ (h.parent_lt x hx)
    · rw [Function.update_of_ne hyx]
      exact h.parent_lt y hy
  · by_cases hyx : y = x
    · rw [hyx, Function.update_self]
      exact hE.trans (h.related x hx) (h.related _ (h.parent_lt x hx))
    · rw [Function.update_of_ne hyx]
      exact h.related y hy
  · exact h.root_unique y hy z hz (h.root_of_halved hx hroot hyr) (h.root_of_halved hx hroot hzr)
  · by_cases hyx : y = x
    · rw [hyx, Function.update_self]
      exact h.rank_lt_grand hx hroot
    · rw [Function.update_of_ne hyx] at hyr ⊢
      exact h.rank_lt y hy hyr

theorem findLoop_root {fuel r : ℕ} (hr : parent r = r) : (findLoop fuel parent x).2 r = r := by
  induction fuel generalizing parent x with
  | zero => exact hr
  | succ fuel ih =>
    rw [findLoop]
    split_ifs with hroot
    · exact hr
    · have hne : r ≠ x := fun heq => hroot (heq ▸ hr)
      exact ih ((Function.update_of_ne hne ..).trans hr)

/-- The loop ends at the root of its argument, and the forest still represents the same. -/
theorem Forest.findLoop (h : Forest E n parent rank) (hE : Equivalence E) (hx : x < n) {fuel : ℕ}
    (hfuel : (above n rank x).card < fuel) :
    Forest E n (findLoop fuel parent x).2 rank ∧ (findLoop fuel parent x).1 < n ∧
      parent (findLoop fuel parent x).1 = (findLoop fuel parent x).1 ∧
      E x (findLoop fuel parent x).1 := by
  induction fuel generalizing parent x with
  | zero => cases hfuel
  | succ fuel ih =>
    rw [UnionFind.findLoop]
    split_ifs with hroot
    · exact ⟨h, hx, hroot, hE.refl x⟩
    · have hp := h.parent_lt x hx
      have hg := h.parent_lt _ hp
      have hless := card_above_lt_of_rank_lt hg (h.rank_lt_grand hx hroot)
      obtain ⟨hforest, hlt, hfound, hrel⟩ := ih (h.halve hE hx hroot) hg (by omega)
      exact ⟨hforest, hlt, h.root_of_halved hx hroot hfound,
        hE.trans (hE.trans (h.related x hx) (h.related _ hp)) hrel⟩

/-- A forest of some rank represents `E`. -/
structure Represents (E : ℕ → ℕ → Prop) (uf : UnionFind) : Prop where
  equivalence : Equivalence E
  forest : ∃ rank, Forest E uf.size uf.parent rank

theorem represents_new (n : ℕ) : Represents Eq (new n) :=
  ⟨eq_equivalence, fun _ => 0, fun _ hx => hx, fun _ _ => rfl, fun _ _ _ _ _ _ h => h,
    fun _ _ h => absurd rfl h⟩

variable {uf : UnionFind} {a b y : ℕ}

theorem size_find (uf : UnionFind) (x : ℕ) : (uf.find x).2.size = uf.size := rfl

theorem Represents.find (h : Represents E uf) (hx : x < uf.size) :
    Represents E (uf.find x).2 ∧ (uf.find x).1 < uf.size ∧
      uf.parent (uf.find x).1 = (uf.find x).1 ∧ E x (uf.find x).1 := by
  obtain ⟨rank, hforest⟩ := h.forest
  obtain ⟨hafter, hlt, hroot, hrel⟩ := hforest.findLoop h.equivalence hx (card_above_lt hx)
  exact ⟨⟨h.equivalence, rank, hafter⟩, hlt, hroot, hrel⟩

/-- What relating `a` to `b` adds to an equivalence. -/
def Join (E : ℕ → ℕ → Prop) (a b x y : ℕ) : Prop := E x y ∨ E x a ∧ E b y ∨ E x b ∧ E a y

theorem join_equivalence (hE : Equivalence E) (a b : ℕ) : Equivalence (Join E a b) := by
  refine ⟨fun x => Or.inl (hE.refl x), fun {x y} h => ?_, fun {x y z} hxy hyz => ?_⟩
  · rcases h with h | ⟨hx, hy⟩ | ⟨hx, hy⟩
    · exact Or.inl (hE.symm h)
    · exact Or.inr (Or.inr ⟨hE.symm hy, hE.symm hx⟩)
    · exact Or.inr (Or.inl ⟨hE.symm hy, hE.symm hx⟩)
  · rcases hxy with hxy | ⟨hx, hy⟩ | ⟨hx, hy⟩
    · rcases hyz with hyz | ⟨hy, hz⟩ | ⟨hy, hz⟩
      · exact Or.inl (hE.trans hxy hyz)
      · exact Or.inr (Or.inl ⟨hE.trans hxy hy, hz⟩)
      · exact Or.inr (Or.inr ⟨hE.trans hxy hy, hz⟩)
    · rcases hyz with hyz | ⟨_, hz⟩ | ⟨_, hz⟩
      · exact Or.inr (Or.inl ⟨hx, hE.trans hy hyz⟩)
      · exact Or.inr (Or.inl ⟨hx, hz⟩)
      · exact Or.inl (hE.trans hx hz)
    · rcases hyz with hyz | ⟨_, hz⟩ | ⟨_, hz⟩
      · exact Or.inr (Or.inr ⟨hx, hE.trans hy hyz⟩)
      · exact Or.inl (hE.trans hx hz)
      · exact Or.inr (Or.inr ⟨hx, hz⟩)

theorem join_eq_of_related (hE : Equivalence E) (h : E a b) : Join E a b = E := by
  funext x y
  refine propext ⟨?_, Or.inl⟩
  rintro (h' | ⟨hx, hy⟩ | ⟨hx, hy⟩)
  · exact h'
  · exact hE.trans (hE.trans hx h) hy
  · exact hE.trans (hE.trans hx (hE.symm h)) hy

/-- Pointing the root of one class to the root of another joins the classes. -/
theorem Forest.join (h : Forest E n parent rank) (hE : Equivalence E) {r s : ℕ} (hr : r < n)
    (hs : s < n) (hroot : parent r = r) (ha : E a r) (hb : E b s)
    (hnot : ¬E a b) : ∃ rank', Forest (Join E a b) n (Function.update parent r s) rank' := by
  classical
  have hsb : E s b := hE.symm hb
  have hrb : ¬E r b := fun hrb => hnot (hE.trans ha hrb)
  have hne : s ≠ r := fun heq => hrb (heq ▸ hsb)
  -- the class of `b` is raised above the old root of the class of `a`
  refine ⟨fun y => rank y + if E y b then rank r + 1 else 0, ⟨fun y hy => ?_, fun y hy => ?_,
    fun y hy z hz hyr hzr hyz => ?_, fun y hy hyr => ?_⟩⟩
  · by_cases hyr : y = r
    · rwa [hyr, Function.update_self]
    · rw [Function.update_of_ne hyr]
      exact h.parent_lt y hy
  · by_cases hyr : y = r
    · rw [hyr, Function.update_self]
      exact Or.inr (Or.inl ⟨hE.symm ha, hb⟩)
    · rw [Function.update_of_ne hyr]
      exact Or.inl (h.related y hy)
  · have hold : ∀ w, Function.update parent r s w = w → w ≠ r ∧ parent w = w := by
      intro w hw
      by_cases hwr : w = r
      · rw [hwr, Function.update_self] at hw
        exact absurd hw hne
      · rw [Function.update_of_ne hwr] at hw
        exact ⟨hwr, hw⟩
    have hclass : ∀ w, w < n → Function.update parent r s w = w → ¬E w a := by
      intro w hw hwroot hwa
      obtain ⟨hwr, hwroot⟩ := hold w hwroot
      exact hwr (h.root_unique w hw r hr hwroot hroot (hE.trans hwa ha))
    rcases hyz with hyz | ⟨hya, -⟩ | ⟨-, haz⟩
    · exact h.root_unique y hy z hz (hold y hyr).2 (hold z hzr).2 hyz
    · exact absurd hya (hclass y hy hyr)
    · exact absurd (hE.symm haz) (hclass z hz hzr)
  · by_cases hyr' : y = r
    · rw [hyr', Function.update_self, if_neg hrb, if_pos hsb]
      omega
    · rw [Function.update_of_ne hyr'] at hyr ⊢
      have hlt := h.rank_lt y hy hyr
      have hrel := h.related y hy
      by_cases hyb : E y b
      · rw [if_pos hyb, if_pos (hE.trans (hE.symm hrel) hyb)]
        omega
      · rw [if_neg hyb, if_neg fun hpb => hyb (hE.trans hrel hpb)]
        exact hlt

theorem size_union (uf : UnionFind) (a b : ℕ) : (uf.union a b).size = uf.size := rfl

theorem Represents.union (h : Represents E uf) (ha : a < uf.size) (hb : b < uf.size) :
    Represents (Join E a b) (uf.union a b) := by
  obtain ⟨hleft, hr, hroot, har⟩ := h.find ha
  obtain ⟨hright, hs, hroot', hbs⟩ := hleft.find (x := b) hb
  refine ⟨join_equivalence h.equivalence a b, ?_⟩
  obtain ⟨rank, hforest⟩ := hright.forest
  have hroot : ((uf.find a).2.find b).2.parent (uf.find a).1 = (uf.find a).1 :=
    findLoop_root (findLoop_root hroot)
  have hroot' : ((uf.find a).2.find b).2.parent ((uf.find a).2.find b).1 = _ := findLoop_root hroot'
  by_cases hab : E a b
  · have hrs := hforest.root_unique _ hr _ hs hroot hroot'
      (h.equivalence.trans (h.equivalence.symm har) (h.equivalence.trans hab hbs))
    rw [join_eq_of_related h.equivalence hab]
    refine ⟨rank, ?_⟩
    change Forest E _ (Function.update _ (uf.find a).1 ((uf.find a).2.find b).1) rank
    rw [← hrs, Function.update_eq_self_iff.mpr hroot.symm]
    exact hforest
  · exact hforest.join h.equivalence hr hs hroot har hbs hab

/-! ### Lists of unions -/

def unionAll (uf : UnionFind) (pairs : List (ℕ × ℕ)) : UnionFind :=
  pairs.foldl (fun uf e => uf.union e.1 e.2) uf

theorem size_unionAll (uf : UnionFind) (pairs : List (ℕ × ℕ)) :
    (uf.unionAll pairs).size = uf.size := by
  induction pairs generalizing uf with
  | nil => rfl
  | cons e pairs ih => exact ih (uf.union e.1 e.2)

/-- The least equivalence that contains `E` and relates the elements of every pair. -/
def Joined (E : ℕ → ℕ → Prop) (pairs : List (ℕ × ℕ)) : ℕ → ℕ → Prop :=
  Relation.EqvGen fun x y => E x y ∨ (x, y) ∈ pairs

theorem joined_nil (hE : Equivalence E) : Joined E [] = E := by
  funext x y
  refine propext ⟨fun h => ?_, fun h => .rel _ _ (Or.inl h)⟩
  induction h with
  | rel x y h => exact h.resolve_right List.not_mem_nil
  | refl x => exact hE.refl x
  | symm x y _ ih => exact hE.symm ih
  | trans x y z _ _ ih ih' => exact hE.trans ih ih'

theorem joined_cons (hE : Equivalence E) (e : ℕ × ℕ) (pairs : List (ℕ × ℕ)) :
    Joined (Join E e.1 e.2) pairs = Joined E (e :: pairs) := by
  funext x y
  have hstep : ∀ x y, E x y → Joined E (e :: pairs) x y := fun x y h => .rel _ _ (Or.inl h)
  have hpair : Joined E (e :: pairs) e.1 e.2 := .rel _ _ (Or.inr List.mem_cons_self)
  refine propext ⟨fun h => ?_, fun h => ?_⟩
  · induction h with
    | rel x y h =>
      rcases h with (h | ⟨hx, hy⟩ | ⟨hx, hy⟩) | h
      · exact hstep x y h
      · exact .trans _ _ _ (hstep _ _ hx) (.trans _ _ _ hpair (hstep _ _ hy))
      · exact .trans _ _ _ (hstep _ _ hx) (.trans _ _ _ (.symm _ _ hpair) (hstep _ _ hy))
      · exact .rel _ _ (Or.inr (List.mem_cons_of_mem _ h))
    | refl x => exact .refl x
    | symm x y _ ih => exact .symm _ _ ih
    | trans x y z _ _ ih ih' => exact .trans _ _ _ ih ih'
  · induction h with
    | rel x y h =>
      rcases h with h | h
      · exact .rel _ _ (Or.inl (Or.inl h))
      · rcases List.mem_cons.mp h with rfl | h
        · exact .rel _ _ (Or.inl (Or.inr (Or.inl ⟨hE.refl x, hE.refl y⟩)))
        · exact .rel _ _ (Or.inr h)
    | refl x => exact .refl x
    | symm x y _ ih => exact .symm _ _ ih
    | trans x y z _ _ ih ih' => exact .trans _ _ _ ih ih'

theorem Represents.unionAll {pairs : List (ℕ × ℕ)} (h : Represents E uf)
    (hpairs : ∀ e ∈ pairs, e.1 < uf.size ∧ e.2 < uf.size) :
    Represents (Joined E pairs) (uf.unionAll pairs) := by
  induction pairs generalizing uf E with
  | nil =>
    rw [joined_nil h.equivalence]
    exact h
  | cons e pairs ih =>
    obtain ⟨ha, hb⟩ := hpairs e List.mem_cons_self
    rw [← joined_cons h.equivalence]
    exact ih (h.union ha hb) fun e' he' => hpairs e' (List.mem_cons_of_mem _ he')

/-! ### The roots of a list of elements -/

/-- `find` on one element after the other. -/
def findAll (uf : UnionFind) : List ℕ → List ℕ × UnionFind
  | [] => ([], uf)
  | x :: xs =>
    let found := uf.find x
    let rest := findAll found.2 xs
    (found.1 :: rest.1, rest.2)

theorem Represents.findAll_eq {root : ℕ → ℕ} {xs : List ℕ} (h : Represents E uf)
    (hroot : ∀ x < uf.size, uf.parent (root x) = root x ∧ root x < uf.size ∧ E x (root x))
    (hxs : ∀ x ∈ xs, x < uf.size) : (uf.findAll xs).1 = xs.map root := by
  induction xs generalizing uf with
  | nil => rfl
  | cons x xs ih =>
    have hx := hxs x List.mem_cons_self
    obtain ⟨hafter, hlt, hfound, hrel⟩ := h.find hx
    have hkept : ∀ y < uf.size, (uf.find x).2.parent (root y) = root y := fun y hy =>
      findLoop_root (hroot y hy).1
    obtain ⟨rank, hforest⟩ := h.forest
    have heq : (uf.find x).1 = root x := hforest.root_unique _ hlt _ (hroot x hx).2.1 hfound
      (hroot x hx).1 (h.equivalence.trans (h.equivalence.symm hrel) (hroot x hx).2.2)
    have hrest := ih hafter (fun y hy => ⟨hkept y hy, (hroot y hy).2⟩)
      fun y hy => hxs y (List.mem_cons_of_mem _ hy)
    rw [findAll, List.map_cons, heq, hrest]

/-- Whatever is asked and in whichever order, the answers are the values of one function that
separates the classes. -/
theorem Represents.exists_root (h : Represents E uf) :
    ∃ root : ℕ → ℕ, (∀ x < uf.size, ∀ y < uf.size, root x = root y ↔ E x y) ∧
      ∀ xs : List ℕ, (∀ x ∈ xs, x < uf.size) → (uf.findAll xs).1 = xs.map root := by
  obtain ⟨rank, hforest⟩ := h.forest
  have hroot : ∀ x < uf.size, uf.parent (uf.find x).1 = (uf.find x).1 ∧ (uf.find x).1 < uf.size ∧
      E x (uf.find x).1 := by
    intro x hx
    obtain ⟨-, hlt, hfound, hrel⟩ := h.find hx
    exact ⟨hfound, hlt, hrel⟩
  refine ⟨fun x => (uf.find x).1, fun x hx y hy => ⟨fun heq => ?_, fun hrel => ?_⟩,
    fun xs hxs => h.findAll_eq hroot hxs⟩
  · have hyr := (hroot y hy).2.2
    rw [← show (uf.find x).1 = (uf.find y).1 from heq] at hyr
    exact h.equivalence.trans (hroot x hx).2.2 (h.equivalence.symm hyr)
  · obtain ⟨hx', hxlt, hxr⟩ := hroot x hx
    obtain ⟨hy', hylt, hyr⟩ := hroot y hy
    exact hforest.root_unique _ hxlt _ hylt hx' hy'
      (h.equivalence.trans (h.equivalence.symm hxr) (h.equivalence.trans hrel hyr))

end UnionFind
end Foundations
