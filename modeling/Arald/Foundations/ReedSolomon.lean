import Mathlib

/-!
# Check symbols of a Reed–Solomon code

Polynomials are lists of coefficients, highest first, over a ring in which `a + a = 0`.
Long division by a monic polynomial leaves a remainder; after the data that remainder
makes a multiple of the polynomial, so the whole word vanishes at its roots.
-/

namespace Foundations

variable {R : Type*} [CommRing R] {x coef : R} {i k n : ℕ} {cs ds buffer result p g : List R}

/-- The value at `x`, by Horner's rule. -/
def horner (x : R) (cs : List R) : R := cs.foldl (fun value c => value * x + c) 0

theorem foldl_horner (x value : R) (cs : List R) :
    cs.foldl (fun value c => value * x + c) value = value * x ^ cs.length + horner x cs := by
  induction cs generalizing value with
  | nil => simp [horner]
  | cons c cs ih =>
    rw [horner, List.foldl_cons, List.foldl_cons, ih, ih, List.length_cons, pow_succ]
    ring

@[simp] theorem horner_nil (x : R) : horner x [] = 0 := rfl

theorem horner_cons (x c : R) (cs : List R) : horner x (c :: cs) = c * x ^ cs.length + horner x cs := by
  rw [horner, List.foldl_cons, foldl_horner, zero_mul, zero_add]

theorem horner_append (x : R) (cs ds : List R) :
    horner x (cs ++ ds) = horner x cs * x ^ ds.length + horner x ds := by
  rw [horner, List.foldl_append, foldl_horner]
  rfl

@[simp] theorem horner_replicate_zero (x : R) (n : ℕ) : horner x (List.replicate n 0) = 0 := by
  induction n with
  | zero => rfl
  | succ n ih => rw [List.replicate_succ, horner_cons, ih, zero_mul, zero_add]

theorem horner_modify (h : k < cs.length) :
    horner x (cs.modify k (· + coef)) = horner x cs + coef * x ^ (cs.length - 1 - k) := by
  induction cs generalizing k with
  | nil => cases h
  | cons c cs ih =>
    cases k with
    | zero =>
      rw [List.modify_zero_cons, horner_cons, horner_cons, List.length_cons, Nat.add_sub_cancel, Nat.sub_zero]
      ring
    | succ k =>
      have hk : k < cs.length := Nat.lt_of_succ_lt_succ h
      have hexp : (c :: cs).length - 1 - (k + 1) = cs.length - 1 - k := by
        rw [List.length_cons]
        omega
      rw [List.modify_succ_cons, horner_cons, horner_cons, List.length_modify, ih hk, hexp, add_assoc]

/-! ### Adding a multiple of a polynomial -/

/-- `buffer[k + j] += coef * p[j]` for every `j`. -/
def addScaledAt (coef : R) : List R → ℕ → List R → List R
  | [], _, buffer => buffer
  | c :: p, k, buffer => addScaledAt coef p (k + 1) (buffer.modify k (· + c * coef))

@[simp] theorem length_addScaledAt (coef : R) (p : List R) (k : ℕ) (buffer : List R) :
    (addScaledAt coef p k buffer).length = buffer.length := by
  induction p generalizing k buffer with
  | nil => rfl
  | cons c p ih => rw [addScaledAt, ih, List.length_modify]

theorem horner_addScaledAt (h : k + p.length ≤ buffer.length) :
    horner x (addScaledAt coef p k buffer) =
      horner x buffer + coef * horner x p * x ^ (buffer.length - k - p.length) := by
  induction p generalizing k buffer with
  | nil => simp [addScaledAt]
  | cons c p ih =>
    rw [List.length_cons] at h
    have hfits : k + 1 + p.length ≤ (buffer.modify k (· + c * coef)).length := by
      rw [List.length_modify]
      omega
    have hrest : buffer.length - (k + 1) - p.length = buffer.length - k - (p.length + 1) := by omega
    have hexp : buffer.length - 1 - k = p.length + (buffer.length - k - (p.length + 1)) := by omega
    rw [addScaledAt, ih hfits, List.length_modify, horner_modify (by omega), horner_cons, List.length_cons, hrest,
      hexp, pow_add]
    ring

/-- What stands before the place of the sum stays. -/
theorem getElem?_addScaledAt_of_lt (h : i < k) : (addScaledAt coef p k buffer)[i]? = buffer[i]? := by
  induction p generalizing k buffer with
  | nil => rfl
  | cons c p ih => rw [addScaledAt, ih (Nat.lt_succ_of_lt h), List.getElem?_modify_ne _ _ h.ne']

theorem getElem?_addScaledAt_self {c : R} :
    (addScaledAt coef (c :: p) k buffer)[k]? = buffer[k]?.map (· + c * coef) := by
  rw [addScaledAt, getElem?_addScaledAt_of_lt (Nat.lt_succ_self k), List.getElem?_modify_eq]
  rfl

/-! ### Products -/

/-- `result[i + j] += a[i] * p[j]` for all `i` and `j`. -/
def mulInto (p : List R) : List R → ℕ → List R → List R
  | [], _, result => result
  | a :: as, i, result => mulInto p as (i + 1) (addScaledAt a p i result)

def mulPoly (as p : List R) : List R := mulInto p as 0 (List.replicate (as.length + p.length - 1) 0)

@[simp] theorem length_mulInto (p as : List R) (i : ℕ) (result : List R) :
    (mulInto p as i result).length = result.length := by
  induction as generalizing i result with
  | nil => rfl
  | cons a as ih => rw [mulInto, ih, length_addScaledAt]

theorem length_mulPoly (as p : List R) : (mulPoly as p).length = as.length + p.length - 1 := by
  rw [mulPoly, length_mulInto, List.length_replicate]

theorem horner_mulInto {as : List R} (h : result.length + 1 = i + as.length + p.length) :
    horner x (mulInto p as i result) = horner x result + horner x as * horner x p := by
  induction as generalizing i result with
  | nil => simp [mulInto]
  | cons a as ih =>
    rw [List.length_cons] at h
    have hlength : (addScaledAt a p i result).length + 1 = i + 1 + as.length + p.length := by
      rw [length_addScaledAt]
      omega
    have hexp : result.length - i - p.length = as.length := by omega
    rw [mulInto, ih hlength, horner_addScaledAt (by omega), hexp, horner_cons]
    ring

theorem horner_mulPoly {as : List R} (has : as ≠ []) (hp : p ≠ []) :
    horner x (mulPoly as p) = horner x as * horner x p := by
  have hlas := List.length_pos_iff.mpr has
  have hlp := List.length_pos_iff.mpr hp
  rw [mulPoly, horner_mulInto (by rw [List.length_replicate]; omega), horner_replicate_zero, zero_add]

theorem getElem?_mulInto_of_lt {as : List R} {m : ℕ} (h : m < i) : (mulInto p as i result)[m]? = result[m]? := by
  induction as generalizing i result with
  | nil => rfl
  | cons a as ih => rw [mulInto, ih (Nat.lt_succ_of_lt h), getElem?_addScaledAt_of_lt h]

/-- Products of monic polynomials are monic. -/
theorem getElem?_mulPoly_zero (as p : List R) : (mulPoly (1 :: as) (1 :: p))[0]? = some 1 := by
  rw [mulPoly, mulInto, getElem?_mulInto_of_lt Nat.one_pos, getElem?_addScaledAt_self]
  simp

/-! ### The generator polynomial -/

/-- The product of `x + root` over the roots. -/
def generator (roots : List R) : List R := roots.foldl (fun g root => mulPoly g [1, root]) [1]

theorem generator_foldl (roots : List R) (hmonic : g[0]? = some 1) :
    (roots.foldl (fun g root => mulPoly g [1, root]) g)[0]? = some 1 ∧
      (roots.foldl (fun g root => mulPoly g [1, root]) g).length = g.length + roots.length ∧
      ∀ x, horner x (roots.foldl (fun g root => mulPoly g [1, root]) g) =
        horner x g * (roots.map (x + ·)).prod := by
  induction roots generalizing g with
  | nil => simp [hmonic]
  | cons root roots ih =>
    obtain ⟨c, cs, rfl⟩ : ∃ c cs, g = c :: cs := List.exists_cons_of_ne_nil fun h => by simp [h] at hmonic
    obtain rfl : c = 1 := by simpa using hmonic
    obtain ⟨hhead, hlength, hvalue⟩ := ih (getElem?_mulPoly_zero cs [root])
    refine ⟨hhead, ?_, fun x => ?_⟩
    · rw [List.foldl_cons, hlength, length_mulPoly]
      simp
      omega
    · have hfactor : horner x [1, root] = x + root := by simp [horner_cons]
      rw [List.foldl_cons, hvalue, horner_mulPoly (List.cons_ne_nil _ _) (List.cons_ne_nil _ _), hfactor, List.map_cons,
        List.prod_cons, mul_assoc]

theorem length_generator (roots : List R) : (generator roots).length = roots.length + 1 := by
  rw [generator, (generator_foldl roots rfl).2.1, List.length_singleton, Nat.add_comm]

theorem generator_eq_cons (roots : List R) : ∃ p, generator roots = 1 :: p := by
  have hhead := (generator_foldl roots (g := [(1 : R)]) rfl).1
  cases hg : generator roots with
  | nil => rw [generator] at hg; rw [hg] at hhead; cases hhead
  | cons c p =>
    rw [generator] at hg
    rw [hg] at hhead
    exact ⟨p, congrArg (· :: p) (by simpa using hhead)⟩

/-- The generator vanishes at its roots. -/
theorem horner_generator {roots : List R} (two : ∀ a : R, a + a = 0) (hroot : x ∈ roots) :
    horner x (generator roots) = 0 := by
  have hzero : (0 : R) ∈ roots.map (x + ·) := List.mem_map.mpr ⟨x, hroot, two x⟩
  rw [generator, (generator_foldl roots rfl).2.2, List.prod_eq_zero hzero, mul_zero]

/-! ### Long division -/

variable [DecidableEq R]

/-- From place `i` on, `n` coefficients are cancelled, those that are zero already passed over. -/
def eliminate (g : List R) : ℕ → ℕ → List R → List R
  | 0, _, buffer => buffer
  | n + 1, i, buffer =>
    let coef := buffer.getD i 0
    eliminate g n (i + 1) (if coef = 0 then buffer else addScaledAt coef g i buffer)

/-- The check symbols of `data`. -/
def checkSymbols (g data : List R) : List R :=
  (eliminate g data.length 0 (data ++ List.replicate (g.length - 1) 0)).drop data.length

/-- Division keeps the value at every root, and leaves zeros behind. -/
theorem eliminate_spec (two : ∀ a : R, a + a = 0) (p buffer : List R) (hfits : i + n + p.length ≤ buffer.length)
    (hzeros : ∀ m < i, buffer[m]? = some 0) :
    (eliminate (1 :: p) n i buffer).length = buffer.length ∧
      (∀ m < i + n, (eliminate (1 :: p) n i buffer)[m]? = some 0) ∧
      ∀ x, horner x (1 :: p) = 0 → horner x (eliminate (1 :: p) n i buffer) = horner x buffer := by
  induction n generalizing i buffer with
  | zero => exact ⟨rfl, hzeros, fun _ _ => rfl⟩
  | succ n ih =>
    have hi : i < buffer.length := by omega
    have hget : buffer[i]? = some (buffer.getD i 0) := by
      rw [List.getD_eq_getElem?_getD, List.getElem?_eq_getElem hi, Option.getD_some]
    -- One step cancels the coefficient at `i`.
    obtain ⟨next, hnext, hlength, hzeros', hvalue⟩ : ∃ next,
        next = (if buffer.getD i 0 = 0 then buffer else addScaledAt (buffer.getD i 0) (1 :: p) i buffer) ∧
        next.length = buffer.length ∧ (∀ m < i + 1, next[m]? = some 0) ∧
        ∀ x, horner x (1 :: p) = 0 → horner x next = horner x buffer := by
      refine ⟨_, rfl, ?_⟩
      split_ifs with hcoef
      · refine ⟨rfl, fun m hm => ?_, fun _ _ => rfl⟩
        rcases Nat.lt_succ_iff_lt_or_eq.mp hm with hlt | rfl
        · exact hzeros m hlt
        · rw [hget, hcoef]
      · refine ⟨length_addScaledAt .., fun m hm => ?_, fun x hx => ?_⟩
        · rcases Nat.lt_succ_iff_lt_or_eq.mp hm with hlt | rfl
          · rw [getElem?_addScaledAt_of_lt hlt, hzeros m hlt]
          · rw [getElem?_addScaledAt_self, hget, Option.map_some, one_mul, two]
        · rw [horner_addScaledAt (by rw [List.length_cons]; omega), hx, mul_zero, zero_mul, add_zero]
    obtain ⟨hlen, hzero, hval⟩ := ih next (by omega) hzeros'
    rw [eliminate, ← hnext]
    refine ⟨hlen.trans hlength, fun m hm => hzero m (by omega), fun x hx => (hval x hx).trans (hvalue x hx)⟩

variable {roots data : List R}

theorem length_checkSymbols (two : ∀ a : R, a + a = 0) (roots data : List R) :
    (checkSymbols (generator roots) data).length = roots.length := by
  have hlen := length_generator roots
  obtain ⟨p, hp⟩ := generator_eq_cons roots
  rw [hp, List.length_cons] at hlen
  have hspec := eliminate_spec (n := data.length) (i := 0) two p (data ++ List.replicate p.length 0) (by simp) (by simp)
  rw [checkSymbols, hp, List.length_cons, Nat.add_sub_cancel, List.length_drop, hspec.1]
  simp
  omega

/-- Data and check symbols together vanish at every root. -/
theorem horner_append_checkSymbols (two : ∀ a : R, a + a = 0) (hroot : x ∈ roots) :
    horner x (data ++ checkSymbols (generator roots) data) = 0 := by
  have hx := horner_generator two hroot
  have hlength := length_checkSymbols two roots data
  have hlen := length_generator roots
  obtain ⟨p, hp⟩ := generator_eq_cons roots
  rw [hp, List.length_cons] at hlen
  obtain ⟨hlen', hzeros, hvalue⟩ := eliminate_spec (n := data.length) (i := 0) two p
    (data ++ List.replicate p.length 0) (by simp) (by simp)
  set divided := eliminate (1 :: p) data.length 0 (data ++ List.replicate p.length 0) with hdivided
  have hcheck : checkSymbols (generator roots) data = divided.drop data.length := by
    rw [checkSymbols, hp, List.length_cons, Nat.add_sub_cancel]
  have htake : divided.take data.length = List.replicate data.length 0 := by
    refine List.eq_replicate_iff.mpr ⟨by rw [List.length_take, hlen']; simp, fun c hc => ?_⟩
    obtain ⟨m, hm⟩ := List.mem_iff_getElem?.mp hc
    rw [List.getElem?_take] at hm
    split_ifs at hm with hlt
    rw [hzeros m (by omega)] at hm
    exact (Option.some.inj hm).symm
  have hremainder : horner x divided = horner x (checkSymbols (generator roots) data) := by
    rw [← List.take_append_drop data.length divided, horner_append, htake, horner_replicate_zero, zero_mul, zero_add,
      hcheck]
  have hdata : horner x divided = horner x data * x ^ p.length := by
    rw [hvalue x (hp ▸ hx), horner_append, horner_replicate_zero, add_zero, List.length_replicate]
  have hsame : p.length = (checkSymbols (generator roots) data).length := by omega
  rw [horner_append, ← hremainder, hdata, ← hsame, two]

end Foundations
