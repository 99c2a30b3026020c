import Arald.Foundations.Logarithms
import Arald.Foundations.ReedSolomon

/-!
# The field of the error correction

The tables of `qrcode.ts` and what is computed with them: products, the generator
polynomial and the error correction codewords of a block.
-/

namespace Arald

open Foundations

abbrev Codeword := BitVec 8

/-- `x <<= 1; if (x & 0x100) x ^= 0x11d`. -/
def doubled (x : ℕ) : ℕ := if (x <<< 1) &&& 0x100 ≠ 0 then (x <<< 1) ^^^ 0x11d else x <<< 1

structure GaloisField where
  x : ℕ
  exp : List ℕ
  log : List ℕ

/-- One round of the loop. -/
def GaloisField.fill (gf : GaloisField) (i : ℕ) : GaloisField where
  x := doubled gf.x
  exp := gf.exp.set i gf.x
  log := gf.log.set gf.x i

@[irreducible] def galoisRounds (n : ℕ) : GaloisField :=
  (List.range n).foldl GaloisField.fill ⟨1, List.replicate 256 0, List.replicate 256 0⟩

def initGaloisField : GaloisField :=
  { galoisRounds 255 with exp := (galoisRounds 255).exp.set 255 ((galoisRounds 255).exp.getD 0 0) }

def gfExp (i : ℕ) : Codeword := BitVec.ofNat 8 (initGaloisField.exp.getD i 0)

def gfLog (a : Codeword) : ℕ := initGaloisField.log.getD a.toNat 0

def gfMul (a b : Codeword) : Codeword := if a = 0 ∨ b = 0 then 0 else gfExp ((gfLog a + gfLog b) % 255)

/-- `result[k + j] ^= terms[j]` for every `j`. -/
def xorAt : List Codeword → ℕ → List Codeword → List Codeword
  | [], _, result => result
  | t :: terms, k, result => xorAt terms (k + 1) (result.modify k (· ^^^ t))

/-- The rounds of the outer loop, from the one for place `i` on. -/
def polyMulRows (b : List Codeword) : List Codeword → ℕ → List Codeword → List Codeword
  | [], _, result => result
  | a :: as, i, result => polyMulRows b as (i + 1) (xorAt (b.map (gfMul a)) i result)

def polyMul (a b : List Codeword) : List Codeword := polyMulRows b a 0 (List.replicate (a.length + b.length - 1) 0)

def rsGeneratorPoly (degree : ℕ) : List Codeword :=
  (List.range degree).foldl (fun g i => polyMul g [1, gfExp i]) [1]

/-- The rounds of the loop over the data, `n` of them from place `i` on. -/
def rsDivide (generator : List Codeword) : ℕ → ℕ → List Codeword → List Codeword
  | 0, _, buffer => buffer
  | n + 1, i, buffer =>
    let coef := buffer.getD i 0
    rsDivide generator n (i + 1) (if coef = 0 then buffer else xorAt (generator.map (gfMul · coef)) i buffer)

def rsEncode (dataCodewords : List Codeword) (ecLength : ℕ) : List Codeword :=
  (rsDivide (rsGeneratorPoly ecLength) dataCodewords.length 0
    (dataCodewords ++ List.replicate ecLength 0)).drop dataCodewords.length

/-- The value at `x` of a block. -/
def gfEval (x : Codeword) (block : List Codeword) : Codeword := block.foldl (fun value c => gfMul value x ^^^ c) 0

def syndromes (block : List Codeword) (ecLength : ℕ) : List Codeword :=
  (List.range ecLength).map fun i => gfEval (gfExp i) block

/-! ### The field -/

/-- The codeword times `x`. -/
def timesX (a : Codeword) : Codeword := (a <<< 1) ^^^ (if a.msb then 0x1d else 0)

theorem timesX_xor (a b : Codeword) : timesX (a ^^^ b) = timesX a ^^^ timesX b := by
  have hcarry : (if (a ^^^ b).msb then (0x1d : Codeword) else 0) =
      (if a.msb then 0x1d else 0) ^^^ (if b.msb then 0x1d else 0) := by
    rw [BitVec.msb_xor]
    cases a.msb <;> cases b.msb <;> rfl
  rw [timesX, timesX, timesX, BitVec.shiftLeft_xor_distrib, hcarry]
  ac_rfl

/-! ### The tables -/

/-- The powers of `x`. -/
def power (i : ℕ) : Codeword := timesX^[i] 1

theorem power_succ (i : ℕ) : power (i + 1) = timesX (power i) := Function.iterate_succ_apply' timesX i 1

theorem doubled_toNat : ∀ a : Codeword, doubled a.toNat = (timesX a).toNat := by
  decide

theorem minimalPeriod_timesX : Function.minimalPeriod timesX 1 = 255 := by
  have hperiod : Function.IsPeriodicPt timesX 255 1 := by
    change timesX^[255] 1 = 1
    decide +kernel
  have hshort : ∀ n ∈ [85, 51, 15], power n ≠ 1 := by decide +kernel
  have hproper : ∀ d ∈ Nat.divisors 255, d = 255 ∨ ∃ n ∈ [85, 51, 15], d ∣ n := by decide
  rcases hproper _ (Nat.mem_divisors.mpr ⟨hperiod.minimalPeriod_dvd, by decide⟩) with hall | ⟨n, hn, hdvd⟩
  · exact hall
  · exact absurd (Function.isPeriodicPt_iff_minimalPeriod_dvd.mpr hdvd) (hshort n hn)

theorem power_injective {i j : ℕ} (hi : i < 255) (hj : j < 255) (h : power i = power j) : i = j := by
  refine Function.iterate_injOn_Iio_minimalPeriod (f := timesX) (x := 1) ?_ ?_ h
  · rwa [minimalPeriod_timesX]
  · rwa [minimalPeriod_timesX]

theorem power_mod (i : ℕ) : power (i % 255) = power i := by
  have h := Function.iterate_mod_minimalPeriod_eq (f := timesX) (x := 1) (n := i)
  rwa [minimalPeriod_timesX] at h

theorem timesX_zero : timesX 0 = 0 := rfl

theorem power_ne_zero (i : ℕ) : power i ≠ 0 := by
  intro h
  have hstays : ∀ n, power (i + n) = 0 := by
    intro n
    induction n with
    | zero => exact h
    | succ n ih => rw [← Nat.add_assoc, power_succ, ih, timesX_zero]
  have hone : power (i + (255 - i % 255)) = 1 := by
    rw [← power_mod]
    have hmod : (i + (255 - i % 255)) % 255 = 0 := by omega
    rw [hmod]
    rfl
  rw [hstays] at hone
  exact absurd hone (by decide)

/-- Every codeword but zero is a power. -/
theorem exists_power {a : Codeword} (ha : a ≠ 0) : ∃ i < 255, power i = a := by
  have hmaps : ∀ i ∈ Finset.range 255, power i ∈ Finset.univ.erase 0 := fun i _ =>
    Finset.mem_erase.mpr ⟨power_ne_zero i, Finset.mem_univ _⟩
  have hinj : Set.InjOn power (Finset.range 255 : Finset ℕ) := fun i hi j hj =>
    power_injective (Finset.mem_range.mp hi) (Finset.mem_range.mp hj)
  have hcard : (Finset.univ.erase (0 : Codeword)).card ≤ (Finset.range 255).card := by
    have hequiv : Codeword ≃ Fin (2 ^ 8) := ⟨BitVec.toFin, BitVec.ofFin, fun _ => rfl, fun _ => rfl⟩
    have hfin : Fintype.card Codeword = 2 ^ 8 := (Fintype.card_congr hequiv).trans (Fintype.card_fin _)
    rw [Finset.card_erase_of_mem (Finset.mem_univ _), Finset.card_univ, hfin, Finset.card_range]
    decide
  obtain ⟨i, hi, rfl⟩ := Finset.surjOn_of_injOn_of_card_le power hmaps hinj hcard
    (Finset.mem_coe.mpr (Finset.mem_erase.mpr ⟨ha, Finset.mem_univ a⟩))
  exact ⟨i, Finset.mem_range.mp hi, rfl⟩

/-- The tables after `n` rounds. -/
structure Filled (n : ℕ) (gf : GaloisField) : Prop where
  x_eq : gf.x = (power n).toNat
  length_exp : gf.exp.length = 256
  length_log : gf.log.length = 256
  exp_eq : ∀ i < n, gf.exp.getD i 0 = (power i).toNat
  log_eq : ∀ i < n, gf.log.getD (power i).toNat 0 = i

theorem Filled.fill {n : ℕ} {gf : GaloisField} (h : Filled n gf) (hn : n < 255) : Filled (n + 1) (gf.fill n) where
  x_eq := by
    change doubled gf.x = _
    rw [h.x_eq, doubled_toNat, power_succ]
  length_exp := by rw [GaloisField.fill, List.length_set, h.length_exp]
  length_log := by rw [GaloisField.fill, List.length_set, h.length_log]
  exp_eq i hi := by
    rw [GaloisField.fill, List.getD_eq_getElem?_getD, List.getElem?_set]
    split_ifs with heq hlen
    · rw [← heq, h.x_eq, Option.getD_some]
    · exact absurd (h.length_exp ▸ (by omega : n < 256)) hlen
    · rw [← List.getD_eq_getElem?_getD, h.exp_eq i (by omega)]
  log_eq i hi := by
    rw [GaloisField.fill, h.x_eq, List.getD_eq_getElem?_getD, List.getElem?_set]
    split_ifs with heq hlen
    · exact power_injective hn (by omega) (BitVec.eq_of_toNat_eq heq)
    · exact absurd (h.length_log ▸ (power n).isLt) hlen
    · have hne : i ≠ n := fun hin => heq (hin ▸ rfl)
      rw [← List.getD_eq_getElem?_getD, h.log_eq i (by omega)]

theorem filled_galoisRounds {n : ℕ} (hn : n ≤ 255) : Filled n (galoisRounds n) := by
  induction n with
  | zero =>
    rw [galoisRounds]
    exact ⟨rfl, List.length_replicate, List.length_replicate, fun i hi => absurd hi (Nat.not_lt_zero i),
      fun i hi => absurd hi (Nat.not_lt_zero i)⟩
  | succ n ih =>
    rw [galoisRounds] at ih ⊢
    rw [List.range_succ, List.foldl_append]
    exact (ih (by omega)).fill (by omega)

theorem gfExp_eq {i : ℕ} (hi : i < 255) : gfExp i = power i := by
  have h := (filled_galoisRounds le_rfl).exp_eq i hi
  have hset : initGaloisField.exp[i]? = (galoisRounds 255).exp[i]? := List.getElem?_set_ne (by omega)
  rw [gfExp, List.getD_eq_getElem?_getD, hset, ← List.getD_eq_getElem?_getD, h, BitVec.ofNat_toNat,
    BitVec.setWidth_eq]

theorem gfLog_power {i : ℕ} (hi : i < 255) : gfLog (power i) = i := by
  have h := (filled_galoisRounds le_rfl).log_eq i hi
  have hsame : initGaloisField.log = (galoisRounds 255).log := by rw [initGaloisField]
  rw [gfLog, hsame, h]

/-! ### Products -/

theorem gfLog_lt {a : Codeword} (ha : a ≠ 0) : gfLog a < 255 := by
  obtain ⟨i, hi, rfl⟩ := exists_power ha
  rwa [gfLog_power hi]

theorem power_gfLog {a : Codeword} (ha : a ≠ 0) : power (gfLog a) = a := by
  obtain ⟨i, hi, rfl⟩ := exists_power ha
  rw [gfLog_power hi]

theorem gfMul_of_ne_zero {a b : Codeword} (ha : a ≠ 0) (hb : b ≠ 0) : gfMul a b = power (gfLog a + gfLog b) := by
  rw [gfMul, if_neg (not_or.mpr ⟨ha, hb⟩), gfExp_eq (Nat.mod_lt _ (by decide)), power_mod]

/-- A codeword as an element of the field. -/
@[ext]
structure Gf where
  code : Codeword
  deriving DecidableEq

namespace Gf

instance : Add Gf := ⟨fun a b => ⟨a.code ^^^ b.code⟩⟩

instance : Zero Gf := ⟨⟨0⟩⟩

instance : Neg Gf := ⟨id⟩

instance : AddCommGroup Gf where
  add_assoc a b c := Gf.ext (BitVec.xor_assoc a.code b.code c.code)
  zero_add _ := Gf.ext BitVec.zero_xor
  add_zero _ := Gf.ext BitVec.xor_zero
  neg_add_cancel _ := Gf.ext BitVec.xor_self
  add_comm a b := Gf.ext (BitVec.xor_comm a.code b.code)
  nsmul := nsmulRec
  zsmul := zsmulRec

theorem add_self (a : Gf) : a + a = 0 := Gf.ext BitVec.xor_self

theorem mk_xor (a b : Codeword) : mk (a ^^^ b) = mk a + mk b := rfl

theorem mk_eq_zero {a : Codeword} : mk a = 0 ↔ a = 0 := Gf.ext_iff

def step : Gf →+ Gf where
  toFun a := ⟨timesX a.code⟩
  map_zero' := rfl
  map_add' a b := Gf.ext (timesX_xor a.code b.code)

theorem step_iterate (n : ℕ) : step^[n] ⟨1⟩ = ⟨power n⟩ := by
  induction n with
  | zero => rfl
  | succ n ih =>
    rw [Function.iterate_succ_apply', ih, power_succ]
    rfl

def logarithm : Logarithm Gf where
  step := step
  one := ⟨1⟩
  log a := gfLog a.code
  iterate_log a ha := by
    rw [step_iterate, power_gfLog fun h => ha (Gf.ext h)]

instance : CommRing Gf := logarithm.commRing

/-- The product of the tables. -/
theorem mk_gfMul (a b : Codeword) : mk (gfMul a b) = mk a * mk b := by
  change mk (gfMul a b) = logarithm.mul (mk a) (mk b)
  by_cases ha : a = 0
  · have hzero : gfMul a b = 0 := if_pos (Or.inl ha)
    rw [hzero, mk_eq_zero.mpr ha, Logarithm.zero_mul]
    rfl
  by_cases hb : b = 0
  · have hzero : gfMul a b = 0 := if_pos (Or.inr hb)
    rw [hzero, mk_eq_zero.mpr hb, Logarithm.mul_zero]
    rfl
  have hvalue := logarithm.mul_eq_iterate (mt mk_eq_zero.mp ha) (mt mk_eq_zero.mp hb)
  rw [hvalue, gfMul_of_ne_zero ha hb]
  exact (step_iterate _).symm

/-! ### The loops -/

variable (coef t : Codeword) (p as data buffer result : List Codeword) (i k n : ℕ)

theorem map_modify : (buffer.modify k (· ^^^ t)).map mk = (buffer.map mk).modify k (· + mk t) := by
  induction buffer generalizing k with
  | nil => simp
  | cons c buffer ih =>
    cases k with
    | zero => rfl
    | succ k => rw [List.modify_succ_cons, List.map_cons, ih, List.map_cons, List.modify_succ_cons]

theorem map_xorAt : (xorAt (p.map (gfMul · coef)) k buffer).map mk =
    addScaledAt (mk coef) (p.map mk) k (buffer.map mk) := by
  induction p generalizing k buffer with
  | nil => rfl
  | cons c p ih => rw [List.map_cons, xorAt, ih, map_modify, mk_gfMul, List.map_cons, addScaledAt]

theorem gfMul_comm (a b : Codeword) : gfMul a b = gfMul b a :=
  congrArg code (((mk_gfMul a b).trans (mul_comm _ _)).trans (mk_gfMul b a).symm)

theorem map_polyMulRows : (polyMulRows p as i result).map mk = mulInto (p.map mk) (as.map mk) i (result.map mk) := by
  induction as generalizing i result with
  | nil => rfl
  | cons a as ih =>
    have hcomm : p.map (gfMul a) = p.map (gfMul · a) := List.map_congr_left fun c _ => gfMul_comm a c
    rw [polyMulRows, ih, hcomm, map_xorAt, List.map_cons, mulInto]

theorem map_polyMul : (polyMul as p).map mk = mulPoly (as.map mk) (p.map mk) := by
  rw [polyMul, map_polyMulRows, mulPoly, List.length_map, List.length_map, List.map_replicate]
  rfl

/-- The roots of the generator. -/
def roots (degree : ℕ) : List Gf := (List.range degree).map fun i => mk (gfExp i)

theorem map_rsGeneratorPoly (degree : ℕ) : (rsGeneratorPoly degree).map mk = generator (roots degree) := by
  induction degree with
  | zero => rfl
  | succ degree ih =>
    have hstep : rsGeneratorPoly (degree + 1) = polyMul (rsGeneratorPoly degree) [1, gfExp degree] := by
      rw [rsGeneratorPoly, List.range_succ, List.foldl_append]
      rfl
    have hroots : roots (degree + 1) = roots degree ++ [mk (gfExp degree)] := by
      rw [roots, List.range_succ, List.map_append]
      rfl
    rw [hstep, map_polyMul, ih, hroots, generator, generator, List.foldl_append]
    rfl

theorem map_rsDivide (g : List Codeword) :
    (rsDivide g n i buffer).map mk = eliminate (g.map mk) n i (buffer.map mk) := by
  induction n generalizing i buffer with
  | zero => rfl
  | succ n ih =>
    have hcoef : (buffer.map mk).getD i 0 = mk (buffer.getD i 0) := List.getD_map buffer 0 mk
    rw [rsDivide, eliminate, ih, hcoef]
    simp only [mk_eq_zero]
    split_ifs with hzero
    · rfl
    · rw [map_xorAt]

theorem map_rsEncode (ecLength : ℕ) :
    (rsEncode data ecLength).map mk = checkSymbols (generator (roots ecLength)) (data.map mk) := by
  have hlength : (generator (roots ecLength)).length - 1 = ecLength := by
    rw [length_generator, roots, List.length_map, List.length_range, Nat.add_sub_cancel]
  rw [rsEncode, List.map_drop, map_rsDivide, map_rsGeneratorPoly, checkSymbols, hlength, List.map_append,
    List.map_replicate, List.length_map]
  rfl

theorem mk_gfEval (x : Codeword) (block : List Codeword) : mk (gfEval x block) = horner (mk x) (block.map mk) := by
  have hfold : ∀ value, mk (block.foldl (fun value c => gfMul value x ^^^ c) value) =
      (block.map mk).foldl (fun value c => value * mk x + c) (mk value) := by
    induction block with
    | nil => exact fun _ => rfl
    | cons c block ih =>
      intro value
      rw [List.foldl_cons, ih, mk_xor, mk_gfMul, List.map_cons, List.foldl_cons]
  exact hfold 0

end Gf

/-! ### Blocks -/

theorem length_rsEncode (data : List Codeword) (ecLength : ℕ) : (rsEncode data ecLength).length = ecLength := by
  rw [← List.length_map Gf.mk, Gf.map_rsEncode, length_checkSymbols Gf.add_self, Gf.roots, List.length_map,
    List.length_range]

/-- A block with its error correction codewords has no syndrome. -/
theorem syndromes_rsEncode (data : List Codeword) (ecLength : ℕ) :
    ∀ s ∈ syndromes (data ++ rsEncode data ecLength) ecLength, s = 0 := by
  intro s hs
  obtain ⟨i, hi, rfl⟩ := List.mem_map.mp hs
  have hroot : Gf.mk (gfExp i) ∈ Gf.roots ecLength := List.mem_map.mpr ⟨i, hi, rfl⟩
  rw [← Gf.mk_eq_zero, Gf.mk_gfEval, List.map_append, Gf.map_rsEncode]
  exact horner_append_checkSymbols Gf.add_self hroot

end Arald
