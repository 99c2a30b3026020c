import Arald.Foundations.Chunks

/-!
# Numbers as lists of bits

Most significant bit first, of a fixed length, and such lists put together.
-/

namespace Foundations

variable {α β : Type*} {n v : ℕ} {bits : List Bool}

def toBits (n v : ℕ) : List Bool := (List.range n).reverse.map v.testBit

def ofBits (bits : List Bool) : ℕ := bits.foldl (fun v b => v <<< 1 ||| b.toNat) 0

@[simp] theorem length_toBits (n v : ℕ) : (toBits n v).length = n := by simp [toBits]

theorem toBits_succ (n v : ℕ) : toBits (n + 1) v = v.testBit n :: toBits n v := by
  rw [toBits, List.range_succ, List.reverse_append]
  rfl

theorem shift_or (v : ℕ) (b : Bool) : v <<< 1 ||| b.toNat = v * 2 + b.toNat := by
  have hlt : b.toNat < 2 ^ 1 := by cases b <;> decide
  rw [← Nat.shiftLeft_add_eq_or_of_lt hlt, Nat.shiftLeft_eq]

theorem foldl_ofBits (v : ℕ) (bits : List Bool) :
    bits.foldl (fun v b => v <<< 1 ||| b.toNat) v = v * 2 ^ bits.length + ofBits bits := by
  induction bits generalizing v with
  | nil => simp [ofBits]
  | cons b bits ih =>
    rw [ofBits, List.foldl_cons, List.foldl_cons, ih, ih, shift_or, shift_or, List.length_cons, pow_succ]
    ring

@[simp] theorem ofBits_nil : ofBits [] = 0 := rfl

theorem ofBits_cons (b : Bool) (bits : List Bool) : ofBits (b :: bits) = 2 ^ bits.length * b.toNat + ofBits bits := by
  rw [ofBits, List.foldl_cons, foldl_ofBits, shift_or, Nat.zero_mul, Nat.zero_add, Nat.mul_comm]

theorem ofBits_lt (bits : List Bool) : ofBits bits < 2 ^ bits.length := by
  induction bits with
  | nil => simp
  | cons b bits ih =>
    rw [ofBits_cons, List.length_cons, pow_succ]
    cases b <;> simp <;> omega

theorem ofBits_toBits (n v : ℕ) : ofBits (toBits n v) = v % 2 ^ n := by
  induction n with
  | zero => simp [toBits, Nat.mod_one]
  | succ n ih => rw [toBits_succ, ofBits_cons, length_toBits, ih, Nat.mod_pow_succ, Nat.toNat_testBit, Nat.add_comm]

theorem toBits_congr {w : ℕ} (h : ∀ i < n, v.testBit i = w.testBit i) : toBits n v = toBits n w :=
  List.map_congr_left fun i hi => h i (List.mem_range.mp (List.mem_reverse.mp hi))

theorem toBits_ofBits (bits : List Bool) : toBits bits.length (ofBits bits) = bits := by
  induction bits with
  | nil => rfl
  | cons b bits ih =>
    have htop : (2 ^ bits.length * b.toNat + ofBits bits).testBit bits.length = b := by
      rw [Nat.testBit_two_pow_mul_add _ (ofBits_lt bits), if_neg (lt_irrefl _), Nat.sub_self]
      cases b <;> rfl
    have hlow : ∀ i < bits.length, (2 ^ bits.length * b.toNat + ofBits bits).testBit i = (ofBits bits).testBit i := by
      intro i hi
      rw [Nat.testBit_two_pow_mul_add _ (ofBits_lt bits), if_pos hi]
    rw [ofBits_cons, List.length_cons, toBits_succ, htop, toBits_congr hlow, ih]

theorem toBits_add (m n v : ℕ) : toBits (m + n) v = toBits m (v / 2 ^ n) ++ toBits n v := by
  induction m with
  | zero =>
    rw [Nat.zero_add]
    rfl
  | succ m ih => rw [Nat.add_right_comm, toBits_succ, toBits_succ, ih, Nat.testBit_div_two_pow, List.cons_append]

theorem toBits_mod (n v : ℕ) : toBits n (v % 2 ^ n) = toBits n v := by
  apply toBits_congr
  intro i hi
  rw [Nat.testBit_mod_two_pow, decide_eq_true hi, Bool.true_and]

theorem toBits_zero (n : ℕ) : toBits n 0 = List.replicate n false := by
  rw [toBits, List.eq_replicate_iff]
  simp

theorem ofBits_append (bits bits' : List Bool) : ofBits (bits ++ bits') = ofBits bits * 2 ^ bits'.length + ofBits bits' := by
  rw [ofBits, List.foldl_append, foldl_ofBits]
  rfl

/-! ### Lists of pieces of one length -/

theorem length_flatMap_of_length {f : α → List β} (h : ∀ a, (f a).length = n) (l : List α) :
    (l.flatMap f).length = n * l.length := by
  induction l with
  | nil => rfl
  | cons a l ih =>
    rw [List.flatMap_cons, List.length_append, h, ih, List.length_cons]
    ring

theorem drop_flatMap {f : α → List β} (h : ∀ a, (f a).length = n) (l : List α) (k : ℕ) :
    (l.flatMap f).drop (n * k) = (l.drop k).flatMap f := by
  induction k generalizing l with
  | zero => rfl
  | succ k ih =>
    cases l with
    | nil => rw [List.flatMap_nil, List.drop_nil, List.drop_nil, List.flatMap_nil]
    | cons a l =>
      rw [List.flatMap_cons, Nat.mul_succ, Nat.add_comm, ← List.drop_drop, List.drop_left' (h a), ih, List.drop_succ_cons]

theorem take_flatMap {f : α → List β} (h : ∀ a, (f a).length = n) (l : List α) (k : ℕ) :
    (l.flatMap f).take (n * k) = (l.take k).flatMap f := by
  induction k generalizing l with
  | zero => rw [Nat.mul_zero, List.take_zero, List.take_zero, List.flatMap_nil]
  | succ k ih =>
    cases l with
    | nil => rw [List.flatMap_nil, List.take_nil, List.take_nil, List.flatMap_nil]
    | cons a l =>
      have hlength : n * (k + 1) = (f a).length + n * k := by
        rw [h]
        ring
      rw [List.flatMap_cons, hlength, List.take_length_add_append, ih, List.take_succ_cons, List.flatMap_cons]

theorem chunk_flatMap_mul {f : α → List β} (h : ∀ a, (f a).length = n) (l : List α) (size i : ℕ) :
    chunk (n * size) (l.flatMap f) i = (chunk size l i).flatMap f := by
  rw [chunk, Nat.mul_left_comm, drop_flatMap h, take_flatMap h]
  rfl

/-- The chunks are the pieces. -/
theorem chunk_flatMap {f : α → List β} (h : ∀ a, (f a).length = n) (l : List α) (rest : List β) {i : ℕ}
    (hi : i < l.length) : chunk n (l.flatMap f ++ rest) i = f l[i] := by
  induction l generalizing i with
  | nil => cases hi
  | cons a l ih =>
    rw [List.flatMap_cons, List.append_assoc, chunk]
    cases i with
    | zero =>
      rw [Nat.zero_mul, List.drop_zero]
      exact List.take_left' (h a)
    | succ i =>
      have hi' : i < l.length := Nat.lt_of_succ_lt_succ hi
      have hdrop : (i + 1) * n = (f a).length + i * n := by
        rw [h]
        ring
      rw [hdrop, ← List.drop_drop, List.drop_left]
      exact ih hi'

end Foundations
