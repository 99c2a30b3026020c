import Mathlib

/-!
# Numerals

The value of a text of digits in a base up to sixteen, most significant digit first;
hexadecimal digits in either case.
-/

namespace Foundations

def digit? (c : Char) : Option ℕ :=
  if '0' ≤ c ∧ c ≤ '9' then some (c.toNat - '0'.toNat)
  else if 'a' ≤ c ∧ c ≤ 'f' then some (c.toNat - 'a'.toNat + 10)
  else if 'A' ≤ c ∧ c ≤ 'F' then some (c.toNat - 'A'.toNat + 10)
  else none

def isDigit (base : ℕ) (c : Char) : Bool := (digit? c).any fun d => d < base

def numeral (base : ℕ) (text : List Char) : ℕ := text.foldl (fun n c => n * base + (digit? c).getD 0) 0

variable {base : ℕ} {text : List Char} {c : Char}

theorem foldl_digits (base n : ℕ) (text : List Char) :
    text.foldl (fun n c => n * base + (digit? c).getD 0) n = n * base ^ text.length + numeral base text := by
  induction text generalizing n with
  | nil => simp [numeral]
  | cons c text ih =>
    rw [numeral, List.foldl_cons, List.foldl_cons, ih, ih, List.length_cons, pow_succ]
    ring

@[simp] theorem numeral_nil (base : ℕ) : numeral base [] = 0 := rfl

theorem numeral_cons (base : ℕ) (c : Char) (text : List Char) :
    numeral base (c :: text) = (digit? c).getD 0 * base ^ text.length + numeral base text := by
  rw [numeral, List.foldl_cons, foldl_digits, Nat.zero_mul, Nat.zero_add]

theorem numeral_append (base : ℕ) (xs ys : List Char) :
    numeral base (xs ++ ys) = numeral base xs * base ^ ys.length + numeral base ys := by
  rw [numeral, List.foldl_append, foldl_digits]
  rfl

/-- Leading zeros do not count. -/
theorem numeral_replicate_zero_append (base k : ℕ) (text : List Char) :
    numeral base (List.replicate k '0' ++ text) = numeral base text := by
  induction k with
  | zero => rfl
  | succ k ih =>
    rw [List.replicate_succ, List.cons_append, numeral_cons, ih]
    have hzero : (digit? '0').getD 0 = 0 := rfl
    rw [hzero, Nat.zero_mul, Nat.zero_add]

theorem digit_lt (h : isDigit base c = true) : (digit? c).getD 0 < base := by
  rw [isDigit] at h
  cases hdigit : digit? c with
  | none => rw [hdigit] at h; cases h
  | some d => simpa [hdigit] using h

theorem numeral_lt (h : ∀ c ∈ text, isDigit base c = true) : numeral base text < base ^ text.length := by
  induction text with
  | nil => simp
  | cons c text ih =>
    have hhead := digit_lt (h c List.mem_cons_self)
    have htail := ih fun d hd => h d (List.mem_cons_of_mem c hd)
    rw [numeral_cons, List.length_cons, pow_succ]
    calc (digit? c).getD 0 * base ^ text.length + numeral base text
        < (digit? c).getD 0 * base ^ text.length + base ^ text.length := Nat.add_lt_add_left htail _
      _ = ((digit? c).getD 0 + 1) * base ^ text.length := by ring
      _ ≤ base * base ^ text.length := Nat.mul_le_mul_right _ hhead
      _ = base ^ text.length * base := Nat.mul_comm _ _

/-! ### Upper and lower case -/

@[simp] theorem digit?_toLower (c : Char) : digit? c.toLower = digit? c := by
  by_cases hupper : 65 ≤ c.toNat ∧ c.toNat ≤ 90
  · have hall : ∀ n ∈ Finset.Icc 65 90, digit? (Char.ofNat n).toLower = digit? (Char.ofNat n) := by decide
    have hc := hall c.toNat (Finset.mem_Icc.mpr hupper)
    rwa [Char.ofNat_toNat] at hc
  · have hsame : c.toLower = c := by
      rw [Char.toLower]
      exact dif_neg hupper
    rw [hsame]

@[simp] theorem numeral_map_toLower (base : ℕ) (text : List Char) :
    numeral base (text.map Char.toLower) = numeral base text := by
  rw [numeral, List.foldl_map]
  simp [numeral]

/-! ### Decimal numbers below 256 -/

/-- Decimal without leading zeros. -/
def isDecimal (text : List Char) : Bool :=
  text ≠ [] && text.all (isDigit 10) && (text = ['0'] || text.head? ≠ some '0')

theorem toDigits_byte {n : ℕ} (h : n < 256) :
    numeral 10 (Nat.toDigits 10 n) = n ∧ isDecimal (Nat.toDigits 10 n) = true ∧ (Nat.toDigits 10 n).length ≤ 3 := by
  have hall : ((List.range 256).all fun n => numeral 10 (Nat.toDigits 10 n) = n &&
      (isDecimal (Nat.toDigits 10 n) && decide ((Nat.toDigits 10 n).length ≤ 3))) = true := by
    decide +kernel
  simpa using List.all_eq_true.mp hall n (List.mem_range.mpr h)

end Foundations
