import Mathlib

/-!
# ECMAScript numbers and JSON values

A number is a rational, one of the two infinities, or NaN; the sign of zero is
not kept, since no comparison or sum that a program makes of it here can tell
the two zeros apart. Sums are rounded to binary64, ties to even.

A value is what `JSON.parse` can return, together with `undefined` for what is
absent. Property access follows `?.`: anything but an object has no property.
-/

namespace Foundations

inductive JsNumber where
  | nan
  | posInf
  | negInf
  | finite (q : ℚ)
  deriving DecidableEq

namespace JsNumber

instance : Inhabited JsNumber := ⟨finite 0⟩

/-- Nearest integer, ties to the even one. -/
def roundEven (q : ℚ) : ℤ :=
  let f := ⌊q⌋
  if q - f < 1 / 2 then f
  else if 1 / 2 < q - f then f + 1
  else if f % 2 = 0 then f
  else f + 1

/-- Distance of neighbouring binary64 numbers around `q`. -/
def ulp (q : ℚ) : ℚ := 2 ^ max (Int.log 2 |q| - 52) (-1074)

/-- The binary64 number nearest to `q`. -/
def round (q : ℚ) : JsNumber :=
  let r := roundEven (q / ulp q) * ulp q
  if 2 ^ 1024 ≤ r then posInf
  else if r ≤ -2 ^ 1024 then negInf
  else finite r

def add : JsNumber → JsNumber → JsNumber
  | finite a, finite b => round (a + b)
  | nan, _ => nan
  | _, nan => nan
  | posInf, negInf => nan
  | negInf, posInf => nan
  | posInf, _ => posInf
  | _, posInf => posInf
  | negInf, _ => negInf
  | _, negInf => negInf

/-- The operator `<`, false whenever NaN takes part. -/
def lt : JsNumber → JsNumber → Bool
  | finite a, finite b => a < b
  | nan, _ => false
  | _, nan => false
  | negInf, negInf => false
  | negInf, _ => true
  | posInf, _ => false
  | finite _, posInf => true
  | finite _, negInf => false

/-- The operator `<=`, false whenever NaN takes part. -/
def le : JsNumber → JsNumber → Bool
  | finite a, finite b => a ≤ b
  | nan, _ => false
  | _, nan => false
  | negInf, _ => true
  | _, posInf => true
  | posInf, _ => false
  | _, negInf => false

/-- `Number.isInteger`. -/
def isInteger : JsNumber → Bool
  | finite q => q.den = 1
  | _ => false

@[simp] theorem lt_finite (a b : ℚ) : (finite a).lt (finite b) = decide (a < b) := rfl

@[simp] theorem le_finite (a b : ℚ) : (finite a).le (finite b) = decide (a ≤ b) := rfl

@[simp] theorem roundEven_intCast (n : ℤ) : roundEven n = n := by
  simp [roundEven]

theorem ulp_pos (q : ℚ) : 0 < ulp q := zpow_pos (by norm_num) _

/-- Rounding leaves a multiple of the spacing at its own magnitude alone. -/
theorem round_of_multiple (q : ℚ) (n : ℤ) (h : q = n * ulp q) (hbound : |q| < 2 ^ 1024) :
    round q = finite q := by
  obtain ⟨hlow, hhigh⟩ := abs_lt.mp hbound
  have hdiv : q / ulp q = n := by
    rw [div_eq_iff (ulp_pos q).ne']
    exact h
  have hvalue : (roundEven (q / ulp q) : ℚ) * ulp q = q := by
    rw [hdiv, roundEven_intCast, ← h]
  unfold round
  simp only [hvalue, if_neg (not_le.mpr hhigh), if_neg (not_le.mpr hlow)]

/-- Integers below `2^53` in magnitude are binary64 numbers. -/
theorem round_intCast {n : ℤ} (h : |n| < 2 ^ 53) : round n = finite n := by
  have habs : |(n : ℚ)| < 2 ^ 53 := by exact_mod_cast h
  have hlog : Int.log 2 |(n : ℚ)| - 52 ≤ 0 := by
    rcases eq_or_ne n 0 with rfl | hne
    · simp
    · have hpos : 0 < |(n : ℚ)| := by positivity
      have hlt : Int.log 2 |(n : ℚ)| < 53 :=
        (Int.lt_zpow_iff_log_lt one_lt_two hpos).mp (by exact_mod_cast habs)
      omega
  have hexp : max (Int.log 2 |(n : ℚ)| - 52) (-1074) ≤ 0 := max_le hlog (by norm_num)
  obtain ⟨k, hk⟩ := Int.eq_ofNat_of_zero_le (neg_nonneg.mpr hexp)
  refine round_of_multiple n (n * 2 ^ k) ?_
    (habs.trans (pow_lt_pow_right₀ one_lt_two (by norm_num)))
  have hulp : ulp n = (2 ^ k)⁻¹ := by
    rw [ulp, ← neg_neg (max _ _), hk, zpow_neg]
    simp
  rw [hulp]
  push_cast
  field_simp

theorem add_neg_one {n : ℤ} (hpos : 0 < n) (h : n ≤ 2 ^ 53) :
    add (finite n) (finite (-1)) = finite ((n - 1 : ℤ) : ℚ) := by
  have hsmall : |n - 1| < 2 ^ 53 := abs_lt.mpr ⟨by omega, by omega⟩
  rw [← round_intCast hsmall, add]
  congr 1
  push_cast
  ring

end JsNumber

/-! ### Integers and `Infinity`

A size limit, a score or a deadline is an integer or `Infinity`. The order of
`WithTop ℤ` is decided by cases here, so that it can be executed. -/

instance (priority := high) decidableLeWithTopInt : DecidableLE (WithTop ℤ)
  | _, none => isTrue le_top
  | none, some _ => isFalse (WithTop.not_top_le_coe _)
  | some a, some b => decidable_of_iff (a ≤ b) WithTop.coe_le_coe.symm

instance (priority := high) decidableLtWithTopInt : DecidableLT (WithTop ℤ) := fun a b =>
  decidable_of_iff (¬b ≤ a) not_le

/-- What `JSON.parse` returns, and `undefined`. -/
inductive JsValue where
  | undefined
  | null
  | bool (b : Bool)
  | num (n : JsNumber)
  | str (s : String)
  | arr (items : List JsValue)
  | obj (fields : List (String × JsValue))

namespace JsValue

instance : Inhabited JsValue := ⟨undefined⟩

/-- The property `name`, or `undefined`. -/
def prop (name : String) : JsValue → JsValue
  | obj fields => ((fields.find? fun f => f.1 = name).map Prod.snd).getD undefined
  | _ => undefined

/-- The value is a string: `typeof v === "string"`. -/
def string? : JsValue → Option String
  | str s => some s
  | _ => none

/-- The value is a number: `typeof v === "number"`. -/
def number? : JsValue → Option JsNumber
  | num n => some n
  | _ => none

/-- The value is an array: `Array.isArray(v)`. -/
def array? : JsValue → Option (List JsValue)
  | arr items => some items
  | _ => none

/-- `typeof v === "object" && v !== null`. -/
def isObject : JsValue → Bool
  | arr _ => true
  | obj _ => true
  | _ => false

/-- `v === true`. -/
def isTrue : JsValue → Bool
  | bool b => b
  | _ => false

/-- Conversion to a condition, as in `if (v)`. -/
def truthy : JsValue → Bool
  | undefined => false
  | null => false
  | bool b => b
  | num n => n ≠ .finite 0 ∧ n ≠ .nan
  | str s => s ≠ ""
  | arr _ => true
  | obj _ => true

/-- The value is a finite number: `typeof v === "number" && Number.isFinite(v)`. -/
def finite? : JsValue → Option ℚ
  | num (.finite q) => some q
  | _ => none

/-- `v ?? d`. -/
def orElse (v d : JsValue) : JsValue :=
  match v with
  | undefined => d
  | null => d
  | _ => v

def ofString (s : Option String) : JsValue := (s.map str).getD undefined

def ofRat (q : Option ℚ) : JsValue := (q.map fun q => num (.finite q)).getD undefined

def isUndefined : JsValue → Bool
  | undefined => true
  | _ => false

def isNull : JsValue → Bool
  | null => true
  | _ => false

end JsValue

/-- `s.length`, the number of UTF-16 code units. -/
def utf16Length (s : String) : ℕ := (s.toList.map fun c => if c.toNat < 0x10000 then 1 else 2).sum

end Foundations
