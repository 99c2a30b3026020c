import Mathlib

/-!
# Bitwise operators on numbers

The operators of JavaScript convert an integral number to 32 bits first. All of them but `>>>`
return a signed number.
-/

namespace Foundations

variable {x y : ℤ} {n : ℕ}

/-- The 32 bits of a number. -/
def toWord (x : ℤ) : BitVec 32 := BitVec.ofInt 32 x

def jsAnd (x y : ℤ) : ℤ := (toWord x &&& toWord y).toInt

def jsOr (x y : ℤ) : ℤ := (toWord x ||| toWord y).toInt

def jsXor (x y : ℤ) : ℤ := (toWord x ^^^ toWord y).toInt

def jsNot (x : ℤ) : ℤ := (~~~toWord x).toInt

/-- `x << n`. -/
def jsShl (x : ℤ) (n : ℕ) : ℤ := (toWord x <<< (n % 32)).toInt

/-- `x >>> n`. -/
def jsShr (x : ℤ) (n : ℕ) : ℤ := (toWord x >>> (n % 32)).toNat

/-- `x >> n`. -/
def jsSar (x : ℤ) (n : ℕ) : ℤ := ((toWord x).sshiftRight (n % 32)).toInt

/-- `x | 0`. -/
def toInt32 (x : ℤ) : ℤ := (toWord x).toInt

/-- What an element of an array of unsigned words keeps of a number. -/
def toUint32 (x : ℤ) : ℤ := (toWord x).toNat

@[simp] theorem toWord_toInt (w : BitVec 32) : toWord w.toInt = w := BitVec.ofInt_toInt

@[simp] theorem toWord_toNat (w : BitVec 32) : toWord w.toNat = w := by
  rw [toWord, BitVec.ofInt_natCast, BitVec.ofNat_toNat, BitVec.setWidth_eq]

@[simp] theorem toWord_natCast (n : ℕ) : toWord n = BitVec.ofNat 32 n := BitVec.ofInt_natCast ..

@[simp] theorem toWord_add (x y : ℤ) : toWord (x + y) = toWord x + toWord y := BitVec.ofInt_add ..

@[simp] theorem toWord_jsAnd (x y : ℤ) : toWord (jsAnd x y) = toWord x &&& toWord y := toWord_toInt _

@[simp] theorem toWord_jsOr (x y : ℤ) : toWord (jsOr x y) = toWord x ||| toWord y := toWord_toInt _

@[simp] theorem toWord_jsXor (x y : ℤ) : toWord (jsXor x y) = toWord x ^^^ toWord y := toWord_toInt _

@[simp] theorem toWord_jsNot (x : ℤ) : toWord (jsNot x) = ~~~toWord x := toWord_toInt _

@[simp] theorem toWord_jsShl (x : ℤ) (n : ℕ) : toWord (jsShl x n) = toWord x <<< (n % 32) := toWord_toInt _

@[simp] theorem toWord_jsShr (x : ℤ) (n : ℕ) : toWord (jsShr x n) = toWord x >>> (n % 32) := toWord_toNat _

@[simp] theorem toWord_toInt32 (x : ℤ) : toWord (toInt32 x) = toWord x := toWord_toInt _

@[simp] theorem toWord_toUint32 (x : ℤ) : toWord (toUint32 x) = toWord x := toWord_toNat _

theorem jsShr_zero (x : ℤ) : jsShr x 0 = (toWord x).toNat := by
  rw [jsShr, Nat.zero_mod, BitVec.ushiftRight_zero]

/-- Half a word, with its sign. -/
theorem jsSar_jsShl (x : ℤ) : jsSar (jsShl x 16) 16 = x.bmod (2 ^ 16) := by
  have hshift : (toWord x <<< 16).toInt = (x * 2 ^ 16).bmod (2 ^ 32) := by
    rw [BitVec.toInt_shiftLeft, toWord, BitVec.toNat_ofInt, Nat.shiftLeft_eq]
    simp only [Int.bmod]
    omega
  rw [jsSar, toWord_jsShl, Nat.mod_eq_of_lt (by decide), BitVec.toInt_sshiftRight, hshift, Int.shiftRight_eq_div_pow]
  simp only [Int.bmod, Nat.cast_pow, Nat.cast_ofNat]
  omega

end Foundations
