import Mathlib

/-!
# Multiplication by logarithms

An additive map and an element whose images under it are all the elements but zero. The
product of two elements takes the second as often through the map as the logarithm of the
first says, and with it the group is a commutative ring.
-/

namespace Foundations

structure Logarithm (A : Type*) [AddCommGroup A] where
  step : A →+ A
  one : A
  log : A → ℕ
  iterate_log : ∀ a ≠ 0, step^[log a] one = a

namespace Logarithm

variable {A : Type*} [AddCommGroup A] [DecidableEq A] (L : Logarithm A) {a b c : A}

def mul (a b : A) : A := if a = 0 then 0 else L.step^[L.log a] b

@[simp] theorem zero_mul (b : A) : L.mul 0 b = 0 := if_pos rfl

@[simp] theorem mul_zero (a : A) : L.mul a 0 = 0 := by
  rw [mul]
  split_ifs
  · rfl
  · exact iterate_map_zero L.step _

theorem mul_eq (ha : a ≠ 0) (b : A) : L.mul a b = L.step^[L.log a] b := if_neg ha

theorem mul_eq_iterate (ha : a ≠ 0) (hb : b ≠ 0) : L.mul a b = L.step^[L.log a + L.log b] L.one := by
  rw [mul_eq L ha, Function.iterate_add_apply, L.iterate_log b hb]

theorem mul_comm (a b : A) : L.mul a b = L.mul b a := by
  by_cases ha : a = 0
  · rw [ha, zero_mul, mul_zero]
  by_cases hb : b = 0
  · rw [hb, zero_mul, mul_zero]
  rw [mul_eq_iterate L ha hb, mul_eq_iterate L hb ha, Nat.add_comm]

theorem mul_add (a b c : A) : L.mul a (b + c) = L.mul a b + L.mul a c := by
  by_cases ha : a = 0
  · rw [ha, zero_mul, zero_mul, zero_mul, add_zero]
  · rw [mul_eq L ha, mul_eq L ha, mul_eq L ha, iterate_map_add]

theorem mul_left_comm (a b c : A) : L.mul a (L.mul b c) = L.mul b (L.mul a c) := by
  by_cases ha : a = 0
  · rw [ha, zero_mul, zero_mul, mul_zero]
  by_cases hb : b = 0
  · rw [hb, zero_mul, zero_mul, mul_zero]
  rw [mul_eq L ha, mul_eq L hb, mul_eq L hb, mul_eq L ha, ← Function.iterate_add_apply, ← Function.iterate_add_apply,
    Nat.add_comm]

theorem mul_assoc (a b c : A) : L.mul (L.mul a b) c = L.mul a (L.mul b c) := by
  rw [mul_comm L (L.mul a b) c, mul_left_comm, mul_comm L c b]

theorem one_mul (b : A) : L.mul L.one b = b := by
  by_cases hb : b = 0
  · rw [hb, mul_zero]
  by_cases hone : L.one = 0
  · refine absurd ?_ hb
    rw [← L.iterate_log b hb, hone, iterate_map_zero]
  · rw [mul_eq_iterate L hone hb, Nat.add_comm, Function.iterate_add_apply, L.iterate_log L.one hone,
      L.iterate_log b hb]

/-- The ring. -/
abbrev commRing : CommRing A :=
  { (inferInstance : AddCommGroup A) with
    mul := L.mul
    one := L.one
    mul_assoc := L.mul_assoc
    mul_comm := L.mul_comm
    one_mul := L.one_mul
    mul_one := fun a => (L.mul_comm a L.one).trans (L.one_mul a)
    left_distrib := L.mul_add
    right_distrib := fun a b c => by
      change L.mul (a + b) c = L.mul a c + L.mul b c
      rw [L.mul_comm (a + b) c, L.mul_add, L.mul_comm c a, L.mul_comm c b]
    zero_mul := L.zero_mul
    mul_zero := L.mul_zero }

end Logarithm

end Foundations
