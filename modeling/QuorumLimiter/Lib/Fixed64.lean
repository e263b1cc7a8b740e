import Mathlib.Algebra.Order.Ring.Int
import Mathlib.Tactic.Linarith

/-!
64-bit signed arithmetic through the integers it stands for: where a result fits,
the operation is exact, and a product that does not fit is noticed by dividing it
back, a sum that does not fit by comparing it with a summand. The `exact` operations
stop where the machine would go on with another number, or divide by zero.
-/

namespace Fixed64

theorem bmod_fits {value : Int} (low : -2 ^ 63 ≤ value) (high : value < 2 ^ 63) :
    value.bmod (2 ^ 64) = value := by
  apply Int.bmod_eq_of_le_mul_two
  · norm_num
    linarith
  · norm_num
    linarith

variable {a b : Int64}

theorem toInt_add_fits (low : -2 ^ 63 ≤ a.toInt + b.toInt) (high : a.toInt + b.toInt < 2 ^ 63) :
    (a + b).toInt = a.toInt + b.toInt := by
  rw [Int64.toInt_add, bmod_fits low high]

theorem toInt_sub_fits (low : -2 ^ 63 ≤ a.toInt - b.toInt) (high : a.toInt - b.toInt < 2 ^ 63) :
    (a - b).toInt = a.toInt - b.toInt := by
  rw [Int64.toInt_sub, bmod_fits low high]

theorem toInt_mul_fits (low : -2 ^ 63 ≤ a.toInt * b.toInt) (high : a.toInt * b.toInt < 2 ^ 63) :
    (a * b).toInt = a.toInt * b.toInt := by
  rw [Int64.toInt_mul, bmod_fits low high]

theorem toInt_div_pos (divisor : 0 < b.toInt) : (a / b).toInt = a.toInt.tdiv b.toInt := by
  have low := a.le_toInt
  have high := a.toInt_lt
  rw [Int64.toInt_div]
  rcases le_or_gt 0 a.toInt with positive | negative
  · have small := Int.ediv_le_self b.toInt positive
    have big := Int.ediv_nonneg positive (le_of_lt divisor)
    rw [Int.tdiv_eq_ediv_of_nonneg positive, bmod_fits (by linarith) (by linarith)]
  · have flipped : a.toInt.tdiv b.toInt = -(-a.toInt / b.toInt) := by
      rw [← Int.tdiv_eq_ediv_of_nonneg (by linarith), Int.neg_tdiv, neg_neg]
    have small := Int.ediv_le_self b.toInt (show 0 ≤ -a.toInt by linarith)
    have big := Int.ediv_nonneg (show 0 ≤ -a.toInt by linarith) (le_of_lt divisor)
    rw [flipped, bmod_fits (by linarith) (by linarith)]

theorem toInt_div_nonneg (positive : 0 ≤ a.toInt) (divisor : 0 < b.toInt) :
    (a / b).toInt = a.toInt / b.toInt := by
  rw [toInt_div_pos divisor, Int.tdiv_eq_ediv_of_nonneg positive]

theorem toInt_mod_nonneg (positive : 0 ≤ a.toInt) : (a % b).toInt = a.toInt % b.toInt := by
  rw [Int64.toInt_mod, Int.tmod_eq_emod_of_nonneg positive]

theorem toInt_div_neg (negative : a.toInt ≤ 0) (divisor : 0 < b.toInt) : (a / b).toInt ≤ 0 := by
  have big := Int.tdiv_nonneg (show 0 ≤ -a.toInt by linarith) (le_of_lt divisor)
  rw [Int.neg_tdiv] at big
  rw [toInt_div_pos divisor]
  linarith

theorem div_back_ne (left : 0 ≤ a.toInt) (right : 0 < b.toInt)
    (wraps : 2 ^ 63 ≤ a.toInt * b.toInt) : (a * b) / b ≠ a := by
  intro same
  have bound := (a * b).toInt_lt
  have back := congrArg Int64.toInt same
  rcases le_or_gt (a * b).toInt 0 with negative | positive
  · have factor : a.toInt ≤ 0 := back ▸ toInt_div_neg negative right
    have zero : a.toInt = 0 := le_antisymm factor left
    rw [zero, zero_mul] at wraps
    norm_num at wraps
  · rw [toInt_div_nonneg (le_of_lt positive) right] at back
    have below := Int.ediv_mul_le (a * b).toInt (ne_of_gt right)
    rw [back] at below
    linarith

theorem div_back_eq (left : 0 ≤ a.toInt) (right : 0 < b.toInt)
    (fits : a.toInt * b.toInt < 2 ^ 63) : (a * b) / b = a := by
  have product := mul_nonneg left (le_of_lt right)
  have exact := toInt_mul_fits (by linarith) fits
  rw [← Int64.toInt_inj, toInt_div_nonneg (exact ▸ product) right, exact,
    Int.mul_ediv_cancel _ (ne_of_gt right)]

theorem add_lt_iff (left : 0 ≤ a.toInt) (right : 0 ≤ b.toInt) :
    a + b < a ↔ 2 ^ 63 ≤ a.toInt + b.toInt := by
  have first := a.toInt_lt
  have second := b.toInt_lt
  rw [Int64.lt_iff_toInt_lt]
  rcases lt_or_ge (a.toInt + b.toInt) (2 ^ 63) with fits | wraps
  · rw [toInt_add_fits (by linarith) fits]
    constructor <;> intro <;> linarith
  · have wrapped : (a + b).toInt = a.toInt + b.toInt - 2 ^ 64 := by
      rw [Int64.toInt_add, ← Int.sub_bmod_right]
      exact bmod_fits (by norm_num; linarith) (by norm_num; linarith)
    rw [wrapped]
    constructor <;> intro <;> linarith

theorem toInt_max (a b : Int64) : (max a b).toInt = max a.toInt b.toInt := by
  change (if a ≤ b then b else a).toInt = _
  simp only [apply_ite Int64.toInt, Int64.le_iff_toInt_le, max_def]

section Exact

def exactAdd (a b : Int64) : Option Int64 :=
  if (a + b).toInt = a.toInt + b.toInt then some (a + b) else none

def exactSub (a b : Int64) : Option Int64 :=
  if (a - b).toInt = a.toInt - b.toInt then some (a - b) else none

def exactMul (a b : Int64) : Option Int64 :=
  if (a * b).toInt = a.toInt * b.toInt then some (a * b) else none

def exactDiv (a b : Int64) : Option Int64 :=
  if b = 0 then none
  else if (a / b).toInt = a.toInt.tdiv b.toInt then some (a / b) else none

def exactMod (a b : Int64) : Option Int64 := if b = 0 then none else some (a % b)

theorem exactAdd_fits (low : -2 ^ 63 ≤ a.toInt + b.toInt) (high : a.toInt + b.toInt < 2 ^ 63) :
    exactAdd a b = some (a + b) := if_pos (toInt_add_fits low high)

theorem exactSub_fits (low : -2 ^ 63 ≤ a.toInt - b.toInt) (high : a.toInt - b.toInt < 2 ^ 63) :
    exactSub a b = some (a - b) := if_pos (toInt_sub_fits low high)

theorem exactMul_fits (low : -2 ^ 63 ≤ a.toInt * b.toInt) (high : a.toInt * b.toInt < 2 ^ 63) :
    exactMul a b = some (a * b) := if_pos (toInt_mul_fits low high)

theorem ne_zero_of_pos (divisor : 0 < b.toInt) : b ≠ 0 := by
  rintro rfl
  exact absurd divisor (lt_irrefl 0)

theorem exactDiv_pos (divisor : 0 < b.toInt) : exactDiv a b = some (a / b) := by
  rw [exactDiv, if_neg (ne_zero_of_pos divisor), if_pos (toInt_div_pos divisor)]

theorem exactMod_pos (divisor : 0 < b.toInt) : exactMod a b = some (a % b) :=
  if_neg (ne_zero_of_pos divisor)

end Exact

end Fixed64
