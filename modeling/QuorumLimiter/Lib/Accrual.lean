import Mathlib.Algebra.Order.Ring.Int
import Mathlib.Tactic.Linarith
import Mathlib.Tactic.Ring

/-!
A level that rises with time at a constant rate up to a limit, read now and then by
clocks that may run backwards. How often it is read does not matter, and how long it
takes to reach a level is a quotient rounded up.
-/

namespace Accrual

section Reading

variable {α : Type} [CommRing α] [LinearOrder α]

structure Meter (α : Type) where
  level : α
  last : α

namespace Meter

/-- The level at `now`, or at the last reading if that was later. -/
def advance (full rate now : α) (meter : Meter α) : Meter α :=
  ⟨min full (meter.level + rate * (max now meter.last - meter.last)), max now meter.last⟩

theorem reached_iff {full need : α} (rate now : α) (meter : Meter α) (within : need ≤ full) :
    need ≤ (meter.advance full rate now).level ↔
      need ≤ meter.level + rate * (max now meter.last - meter.last) := by
  simp only [advance, le_min_iff, within, true_and]

variable [IsStrictOrderedRing α]

theorem advance_advance {full rate : α} (speed : 0 ≤ rate) (meter : Meter α) (first second : α) :
    (meter.advance full rate first).advance full rate second =
      meter.advance full rate (max first second) := by
  have later : max second (max first meter.last) = max (max first second) meter.last := by
    rw [max_comm first second, max_assoc]
  have gain : 0 ≤ rate * (max second (max first meter.last) - max first meter.last) :=
    mul_nonneg speed (sub_nonneg.mpr (le_max_right _ _))
  have capped : full ≤ full + rate * (max second (max first meter.last) - max first meter.last) :=
    le_add_of_nonneg_right gain
  -- The limit met at the first reading is still met at the second.
  simp only [advance, Meter.mk.injEq]
  refine ⟨?_, later⟩
  rw [min_add, ← min_assoc, min_eq_left capped, ← later]
  congr 1
  ring

end Meter

end Reading

section Waiting

variable {need more rate : Int}

/-- The time in which `rate` makes `need`, rounded up. -/
def wait (need rate : Int) : Int := (need + rate - 1) / rate

theorem wait_le_iff (speed : 0 < rate) (time : Int) : wait need rate ≤ time ↔ need ≤ rate * time := by
  rw [wait, ← Int.lt_add_one_iff, Int.ediv_lt_iff_lt_mul speed, add_mul, mul_comm time]
  omega

theorem wait_enough (speed : 0 < rate) (need : Int) : need ≤ rate * wait need rate :=
  (wait_le_iff speed _).mp (le_refl _)

theorem wait_mono (speed : 0 < rate) (less : need ≤ more) : wait need rate ≤ wait more rate :=
  (wait_le_iff speed _).mpr (le_trans less (wait_enough speed more))

theorem wait_add_le (speed : 0 < rate) (need more : Int) :
    wait (need + more) rate ≤ wait need rate + wait more rate := by
  rw [wait_le_iff speed, mul_add]
  exact add_le_add (wait_enough speed need) (wait_enough speed more)

theorem wait_pos (speed : 0 < rate) (positive : 0 < need) : 0 < wait need rate := by
  by_contra early
  have enough := (wait_le_iff speed 0).mp (not_lt.mp early)
  omega

theorem wait_slack (speed : 0 < rate) (need : Int) : rate * wait need rate = need + -need % rate := by
  have whole := Int.emod_add_mul_ediv (-need) rate
  have part := Int.emod_nonneg (-need) (ne_of_gt speed)
  have small := Int.emod_lt_of_pos (-need) speed
  have rounded : wait need rate = -(-need / rate) := by
    apply le_antisymm
    · rw [wait_le_iff speed, mul_neg]
      omega
    · have enough := wait_enough speed need
      by_contra less
      have step := mul_le_mul_of_nonneg_left (show wait need rate + 1 ≤ -(-need / rate) by omega)
        (le_of_lt speed)
      rw [mul_add, mul_neg] at step
      omega
  rw [rounded, mul_neg]
  omega

/-- Waiting by a clock that is behind the last reading is enough exactly when what the
clock is behind is worth no more than what was carried and what rounding up gave. -/
theorem wait_behind {carried now last : Int} (speed : 0 < rate) (short : carried < need) :
    need - carried ≤ rate * (max (now + wait need rate) last - last) ↔
      rate * (last - now) ≤ carried + -need % rate := by
  have slack := wait_slack speed need
  rcases le_or_gt (now + wait need rate) last with early | late
  · -- the wait ends before time moves at all
    have worth : rate * wait need rate ≤ rate * (last - now) :=
      mul_le_mul_of_nonneg_left (by omega) (le_of_lt speed)
    rw [max_eq_right early, sub_self, mul_zero]
    omega
  · have split : rate * (now + wait need rate - last) =
        rate * wait need rate - rate * (last - now) := by ring
    rw [max_eq_left (le_of_lt late), split, slack]
    omega

end Waiting

end Accrual
