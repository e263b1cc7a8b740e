import Mathlib.Logic.Basic

/-!
Trying again. The outcomes of all attempts are given, also of those that are never
made. An attempt is followed by another while `again` says so of its outcome and
there are attempts left.
-/

namespace Retry

variable {α : Type*} (again : α → Bool) (outcomes : Nat → α)

/-- How many of at most `left` attempts are made, from attempt `start` on. -/
def performed : Nat → Nat → Nat
  | 0, _ => 0
  | left + 1, start => if again (outcomes start) then performed left (start + 1) + 1 else 1

theorem performed_le (left start : Nat) : performed again outcomes left start ≤ left := by
  induction left generalizing start with
  | zero => exact Nat.le_refl 0
  | succ left ih =>
      rw [performed]
      split
      · exact Nat.succ_le_succ (ih (start + 1))
      · omega

theorem performed_pos (left start : Nat) : 0 < performed again outcomes (left + 1) start := by
  rw [performed]
  split <;> omega

theorem again_of_further (left start k : Nat)
    (further : k + 1 < performed again outcomes left start) :
    again (outcomes (start + k)) = true := by
  induction left generalizing start k with
  | zero => exact absurd further (Nat.not_lt_zero _)
  | succ left ih =>
      rw [performed] at further
      split at further
      · rename_i first
        cases k with
        | zero => exact first
        | succ k =>
            have later := ih (start + 1) k (by omega)
            rwa [show start + 1 + k = start + (k + 1) by omega] at later
      · omega

end Retry
