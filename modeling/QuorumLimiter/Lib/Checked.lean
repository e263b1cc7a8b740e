import Mathlib.Logic.Basic

/-!
Computations that go on after a problem and collect all of them. The result is
good if the list of problems is empty at the end, that is, if every step was.
-/

structure Checked (ε α : Type) where
  value : α
  problems : List ε

namespace Checked

variable {ε α β : Type}

instance : Monad (Checked ε) where
  pure value := ⟨value, []⟩
  bind first next := ⟨(next first.value).value, first.problems ++ (next first.value).problems⟩

/-- Note a problem, if there is one. -/
def report : Option ε → Checked ε Unit
  | none => ⟨(), []⟩
  | some problem => ⟨(), [problem]⟩

def toExcept (checked : Checked ε α) : Except (List ε) α :=
  match checked.problems with
  | [] => .ok checked.value
  | problem :: rest => .error (problem :: rest)

@[simp] theorem pure_value (value : α) : (pure value : Checked ε α).value = value := rfl

@[simp] theorem pure_problems (value : α) : (pure value : Checked ε α).problems = [] := rfl

@[simp] theorem bind_value (first : Checked ε α) (next : α → Checked ε β) :
    (first >>= next).value = (next first.value).value := rfl

@[simp] theorem bind_problems (first : Checked ε α) (next : α → Checked ε β) :
    (first >>= next).problems = first.problems ++ (next first.value).problems := rfl

@[simp] theorem report_problems (problem : Option ε) :
    (report problem).problems = [] ↔ problem = none := by
  cases problem <;> simp [report]

theorem toExcept_ok (checked : Checked ε α) (value : α) :
    checked.toExcept = .ok value ↔ checked.problems = [] ∧ checked.value = value := by
  unfold toExcept
  split
  · rename_i none
    simp [none]
  · rename_i problem rest some
    simp [some]

end Checked
