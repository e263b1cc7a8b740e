import Mathlib.Data.List.Basic

/-!
Lists read as a past, the latest item last: what began at some point and has been
kept since, and the latest value that was set.
-/

namespace Past

variable {α β : Type*} {began kept : α → Prop} {past : List α} {item : α}

/-- Some item satisfies `began`, and every later one `kept`. -/
def Since (began kept : α → Prop) (past : List α) : Prop :=
  ∃ before item after, past = before ++ item :: after ∧ began item ∧ ∀ later ∈ after, kept later

/-- The latest item that sets a value sets this one. -/
def Latest (read : α → Option β) (value : β) (past : List α) : Prop :=
  Since (read · = some value) (read · = none) past

theorem since_nil : ¬ Since began kept [] := by
  rintro ⟨before, item, after, empty, _⟩
  simp at empty

theorem since_snoc :
    Since began kept (past ++ [item]) ↔ began item ∨ Since began kept past ∧ kept item := by
  constructor
  · rintro ⟨before, first, after, split, begins, keeps⟩
    rcases List.eq_nil_or_concat after with rfl | ⟨rest, last, rfl⟩
    · obtain ⟨_, same⟩ := List.append_inj' split rfl
      cases same
      exact Or.inl begins
    · rw [List.concat_eq_append, ← List.cons_append, ← List.append_assoc] at split
      obtain ⟨same, tail⟩ := List.append_inj' split rfl
      cases tail
      refine Or.inr ⟨⟨before, first, rest, same, begins, ?_⟩, keeps item (by simp)⟩
      exact fun later member => keeps later (by simp [member])
  · rintro (begins | ⟨⟨before, first, after, rfl, begins, keeps⟩, keep⟩)
    · exact ⟨past, item, [], rfl, begins, by simp⟩
    · refine ⟨before, first, after ++ [item], by simp, begins, ?_⟩
      intro later member
      rcases List.mem_append.mp member with early | last
      · exact keeps later early
      · rw [List.mem_singleton.mp last]
        exact keep

theorem latest_snoc {read : α → Option β} {value : β} :
    Latest read value (past ++ [item]) ↔
      read item = some value ∨ Latest read value past ∧ read item = none := since_snoc

end Past
