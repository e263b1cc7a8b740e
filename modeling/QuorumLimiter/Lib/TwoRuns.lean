import Mathlib.Data.List.Forall2

/-!
A machine run twice, on its inputs and on others that match them one by one, such as the
same inputs with some of them masked. If one step keeps the two states related, and
answers an input that is shown alike in both, then so do whole runs.
-/

namespace TwoRuns

variable {σ ι ρ : Type*} (step : σ → ι → ρ × σ)

def answers : σ → List ι → List ρ
  | _, [] => []
  | state, input :: rest => (step state input).1 :: answers (step state input).2 rest

def final : σ → List ι → σ
  | state, [] => state
  | state, input :: rest => final (step state input).2 rest

variable {step}

theorem matched_run {fits : ι → ι → Prop} {related : σ → σ → Prop} {shown : ι → Prop}
    {inputs others : List ι} {left right : σ}
    (keeps : ∀ input other, fits input other → ∀ left right, related left right →
      related (step left input).2 (step right other).2 ∧
        (shown input → (step left input).1 = (step right other).1))
    (pairs : List.Forall₂ fits inputs others) (start : related left right) :
    (∀ (position : Nat) (input : ι), inputs[position]? = some input → shown input → ∃ answer,
        (answers step left inputs)[position]? = some answer ∧
          (answers step right others)[position]? = some answer) ∧
      related (final step left inputs) (final step right others) := by
  induction pairs generalizing left right with
  | nil => exact ⟨by simp, start⟩
  | cons pair pairs ih =>
      obtain ⟨kept, same⟩ := keeps _ _ pair left right start
      obtain ⟨later, finish⟩ := ih kept
      refine ⟨?_, finish⟩
      intro position input found visible
      cases position with
      | zero =>
          cases found
          exact ⟨_, rfl, congrArg some (same visible).symm⟩
      | succ position => exact later position input found visible

theorem masked_run {mask : ι → ι} {related : σ → σ → Prop} {shown : ι → Prop} {inputs : List ι}
    {left right : σ}
    (keeps : ∀ input ∈ inputs, ∀ left right, related left right →
      related (step left input).2 (step right (mask input)).2 ∧
        (shown input → (step left input).1 = (step right (mask input)).1))
    (start : related left right) :
    (∀ (position : Nat) (input : ι), inputs[position]? = some input → shown input → ∃ answer,
        (answers step left inputs)[position]? = some answer ∧
          (answers step right (inputs.map mask))[position]? = some answer) ∧
      related (final step left inputs) (final step right (inputs.map mask)) := by
  have pairs : List.Forall₂ (fun input other => input ∈ inputs ∧ other = mask input) inputs
      (inputs.map mask) := by
    rw [List.forall₂_map_right_iff, List.forall₂_same]
    exact fun input member => ⟨member, rfl⟩
  refine matched_run ?_ pairs start
  rintro input _ ⟨member, rfl⟩
  exact keeps input member

end TwoRuns
