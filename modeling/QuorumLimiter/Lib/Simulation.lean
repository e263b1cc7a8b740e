import Mathlib.Logic.Relation

/-!
Runs of a transition relation, followed by a second state that exists only for
the proof. Each step of the system is answered by some move of that state which
keeps the invariant and which `related` describes; then every run is.
-/

namespace Simulation

open Relation

variable {α γ : Type*} {step : α → α → Prop}

theorem run_answered (valid : α → γ → Prop) (related : α × γ → α × γ → Prop)
    (stays : ∀ state, related state state)
    (joins : ∀ first second third, related first second → related second third →
      related first third)
    (answer : ∀ a b g, step a b → valid a g → ∃ after, valid b after ∧ related (a, g) (b, after))
    {a b : α} {g : γ} (run : ReflTransGen step a b) (start : valid a g) :
    ∃ after, valid b after ∧ related (a, g) (b, after) := by
  induction run with
  | refl => exact ⟨g, start, stays _⟩
  | tail _ next ih =>
      obtain ⟨middle, holds, reached⟩ := ih
      obtain ⟨after, kept, more⟩ := answer _ _ _ next holds
      exact ⟨after, kept, joins _ _ _ reached more⟩

theorem run_invariant (valid : α → Prop) (keeps : ∀ a b, step a b → valid a → valid b) {a b : α}
    (run : ReflTransGen step a b) (start : valid a) : valid b := by
  induction run with
  | refl => exact start
  | tail _ next ih => exact keeps _ _ next ih

end Simulation
