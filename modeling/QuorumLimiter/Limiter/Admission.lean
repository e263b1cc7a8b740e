import Mathlib.Algebra.Order.Field.Rat
import Mathlib.Tactic.Ring
import QuorumLimiter.Limiter.Invariants

/-!
No over-admission. What a subject was granted and still holds never exceeds the
full bucket it started with and what the passing time was worth, at the rate in
force while it passed.
-/

namespace QuorumLimiter.Limiter

namespace Balance

/-- The exact value of a balance, in milli-tokens. -/
def worth (balance : Balance) (interval : Int) : ℚ := balance.tokens + balance.remainder / interval

theorem refill_worth (balance : Balance) (capacity rate now : Int) {interval : Int}
    (period : 0 < interval) :
    (balance.refill capacity rate interval now).worth interval ≤
      balance.worth interval + 1000 * rate *
        ((balance.refill capacity rate interval now).last - balance.last) / interval := by
  have bound := refill_credit balance capacity rate now period
  have positive : (0 : ℚ) < interval := by exact_mod_cast period
  generalize balance.refill capacity rate interval now = refilled at bound ⊢
  have scaled : (refilled.tokens * interval + refilled.remainder : ℚ) ≤
      balance.tokens * interval + balance.remainder +
        1000 * rate * (refilled.last - balance.last) := by exact_mod_cast bound
  have left : refilled.worth interval =
      (refilled.tokens * interval + refilled.remainder) / interval := by
    rw [worth, add_div, mul_div_cancel_right₀ _ (ne_of_gt positive)]
  have right : balance.worth interval + 1000 * rate * (refilled.last - balance.last) / interval =
      (balance.tokens * interval + balance.remainder +
        1000 * rate * (refilled.last - balance.last)) / interval := by
    rw [worth, add_div, add_div, mul_div_cancel_right₀ _ (ne_of_gt positive)]
  rw [left, right]
  exact div_le_div_of_nonneg_right scaled (le_of_lt positive)

end Balance

section Accounts

variable (policyID subject : String)

/-- The milli-tokens a fresh allowed decision on the subject grants. -/
def Result.spent (result : Result) : Int :=
  match result.decision with
  | none => 0
  | some d =>
      if result.decides policyID subject ∧ result.outcome = .allowed then 1000 * d.costTokens.toInt
      else 0

/-- What the step's advance of the subject's clock is worth under the policy that
was in force before it. -/
def Step.accrued (step : Step) : ℚ :=
  match step.before.2.getPolicy policyID, step.before.2.tokenBucket policyID subject,
    step.after.2.tokenBucket policyID subject with
  | some policy, some b, some later =>
      1000 * policy.refillTokens.toInt * (later.lastRefillMS.toInt - b.lastRefillMS.toInt) /
        policy.refillIntervalMS.toInt
  | _, _, _ => 0

/-- The capacity of the policy in force at the subject's first decision. -/
def opening : List Step → ℚ
  | [] => 0
  | step :: rest =>
      if step.result.decides policyID subject then
        match step.before.2.getPolicy policyID with
        | none => 0
        | some policy => 1000 * policy.capacityTokens.toInt
      else opening rest

def credit (app : AppState) : ℚ :=
  match app.tokenBucket policyID subject, app.getPolicy policyID with
  | some b, some policy =>
      b.tokensMilli.toInt + b.refillRemainder.toInt / policy.refillIntervalMS.toInt
  | _, _ => 0

variable {policyID subject}

theorem credit_some {app : AppState} {b : TokenBucketState} {policy : Policy}
    (stored : app.tokenBucket policyID subject = some b)
    (found : app.getPolicy policyID = some policy) :
    credit policyID subject app = b.balance.worth policy.refillIntervalMS.toInt := by
  rw [credit, stored, found]
  rfl

theorem credit_none {app : AppState} (absent : app.tokenBucket policyID subject = none) :
    credit policyID subject app = 0 := by
  rw [credit, absent]

theorem accrued_some {step : Step} {b later : TokenBucketState} {policy : Policy}
    (found : step.before.2.getPolicy policyID = some policy)
    (stored : step.before.2.tokenBucket policyID subject = some b)
    (written : step.after.2.tokenBucket policyID subject = some later) :
    step.accrued policyID subject =
      1000 * policy.refillTokens.toInt * (later.balance.last - b.balance.last) /
        policy.refillIntervalMS.toInt := by
  rw [Step.accrued, found, stored, written]
  rfl

theorem accrued_none (step : Step) (absent : step.before.2.tokenBucket policyID subject = none) :
    step.accrued policyID subject = 0 := by
  rw [Step.accrued, absent]
  split <;> simp_all

theorem spent_quiet {result : Result} (quiet : result.decides policyID subject = false) :
    result.spent policyID subject = 0 := by
  unfold Result.spent
  split
  · rfl
  · simp [quiet]

end Accounts

section Steps

variable {policyID subject : String} {ctx : ApplyContext} {cmd : Command}

theorem spent_fresh {result : Result} {allowed : Bool} {cost : Int64}
    (fresh : result.decides policyID subject = true) (outcome : result.outcome = decided allowed)
    (price : ∀ d ∈ result.decision, d.costTokens = cost) :
    result.spent policyID subject = if allowed then 1000 * cost.toInt else 0 := by
  unfold Result.spent
  split
  · rename_i absent
    simp [Result.decides, absent] at fresh
  · rename_i d present
    rw [price d present, fresh, outcome]
    cases allowed <;> simp [decided]

theorem settle_worth {p : DecidePayload} {policy : Policy} {bucket settled : TokenBucketState}
    {allowed : Bool} {retryAfter : Int64} (bounded : policy.Bounded) (valid : bucket.Valid)
    (low : 1 ≤ p.cost.toInt) (high : p.cost.toInt ≤ policy.maxCostTokens.toInt)
    (spent : settle ctx cmd p policy bucket = (settled, allowed, retryAfter)) :
    ((if allowed then 1000 * p.cost.toInt else 0 : Int) : ℚ) +
        settled.balance.worth policy.refillIntervalMS.toInt ≤
      bucket.balance.worth policy.refillIntervalMS.toInt +
        1000 * policy.refillTokens.toInt * (settled.balance.last - bucket.balance.last) /
          policy.refillIntervalMS.toInt := by
  obtain ⟨_, refilled, refill, _, settled⟩ :=
    settle_spec bounded valid.balance (by linarith) high spent
  have bound := Balance.refill_worth bucket.balance policy.capacityTokens.toInt
    policy.refillTokens.toInt cmd.timestampMS.toInt
    (show 0 < policy.refillIntervalMS.toInt by linarith [bounded.intervalLow])
  rw [← refill] at bound
  rw [settled]
  refine le_trans (le_of_eq ?_) bound
  simp only [Balance.worth]
  split
  · push_cast
    ring
  · simp

theorem convertBucket_worth {old : Policy} {p : UpdatePolicyPayload} {b : TokenBucketState}
    {ts : Int64} (bounded : old.Bounded) (valid : b.Valid) (time : Timestamp ts) :
    (convertBucket old p ts b).balance.worth p.refillIntervalMS.toInt ≤
      b.balance.worth old.refillIntervalMS.toInt +
        1000 * old.refillTokens.toInt *
            ((convertBucket old p ts b).balance.last - b.balance.last) /
          old.refillIntervalMS.toInt := by
  -- A conversion leaves no more than there was and the time was worth under the policy it
  -- replaces.
  have refill := refillBucket_balance bounded valid.balance ts
  have kept := refillBucket_valid bounded valid time
  have bound := Balance.refill_worth b.balance old.capacityTokens.toInt old.refillTokens.toInt
    ts.toInt (show 0 < old.refillIntervalMS.toInt by linarith [bounded.intervalLow])
  have period : (0 : ℚ) ≤ old.refillIntervalMS.toInt := by
    exact_mod_cast (show 0 ≤ old.refillIntervalMS.toInt by linarith [bounded.intervalLow])
  have last : (convertBucket old p ts b).balance.last = (refillBucket b old.capacityTokens
      old.refillTokens old.refillIntervalMS ts).balance.last := rfl
  rw [← refill, ← last] at bound
  refine le_trans ?_ bound
  generalize refilled : refillBucket b old.capacityTokens old.refillTokens old.refillIntervalMS ts =
    now at kept ⊢
  have remainder : (0 : ℚ) ≤ now.refillRemainder.toInt / old.refillIntervalMS.toInt :=
    div_nonneg (by exact_mod_cast kept.balance.remainder) period
  have tokens : (convertBucket old p ts b).tokensMilli.toInt ≤ now.tokensMilli.toInt := by
    simp only [convertBucket, refilled]
    split
    · rename_i above
      exact le_of_lt (Int64.lt_iff_toInt_lt.mp above)
    · exact le_refl _
  have part : ((convertBucket old p ts b).refillRemainder.toInt : ℚ) / p.refillIntervalMS.toInt ≤
      now.refillRemainder.toInt / old.refillIntervalMS.toInt := by
    simp only [convertBucket, refilled]
    split
    · simpa using remainder
    · rename_i same
      rw [not_not.mp same]
  have whole : ((convertBucket old p ts b).tokensMilli.toInt : ℚ) ≤ now.tokensMilli.toInt := by
    exact_mod_cast tokens
  simp only [Balance.worth, TokenBucketState.balance]
  exact add_le_add whole part

variable {b : TokenBucketState}

theorem credit_step (step : Step) (sound : Sound step.before.2) (time : Timestamp step.cmd.timestampMS)
    (change : SubjectStep step.ctx step.cmd policyID subject step.before.2 step.after.2 step.result)
    (stored : step.before.2.tokenBucket policyID subject = some b) :
    (∃ later, step.after.2.tokenBucket policyID subject = some later) ∧
      step.result.spent policyID subject + credit policyID subject step.after.2 ≤
        credit policyID subject step.before.2 + step.accrued policyID subject := by
  obtain ⟨_, _, _, valid⟩ := sound_tokenBucket sound stored
  cases change with
  | kept same quiet rate =>
      rw [stored] at same
      obtain ⟨_, _, ⟨policy, found⟩, _⟩ := sound_tokenBucket sound stored
      obtain ⟨later, replaced, interval⟩ := rate b policy stored found
      refine ⟨⟨b, same⟩, le_of_eq ?_⟩
      rw [spent_quiet quiet, credit_some same replaced, credit_some stored found,
        accrued_some found stored same, interval]
      simp
  | converted p old later before bounds quiet found replaced rate present written =>
      cases stored.symm.trans present
      obtain ⟨_, bounded⟩ := sound_getPolicy sound found
      refine ⟨⟨_, written⟩, ?_⟩
      rw [spent_quiet quiet, credit_some written replaced, credit_some stored found,
        accrued_some found stored written, rate, Int.cast_zero, zero_add]
      exact convertBucket_worth bounded valid time
  | charged p policy bucket settled allowed retryAfter fresh outcome cost low high found same _
      loaded spent written =>
      obtain ⟨_, bounded⟩ := sound_getPolicy sound found
      rcases loaded with present | ⟨absent, _⟩
      · cases stored.symm.trans present
        refine ⟨⟨_, written⟩, ?_⟩
        rw [spent_fresh fresh outcome cost, credit_some written same, credit_some stored found,
          accrued_some found stored written]
        exact settle_worth bounded valid low high spent
      · cases stored.symm.trans absent

theorem opening_step (step : Step) (sound : Sound step.before.2)
    (change : SubjectStep step.ctx step.cmd policyID subject step.before.2 step.after.2 step.result)
    (absent : step.before.2.tokenBucket policyID subject = none) :
    (step.after.2.tokenBucket policyID subject = none ∧
        step.result.decides policyID subject = false) ∨
      (∃ later, step.after.2.tokenBucket policyID subject = some later) ∧
        step.result.decides policyID subject = true ∧
        ∃ policy, step.before.2.getPolicy policyID = some policy ∧
          step.result.spent policyID subject + credit policyID subject step.after.2 ≤
            1000 * policy.capacityTokens.toInt := by
  cases change with
  | kept same quiet rate => exact Or.inl ⟨same.trans absent, quiet⟩
  | converted p old later before bounds quiet found replaced rate present written =>
      cases absent.symm.trans present
  | charged p policy bucket settled allowed retryAfter fresh outcome cost low high found same valid
      loaded spent written =>
      obtain ⟨_, bounded⟩ := sound_getPolicy sound found
      rcases loaded with present | ⟨_, full⟩
      · cases absent.symm.trans present
      · refine Or.inr ⟨⟨_, written⟩, fresh, policy, found, ?_⟩
        rw [spent_fresh fresh outcome cost, credit_some written same]
        have bound := settle_worth bounded valid low high spent
        obtain ⟨_, refilled, refill, _, value⟩ :=
          settle_spec bounded valid.balance (by linarith) high spent
        have still : settled.balance.last = bucket.balance.last := by
          rw [value, refill, Balance.refill_last, full, max_self]
        rw [still, full] at bound
        simpa [Balance.worth, mul_comm] using bound

end Steps

section Runs

/-- Over a run, what a subject is granted and is left with is covered by what it
held, or by the capacity at its first decision, and by what accrued. -/
theorem history_credit (lib : Stdlib) (policyID subject : String) (state : Nat × AppState)
    (commands : List (ApplyContext × Command))
    (timed : ∀ command ∈ commands, Timestamp command.2.timestampMS) (sound : Sound state.2) :
    ((((history lib state commands).map fun step => step.result.spent policyID subject).sum : Int) : ℚ) +
        credit policyID subject (finish lib state commands).2 ≤
      (if state.2.tokenBucket policyID subject = none then
          opening policyID subject (history lib state commands)
        else credit policyID subject state.2) +
        ((history lib state commands).map fun step => step.accrued policyID subject).sum := by
  induction commands generalizing state with
  | nil =>
      rw [history, finish, opening]
      split
      · rename_i absent
        simp [credit_none absent]
      · simp
  | cons command rest ih =>
      have later : ∀ command ∈ rest, Timestamp command.2.timestampMS :=
        fun other member => timed other (by simp [member])
      have time := timed command (by simp)
      rw [history, finish]
      split
      · exact ih state later sound
      · rename_i result next ran
        have effect := (apply_effect ran).2
        have change := effect_subject sound time effect policyID subject
        have tail := ih next later (sound_effect sound time effect)
        rw [List.map_cons, List.sum_cons, List.map_cons, List.sum_cons, Int.cast_add]
        cases stored : state.2.tokenBucket policyID subject with
        | some b =>
            obtain ⟨⟨_, written⟩, bound⟩ :=
              credit_step ⟨command.1, command.2, state, result, next⟩ sound time change stored
            rw [if_neg (by simp [written])] at tail
            rw [if_neg (by simp)]
            linarith
        | none =>
            have nothing := accrued_none ⟨command.1, command.2, state, result, next⟩ stored
            rw [if_pos rfl, opening]
            rcases opening_step ⟨command.1, command.2, state, result, next⟩ sound change
              stored with ⟨absent, quiet⟩ | ⟨⟨_, written⟩, fresh, policy, found, bound⟩
            · rw [if_pos absent] at tail
              rw [if_neg (by simp [quiet]), spent_quiet quiet, nothing]
              simpa using tail
            · rw [if_neg (by simp [written])] at tail
              rw [if_pos fresh, nothing]
              simp only [found] at bound ⊢
              linarith

/-- For every run of applied commands from the empty store, whatever the order of
the timestamps: the grants to a subject and what it is left with are at most the
capacity at its first decision and what its clock's advances were worth. -/
theorem admission_bounded (lib : Stdlib) (commands : List (ApplyContext × Command))
    (timed : ∀ command ∈ commands, Timestamp command.2.timestampMS) (policyID subject : String) :
    ((((history lib (0, AppState.migrated) commands).map fun step =>
          step.result.spent policyID subject).sum : Int) : ℚ) +
        credit policyID subject (finish lib (0, AppState.migrated) commands).2 ≤
      opening policyID subject (history lib (0, AppState.migrated) commands) +
        ((history lib (0, AppState.migrated) commands).map fun step =>
          step.accrued policyID subject).sum := by
  have bound := history_credit lib policyID subject (0, AppState.migrated) commands timed
    sound_migrated
  rw [if_pos] at bound
  · exact bound
  · exact lookupPair_empty _ _

end Runs

def sampleRun : List (ApplyContext × Command) :=
  sampleCommands 1 [[0, 0, 5, 2], [3, 0], [5, 1, 1, 3], [5, 2, 2, 3], [5, 2, 3, 3],
    [1, 3, 4, 1, 1], [5, 9, 4, 4]]

theorem admission_bounded_sample :
    ((history sampleLib (0, AppState.migrated) sampleRun).map fun step =>
        step.result.spent "orders" "alice") = [0, 0, 3000, 3000, 0, 0, 4000] ∧
      opening "orders" "alice" (history sampleLib (0, AppState.migrated) sampleRun) = 5000 ∧
      ((((history sampleLib (0, AppState.migrated) sampleRun).map fun step =>
            step.result.spent "orders" "alice").sum : Int) : ℚ) +
          credit "orders" "alice" (finish sampleLib (0, AppState.migrated) sampleRun).2 ≤
        opening "orders" "alice" (history sampleLib (0, AppState.migrated) sampleRun) +
          ((history sampleLib (0, AppState.migrated) sampleRun).map fun step =>
            step.accrued "orders" "alice").sum :=
  ⟨by decide +kernel, by decide +kernel,
    admission_bounded sampleLib sampleRun (by decide +kernel) "orders" "alice"⟩

end QuorumLimiter.Limiter
