import QuorumLimiter.Limiter.Invariants

/-!
The reference model of the decisions on one subject, over unbounded integers, and that the
state machine in wrapping 64-bit arithmetic computes the same.
-/

namespace QuorumLimiter.Limiter

open Fixed64

namespace Balance

/-- The balance at a time: what has accrued since, up to the capacity, which drops the
remainder. -/
def replenish (balance : Balance) (capacity rate interval now : Int) : Balance :=
  let elapsed := max now balance.last - balance.last
  let credit := elapsed * rate * 1000 + balance.remainder
  let tokens := min (1000 * capacity) (balance.tokens + credit / interval)
  ⟨tokens, if tokens = 1000 * capacity then 0 else credit % interval, max now balance.last⟩

def answer (balance : Balance) (capacity rate interval : Int) (poll : Int × Int) : Bool × Balance :=
  let refilled := balance.replenish capacity rate interval poll.1
  if 1000 * poll.2 ≤ refilled.tokens then
    (true, { refilled with tokens := refilled.tokens - 1000 * poll.2 })
  else (false, refilled)

theorem replenish_eq (balance : Balance) (capacity rate interval now : Int) :
    balance.replenish capacity rate interval now = balance.refill capacity rate interval now := by
  have order := Int.mul_comm 1000 capacity
  simp only [replenish, order]
  rcases le_or_gt (capacity * 1000) (balance.tokens + balance.numerator rate now / interval) with
    full | part
  · rw [refill_full full]
    unfold numerator at full
    rw [min_eq_left full, if_pos rfl]
  · rw [refill_part part]
    unfold numerator at part ⊢
    rw [min_eq_right (le_of_lt part), if_neg (ne_of_lt part)]

end Balance

/-- The answers to decisions at the given times for the given costs, each with the balance it
leaves. A subject's first decision finds a full bucket. -/
def reference (capacity rate interval : Int) : Option Balance → List (Int × Int) →
    List (Bool × Balance)
  | _, [] => []
  | stored, poll :: rest =>
      let next := (stored.getD ⟨1000 * capacity, 0, poll.1⟩).answer capacity rate interval poll
      next :: reference capacity rate interval (some next.2) rest

/-- The policy can be charged for the subject: what the store holds for it is a balance. -/
structure Ready (policy : Policy) (subject : String) (app : AppState) : Prop where
  stored : app.getPolicy policy.id = some policy
  bounded : policy.Bounded
  bucket : ∀ b, app.tokenBucket policy.id subject = some b →
    b.policyID = policy.id ∧ b.subject = subject ∧ b.balance.Valid

def Step.poll (step : Step) : Int × Int :=
  (step.cmd.timestampMS.toInt, (step.result.decision.map (·.costTokens.toInt)).getD 0)

/-- Outcome, allowed flag and remaining tokens of a decision, and the balance it stored. -/
def Step.observed (policyID subject : String) (step : Step) :
    Option (Outcome × Bool × Int × Balance) := do
  let d ← step.result.decision
  let b ← step.after.2.tokenBucket policyID subject
  some (step.result.outcome, d.allowed, d.remainingMilli.toInt, b.balance)

def referenceView (answer : Bool × Balance) : Option (Outcome × Bool × Int × Balance) :=
  some (decided answer.1, answer.1, answer.2.tokens, answer.2)

section Steps

variable {lib : Stdlib} {ctx : ApplyContext} {cmd : Command} {app after : AppState}
  {result : Result} {policy : Policy} {subject : String}

theorem ready_sound (sound : Sound app) {id : String} (found : app.getPolicy id = some policy)
    (subject : String) : Ready policy subject app := by
  obtain ⟨rfl, bounded⟩ := sound_getPolicy sound found
  refine ⟨found, bounded, ?_⟩
  intro b stored
  obtain ⟨owner, named, _, valid⟩ := sound_tokenBucket sound stored
  exact ⟨owner, named, valid.balance⟩

theorem settle_reference {p : DecidePayload} {bucket settled : TokenBucketState} {allowed : Bool}
    {retryAfter : Int64} (bounded : policy.Bounded) (valid : bucket.balance.Valid)
    (low : 0 ≤ p.cost.toInt) (high : p.cost.toInt ≤ policy.maxCostTokens.toInt)
    (spent : settle ctx cmd p policy bucket = (settled, allowed, retryAfter)) :
    (allowed, settled.balance) = bucket.balance.answer policy.capacityTokens.toInt
      policy.refillTokens.toInt policy.refillIntervalMS.toInt
      (cmd.timestampMS.toInt, p.cost.toInt) := by
  obtain ⟨_, refilled, same, iff, balance⟩ := settle_spec bounded valid low high spent
  rw [Balance.answer, Balance.replenish_eq, ← same, balance]
  simp only [Int.mul_comm 1000 p.cost.toInt]
  cases allowed with
  | true => rw [if_pos (iff.mp rfl), if_pos rfl]
  | false =>
      have short : ¬p.cost.toInt * 1000 ≤ refilled.tokens :=
        fun enough => Bool.false_ne_true (iff.mpr enough)
      rw [if_neg short, if_neg Bool.false_ne_true, Int.sub_zero]

theorem effect_reference (ready : Ready policy subject app) (time : 0 ≤ cmd.timestampMS.toInt)
    (effect : Effect lib ctx cmd app result after)
    (fresh : result.decides policy.id subject = true) (before : Nat × AppState) (last : Nat) :
    Ready policy subject after ∧ ∃ answer,
      answer = (((app.tokenBucket policy.id subject).map TokenBucketState.balance).getD
        ⟨1000 * policy.capacityTokens.toInt, 0, cmd.timestampMS.toInt⟩).answer
          policy.capacityTokens.toInt policy.refillTokens.toInt policy.refillIntervalMS.toInt
          (Step.poll ⟨ctx, cmd, before, result, (last, after)⟩) ∧
      Step.observed policy.id subject ⟨ctx, cmd, before, result, (last, after)⟩ =
        referenceView answer ∧
      (after.tokenBucket policy.id subject).map TokenBucketState.balance = some answer.2 := by
  cases effect with
  | charged p other bucket settled allowed retryAfter tokenBuckets idempotency typed payload shape
      missing authorized loaded spent charged recorded =>
      simp only [Result.decides, Bool.not_false, Bool.true_and, Option.any_some, decisionRecord,
        decide_eq_true_eq] at fresh
      obtain ⟨named, rfl⟩ := fresh
      obtain ⟨found, _, price, _⟩ := authorize_ok authorized
      obtain ⟨_, _, cost⟩ := validateDecisionInput_ok shape
      rw [named] at found
      cases ready.stored.symm.trans found
      have start : bucket.policyID = policy.id ∧ bucket.subject = p.subject ∧ bucket.balance.Valid ∧
          ((app.tokenBucket policy.id p.subject).map TokenBucketState.balance).getD
            ⟨1000 * policy.capacityTokens.toInt, 0, cmd.timestampMS.toInt⟩ = bucket.balance := by
        rcases loadOrInitBucket_cases ready.bounded loaded with
          stored | ⟨absent, owner, titled, _, full⟩
        · obtain ⟨owner, titled, valid⟩ := ready.bucket bucket stored
          exact ⟨owner, titled, valid, by rw [stored]; rfl⟩
        · refine ⟨owner, titled, initial_valid ready.bounded time full, ?_⟩
          rw [absent, full, Int.mul_comm 1000]
          rfl
      obtain ⟨owner, titled, valid, begun⟩ := start
      obtain ⟨keptOwner, keptName⟩ := settle_owner spent
      obtain ⟨kept, _⟩ := settle_spec ready.bounded valid (by omega) price spent
      have lookup := lookupPair_stored charged policy.id p.subject
      rw [keptOwner, owner, keptName, titled, if_pos ⟨rfl, rfl⟩] at lookup
      have written : ∀ idempotency audit, ({ app with tokenBuckets, idempotency, audit } :
          AppState).tokenBucket policy.id p.subject = some settled := fun _ _ => lookup
      refine ⟨⟨ready.stored, ready.bounded, ?_⟩, (allowed, settled.balance), ?_, ?_, ?_⟩
      · intro b stored
        cases (written _ _).symm.trans stored
        exact ⟨keptOwner.trans owner, keptName.trans titled, kept⟩
      · rw [begun]
        exact settle_reference ready.bounded valid (by omega) price spent
      · simp only [Step.observed, written, decisionRecord, referenceView]
        rfl
      · rw [written]
        rfl
  | replayed p prior => simp [Result.decides] at fresh
  | _ => simp [Result.decides, rejection] at fresh

end Steps

section Runs

variable {lib : Stdlib} {policy : Policy} {subject : String}

theorem history_reference (state : Nat × AppState) (commands : List (ApplyContext × Command))
    (ready : Ready policy subject state.2)
    (timed : ∀ command ∈ commands, 0 ≤ command.2.timestampMS.toInt)
    (fresh : ∀ step ∈ history lib state commands, step.result.decides policy.id subject = true) :
    (history lib state commands).map (Step.observed policy.id subject) =
      (reference policy.capacityTokens.toInt policy.refillTokens.toInt policy.refillIntervalMS.toInt
        ((state.2.tokenBucket policy.id subject).map TokenBucketState.balance)
        ((history lib state commands).map Step.poll)).map referenceView := by
  induction commands generalizing state with
  | nil => rfl
  | cons command rest ih =>
      have later := fun other member => timed other (List.mem_cons_of_mem command member)
      rw [history] at fresh ⊢
      split at fresh
      · exact ih state ready later fresh
      · rename_i result next ran
        obtain ⟨last, app⟩ := next
        obtain ⟨_, effect⟩ := apply_effect ran
        obtain ⟨same, answer, rfl, seen, left⟩ := effect_reference ready
          (timed command List.mem_cons_self) effect (fresh _ List.mem_cons_self) state last
        have others := ih (last, app) same later
          fun step member => fresh step (List.mem_cons_of_mem _ member)
        rw [left] at others
        exact congrArg₂ List.cons seen others

end Runs

/-- A run of fresh decisions on one subject answers as the reference does: outcomes, allowed
flags, remaining tokens and stored balances, in whatever order the times come. The overflow
branches of a refill are taken only where the reference is full too. -/
theorem decisions_refine_reference (lib : Stdlib) (state : Nat × AppState) (policy : Policy)
    (subject : String) (ready : Ready policy subject state.2)
    (commands : List (ApplyContext × Command))
    (timed : ∀ command ∈ commands, 0 ≤ command.2.timestampMS.toInt)
    (fresh : ∀ step ∈ history lib state commands, step.result.decides policy.id subject = true) :
    (history lib state commands).map (Step.observed policy.id subject) =
        (reference policy.capacityTokens.toInt policy.refillTokens.toInt
          policy.refillIntervalMS.toInt
          ((state.2.tokenBucket policy.id subject).map TokenBucketState.balance)
          ((history lib state commands).map Step.poll)).map referenceView ∧
      ∀ (b : TokenBucketState) (now : Int64), b.balance.Valid →
        overflows b policy.refillTokens policy.refillIntervalMS now →
        (b.balance.replenish policy.capacityTokens.toInt policy.refillTokens.toInt
          policy.refillIntervalMS.toInt now.toInt).tokens = 1000 * policy.capacityTokens.toInt := by
  refine ⟨history_reference state commands ready timed fresh, ?_⟩
  intro b now valid overflow
  rcases refill_fits ready.bounded valid now with ⟨added, rem, sum, found, fits, _⟩ | ⟨_, full⟩
  · simp [overflows, found, fits] at overflow
  · rw [Balance.replenish_eq, Balance.refill_full full, Int.mul_comm]

def openedRun : List (ApplyContext × Command) := sampleCommands 1 [[0, 0, 10, 3], [3, 0]]

def polledRun : List (ApplyContext × Command) :=
  sampleCommands 3 [[5, 9, 1, 10], [5, 4, 2, 1], [5, 11, 3, 6]]

theorem decisions_refine_reference_sample : ∃ state policy,
    finish sampleLib (0, AppState.migrated) openedRun = state ∧
      state.2.getPolicy "orders" = some policy ∧
      (history sampleLib state polledRun).map (Step.observed policy.id "alice") =
        (reference 10 3 1000 none [(9000, 10), (4000, 1), (11000, 6)]).map referenceView := by
  have sound : Sound (finish sampleLib (0, AppState.migrated) openedRun).2 :=
    sound_finish _ _ (by decide +kernel) sound_migrated
  have seen : ((finish sampleLib (0, AppState.migrated) openedRun).2.getPolicy "orders").map
      (fun policy =>
        (policy.id, policy.capacityTokens, policy.refillTokens, policy.refillIntervalMS)) =
      some ("orders", 10, 3, 1000) := by decide +kernel
  have polls : (history sampleLib (finish sampleLib (0, AppState.migrated) openedRun) polledRun).map
      Step.poll = [(9000, 10), (4000, 1), (11000, 6)] := by decide +kernel
  have absent : (finish sampleLib (0, AppState.migrated) openedRun).2.tokenBucket "orders" "alice" =
      none := by decide +kernel
  obtain ⟨policy, found, facts⟩ := Option.map_eq_some_iff.mp seen
  simp only [Prod.mk.injEq] at facts
  obtain ⟨named, capacity, refill, interval⟩ := facts
  have answers := (decisions_refine_reference sampleLib _ policy "alice"
    (ready_sound sound found "alice") polledRun (by decide +kernel)
    (by rw [named]; decide +kernel)).1
  refine ⟨_, policy, rfl, found, ?_⟩
  rw [answers, polls, capacity, refill, interval, named, absent]
  rfl

end QuorumLimiter.Limiter
