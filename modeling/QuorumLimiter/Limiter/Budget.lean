import Mathlib.Data.List.Perm.Subperm
import Mathlib.Algebra.Order.BigOperators.Group.List
import QuorumLimiter.Limiter.Admission
import QuorumLimiter.Limiter.ExactlyOnce

/-!
The limit that callers see. Whatever nodes answered them, and however often leaders
changed, the grants handed out for one subject since a time `first` are at most a full
bucket and what the time since then is worth. Clocks may disagree: only the last
timestamp counts.
-/

namespace QuorumLimiter

variable {σ ρ : Type}

/-- All that callers were told: the entry of each call that returned, with its result. -/
def World.returns (w : World σ ρ) : List (LogEntry × Option ρ) :=
  w.proposals.filterMap fun call =>
    match call.state with
    | .finished (.ok result) => some (call.entry, result)
    | _ => none

/-- The results of running the entries, up to the first that fails. -/
def results (apply : Option (ApplyFunc σ ρ)) (index : Nat) :
    List LogEntry → Nat × σ → List (LogEntry × Option ρ)
  | [], _ => []
  | entry :: rest, state =>
      match transition apply index entry state with
      | .error _ => []
      | .ok (result, next) => (entry, result) :: results apply (index + 1) rest next

section Returns

variable {c : Cluster σ ρ} {u : World σ ρ} {order : List LogEntry}

theorem mem_returns (u : World σ ρ) (answer : LogEntry × Option ρ) :
    answer ∈ u.returns ↔ ∃ k, u.Returned k answer.1 answer.2 := by
  rw [World.returns, List.mem_filterMap]
  constructor
  · rintro ⟨⟨node, entry, state⟩, member, same⟩
    obtain ⟨k, found⟩ := List.getElem?_of_mem member
    dsimp only at same
    split at same
    · cases same
      exact ⟨k, node, found⟩
    · cases same
  · rintro ⟨k, node, found⟩
    exact ⟨_, List.mem_of_getElem? found, rfl⟩

theorem results_at {apply : Option (ApplyFunc σ ρ)} (index : Nat) (entries : List LogEntry)
    (start : Nat × σ) (place : Nat) {entry : LogEntry} {state next : Nat × σ} {result : Option ρ}
    (present : entries[place]? = some entry)
    (before : replay apply index (entries.take place) start = .ok state)
    (stepped : transition apply (index + place) entry state = .ok (result, next)) :
    (entry, result) ∈ results apply index entries start := by
  induction entries generalizing index start place with
  | nil => cases present
  | cons head rest ih =>
      cases place with
      | zero =>
          cases before
          cases present
          rw [Nat.add_zero] at stepped
          rw [results, stepped]
          exact List.mem_cons_self
      | succ place =>
          rw [List.take_succ_cons, replay] at before
          rw [results]
          split
          · rename_i failed
            rw [failed] at before
            cases before
          · rename_i made
            rw [made] at before
            refine List.mem_cons_of_mem _ (ih (index + 1) _ place present before ?_)
            rw [Nat.add_right_comm]
            exact stepped

theorem returns_results (linear : Linearizes c u order) :
    u.returns ⊆ results c.apply 1 order (0, c.app) := by
  intro answer member
  obtain ⟨k, returned⟩ := (mem_returns u answer).mp member
  obtain ⟨positive, present, state, next, before, stepped⟩ := linear.answers k _ _ returned
  rw [← Nat.add_sub_cancel' positive] at stepped
  exact results_at 1 order _ (answer.1.index - 1) present before stepped

theorem sum_le_of_subset {α : Type} {part whole : List α} (once : part.Nodup)
    (inside : part ⊆ whole) (value : α → Int) (nonneg : ∀ item ∈ whole, 0 ≤ value item) :
    (part.map value).sum ≤ (whole.map value).sum := by
  obtain ⟨chosen, perm, sublist⟩ := once.subperm inside
  rw [← (perm.map value).sum_eq]
  apply (sublist.map value).sum_le_sum
  intro amount member
  obtain ⟨item, listed, rfl⟩ := List.mem_map.mp member
  exact nonneg item listed

end Returns

end QuorumLimiter

namespace QuorumLimiter.Limiter

/-- Bounds on every version of a policy: its tokens, and its tokens in a millisecond. -/
structure Ceiling where
  capacity : Int
  rate : ℚ
  capacity_nonneg : 0 ≤ capacity
  rate_nonneg : 0 ≤ rate

def Ceiling.Covers (ceiling : Ceiling) (capacityTokens refillTokens intervalMS : Int64) : Prop :=
  capacityTokens.toInt ≤ ceiling.capacity ∧
    (refillTokens.toInt : ℚ) ≤ ceiling.rate * intervalMS.toInt

def Command.Covered (lib : Stdlib) (policyID : String) (ceiling : Ceiling) (cmd : Command) : Prop :=
  (∀ p, cmd.type = .createPolicy → lib.createPolicy cmd.payload = some p → p.id = policyID →
    ceiling.Covers p.capacityTokens p.refillTokens p.refillIntervalMS) ∧
  ∀ p, cmd.type = .updatePolicy → lib.updatePolicy cmd.payload = some p → p.id = policyID →
    ceiling.Covers p.capacityTokens p.refillTokens p.refillIntervalMS

def Policy.Covered (ceiling : Ceiling) (policy : Policy) : Prop :=
  ceiling.Covers policy.capacityTokens policy.refillTokens policy.refillIntervalMS

/-- The milli-tokens the record grants the subject, if it was asked for at `first` or later. -/
def DecisionRecord.granted (first : Int) (policyID subject : String) (d : DecisionRecord) : Int :=
  if d.allowed ∧ d.policyID = policyID ∧ d.subject = subject ∧ first ≤ d.observedAtMS.toInt then
    1000 * d.costTokens.toInt
  else 0

/-- The decisions that callers were told, by the call that charged them or by a retry.
However often one record was told, it is listed once. -/
def told (u : World AppState Result) : List DecisionRecord :=
  (u.returns.filterMap fun answer => answer.2.bind (·.decision)).dedup

def Result.charge (result : Result) : Option DecisionRecord :=
  if result.duplicate then none else result.decision

def charges (answers : List (LogEntry × Option Result)) : List DecisionRecord :=
  answers.filterMap fun answer => answer.2.bind Result.charge

section Capped

variable {ctx : ApplyContext} {cmd : Command}

theorem refill_capped (balance : Balance) (capacity rate now : Int) {interval : Int}
    (period : 0 < interval) :
    (balance.refill capacity rate interval now).worth interval ≤ 1000 * capacity := by
  have positive : (0 : ℚ) < interval := by exact_mod_cast period
  unfold Balance.refill
  split
  · simp [Balance.worth, mul_comm]
  · rename_i part
    have below := not_le.mp part
    have remainder := Int.emod_lt_of_pos (balance.numerator rate now) period
    generalize balance.tokens + balance.numerator rate now / interval = tokens at below ⊢
    generalize balance.numerator rate now % interval = left at remainder ⊢
    have fraction : (left : ℚ) / interval ≤ 1 := by
      rw [div_le_one positive]
      exact_mod_cast le_of_lt remainder
    have whole : (tokens : ℚ) + 1 ≤ capacity * 1000 := by exact_mod_cast below
    simp only [Balance.worth]
    linarith

theorem settle_capped {p : DecidePayload} {policy : Policy} {bucket settled : TokenBucketState}
    {allowed : Bool} {retryAfter : Int64} (bounded : policy.Bounded) (valid : bucket.Valid)
    (low : 1 ≤ p.cost.toInt) (high : p.cost.toInt ≤ policy.maxCostTokens.toInt)
    (spent : settle ctx cmd p policy bucket = (settled, allowed, retryAfter)) :
    ((if allowed then 1000 * p.cost.toInt else 0 : Int) : ℚ) +
      settled.balance.worth policy.refillIntervalMS.toInt ≤ 1000 * policy.capacityTokens.toInt := by
  obtain ⟨_, refilled, refill, _, settled⟩ :=
    settle_spec bounded valid.balance (by linarith) high spent
  have capped := refill_capped bucket.balance policy.capacityTokens.toInt
    policy.refillTokens.toInt cmd.timestampMS.toInt
    (show 0 < policy.refillIntervalMS.toInt by linarith [bounded.intervalLow])
  rw [← refill] at capped
  rw [settled]
  refine le_trans (le_of_eq ?_) capped
  simp only [Balance.worth]
  split
  · push_cast
    ring
  · simp

theorem convertBucket_capped {old : Policy} {p : UpdatePolicyPayload} {b : TokenBucketState}
    {ts : Int64} (bounded : old.Bounded) (valid : b.Valid) (time : Timestamp ts) :
    (convertBucket old p ts b).balance.worth p.refillIntervalMS.toInt ≤
      1000 * old.capacityTokens.toInt := by
  have refill := refillBucket_balance bounded valid.balance ts
  have kept := refillBucket_valid bounded valid time
  have capped := refill_capped b.balance old.capacityTokens.toInt old.refillTokens.toInt ts.toInt
    (show 0 < old.refillIntervalMS.toInt by linarith [bounded.intervalLow])
  rw [← refill] at capped
  refine le_trans ?_ capped
  generalize refilled : refillBucket b old.capacityTokens old.refillTokens old.refillIntervalMS ts =
    now at kept ⊢
  simp only [Balance.worth, TokenBucketState.balance, convertBucket, refilled]
  apply add_le_add
  · split
    · rename_i above
      exact_mod_cast le_of_lt (Int64.lt_iff_toInt_lt.mp above)
    · exact le_refl _
  · split
    · rw [show ((0 : Int64).toInt : ℚ) = 0 from rfl, zero_div]
      exact div_nonneg (by exact_mod_cast kept.balance.remainder)
        (by exact_mod_cast (show 0 ≤ old.refillIntervalMS.toInt by linarith [bounded.intervalLow]))
    · rename_i same
      rw [not_not.mp same]

end Capped

section Steps

variable {lib : Stdlib} {ctx : ApplyContext} {cmd : Command} {app after : AppState}
  {result : Result} {policyID subject : String} {ceiling : Ceiling} {first last : Int}

theorem covered_effect (sound : Sound app)
    (covered : ∀ policy, app.getPolicy policyID = some policy → policy.Covered ceiling)
    (asked : cmd.Covered lib policyID ceiling) (effect : Effect lib ctx cmd app result after) :
    ∀ policy, after.getPolicy policyID = some policy → policy.Covered ceiling := by
  cases effect with
  | createdPolicy p name typed payload shape named bounds absent =>
      intro policy found
      have stored := getPolicy_put app (p.policy name cmd.timestampMS) p.id policyID
      rw [AppState.getPolicy] at found stored
      rw [stored] at found
      split at found
      · rename_i same
        cases found
        exact asked.1 p typed payload same.symm
      · exact covered policy found
  | updatedPolicy p old name visited tokenBuckets typed payload found current named bounds walked
      written =>
      intro policy now
      have stored := getPolicy_put app (p.policy old name cmd.timestampMS) old.id policyID
      rw [AppState.getPolicy] at now stored
      rw [stored] at now
      split at now
      · rename_i same
        cases now
        exact asked.2 p typed payload ((sound_getPolicy sound found).1.symm.trans same.symm)
      · exact covered policy now
  | switchedPolicy p old typed payload found current =>
      intro policy now
      have stored := getPolicy_put app (p.policy old cmd.timestampMS) old.id policyID
      rw [AppState.getPolicy] at now stored
      rw [stored] at now
      split at now
      · rename_i same
        cases now
        have own := (sound_getPolicy sound found).1
        rw [← own, ← same] at found
        exact covered old found
      · exact covered policy now
  | _ => exact covered

variable (policyID subject ceiling first last)

/-- What the subject can still be granted up to `last`, counted from `first`. -/
def headroom (app : AppState) : ℚ :=
  match app.tokenBucket policyID subject with
  | none => 1000 * (ceiling.capacity + ceiling.rate * (last - first))
  | some b =>
      if b.balance.last < first then 1000 * (ceiling.capacity + ceiling.rate * (last - first))
      else credit policyID subject app + 1000 * ceiling.rate * (last - b.balance.last)

structure Budgeted (app : AppState) : Prop where
  sound : Sound app
  covered : ∀ policy, app.getPolicy policyID = some policy → policy.Covered ceiling
  held : ∀ b, app.tokenBucket policyID subject = some b →
    credit policyID subject app ≤ 1000 * ceiling.capacity ∧ b.balance.last ≤ last

variable {policyID subject ceiling first last}

theorem headroom_le (budget : Budgeted policyID subject ceiling last app) :
    headroom policyID subject ceiling first last app ≤
      1000 * (ceiling.capacity + ceiling.rate * (last - first)) := by
  unfold headroom
  split
  · exact le_refl _
  · rename_i b stored
    split
    · exact le_refl _
    · rename_i recent
      have held := (budget.held b stored).1
      have later : (first : ℚ) ≤ b.balance.last := by exact_mod_cast not_lt.mp recent
      have waited := mul_le_mul_of_nonneg_left later ceiling.rate_nonneg
      linarith

theorem accrual_le {policy : Policy} (bounded : policy.Bounded) (covered : policy.Covered ceiling)
    {early late : Int} (ordered : early ≤ late) :
    1000 * (policy.refillTokens.toInt : ℚ) * (late - early) / policy.refillIntervalMS.toInt ≤
      1000 * ceiling.rate * (late - early) := by
  have period : (0 : ℚ) < policy.refillIntervalMS.toInt := by
    exact_mod_cast (show 0 < policy.refillIntervalMS.toInt by linarith [bounded.intervalLow])
  have elapsed : (0 : ℚ) ≤ late - early := by
    rw [sub_nonneg]
    exact_mod_cast ordered
  rw [div_le_iff₀ period]
  have scaled := mul_le_mul_of_nonneg_right covered.2 elapsed
  linarith

theorem headroom_opened {b : TokenBucketState} {amount : Int}
    (written : after.tokenBucket policyID subject = some b)
    (full : amount + credit policyID subject after ≤ 1000 * ceiling.capacity)
    (early : b.balance.last < first → amount ≤ 0) :
    amount + headroom policyID subject ceiling first last after ≤
      1000 * (ceiling.capacity + ceiling.rate * (last - first)) := by
  -- the first time the subject's clock passes `first`, its bucket is at most full
  rw [headroom, written]
  dsimp only
  split
  · rename_i old
    have none : (amount : ℚ) ≤ 0 := by exact_mod_cast early old
    linarith
  · rename_i recent
    have later : (first : ℚ) ≤ b.balance.last := by exact_mod_cast not_lt.mp recent
    have waited := mul_le_mul_of_nonneg_left later ceiling.rate_nonneg
    linarith

theorem headroom_advanced {b later : TokenBucketState} {amount : Int}
    (stored : app.tokenBucket policyID subject = some b) (recent : ¬ b.balance.last < first)
    (written : after.tokenBucket policyID subject = some later)
    (ordered : b.balance.last ≤ later.balance.last)
    (covered : amount + credit policyID subject after ≤
      credit policyID subject app + 1000 * ceiling.rate * (later.balance.last - b.balance.last)) :
    amount + headroom policyID subject ceiling first last after ≤
      headroom policyID subject ceiling first last app := by
  rw [headroom, headroom, written, stored]
  dsimp only
  rw [if_neg recent, if_neg (by omega)]
  linarith

def counted (first : Int) (cmd : Command) (amount : Int) : Int :=
  if first ≤ cmd.timestampMS.toInt then amount else 0

theorem counted_le {amount : Int} (nonneg : 0 ≤ amount) : counted first cmd amount ≤ amount := by
  unfold counted
  split
  · exact le_refl _
  · exact nonneg

theorem counted_nonneg (first : Int) (cmd : Command) {amount : Int} (nonneg : 0 ≤ amount) :
    0 ≤ counted first cmd amount := by
  unfold counted
  split
  · exact nonneg
  · exact le_refl 0

theorem headroom_moved {b later : TokenBucketState} {policy : Policy} {amount : Int}
    (nonneg : 0 ≤ amount) (bounded : policy.Bounded) (limits : policy.Covered ceiling)
    (stored : app.tokenBucket policyID subject = some b)
    (written : after.tokenBucket policyID subject = some later)
    (clock : later.balance.last = max cmd.timestampMS.toInt b.balance.last)
    (full : amount + credit policyID subject after ≤ 1000 * policy.capacityTokens.toInt)
    (accrued : amount + credit policyID subject after ≤ credit policyID subject app +
      1000 * policy.refillTokens.toInt * (later.balance.last - b.balance.last) /
        policy.refillIntervalMS.toInt) :
    counted first cmd amount + headroom policyID subject ceiling first last after ≤
      headroom policyID subject ceiling first last app := by
  have part : ((counted first cmd amount : Int) : ℚ) ≤ amount := by
    exact_mod_cast counted_le nonneg
  have ordered : b.balance.last ≤ later.balance.last := clock ▸ le_max_right _ _
  by_cases old : b.balance.last < first
  · have top : headroom policyID subject ceiling first last app =
        1000 * (ceiling.capacity + ceiling.rate * (last - first)) := by
      rw [headroom, stored]
      exact if_pos old
    have capacity : (policy.capacityTokens.toInt : ℚ) ≤ ceiling.capacity := by
      exact_mod_cast limits.1
    rw [top]
    refine headroom_opened written (by linarith) fun early => ?_
    rw [clock] at early
    rw [counted, if_neg (not_le.mpr (lt_of_le_of_lt (le_max_left _ _) early))]
  · have rate := accrual_le bounded limits ordered
    exact headroom_advanced stored old written ordered (by linarith)

theorem headroom_step (first : Int) (budget : Budgeted policyID subject ceiling last app)
    (time : Timestamp cmd.timestampMS) (late : cmd.timestampMS.toInt ≤ last)
    (asked : cmd.Covered lib policyID ceiling) (effect : Effect lib ctx cmd app result after) :
    Budgeted policyID subject ceiling last after ∧ 0 ≤ result.spent policyID subject ∧
      counted first cmd (result.spent policyID subject) +
          headroom policyID subject ceiling first last after ≤
        headroom policyID subject ceiling first last app := by
  have sound := budget.sound
  have covered := covered_effect sound budget.covered asked effect
  have kept := sound_effect sound time effect
  cases effect_subject sound time effect policyID subject with
  | kept same quiet rate =>
      have credits (b : TokenBucketState) (stored : app.tokenBucket policyID subject = some b) :
          credit policyID subject after = credit policyID subject app := by
        obtain ⟨_, _, ⟨policy, found⟩, _⟩ := sound_tokenBucket sound stored
        obtain ⟨later, replaced, interval⟩ := rate b policy stored found
        rw [credit_some (same.trans stored) replaced, credit_some stored found, interval]
      rw [spent_quiet quiet]
      refine ⟨⟨kept, covered, fun b stored => ?_⟩, le_refl 0, le_of_eq ?_⟩
      · rw [same] at stored
        rw [credits b stored]
        exact budget.held b stored
      · rw [counted, ite_self, Int.cast_zero, zero_add, headroom, headroom, same]
        split
        · rfl
        · rename_i b stored
          rw [credits b stored]
  | converted p old later b bounds quiet found replaced rate stored written =>
      obtain ⟨_, _, _, valid⟩ := sound_tokenBucket sound stored
      obtain ⟨_, bounded⟩ := sound_getPolicy sound found
      have clock : (convertBucket old p cmd.timestampMS b).balance.last =
          max cmd.timestampMS.toInt b.balance.last := by
        have refill := refillBucket_balance bounded valid.balance cmd.timestampMS
        exact (congrArg Balance.last refill).trans (Balance.refill_last _ _ _ _ _)
      have full := convertBucket_capped (p := p) bounded valid time
      have accrued := convertBucket_worth (p := p) bounded valid time
      rw [← rate, ← credit_some written replaced] at full accrued
      rw [← credit_some stored found] at accrued
      have limits := budget.covered old found
      have capacity : (old.capacityTokens.toInt : ℚ) ≤ ceiling.capacity := by
        exact_mod_cast limits.1
      rw [spent_quiet quiet]
      refine ⟨⟨kept, covered, ?_⟩, le_refl 0, ?_⟩
      · rintro _ now
        cases written.symm.trans now
        exact ⟨by linarith, clock ▸ max_le late (budget.held b stored).2⟩
      · exact headroom_moved (le_refl 0) bounded limits stored written clock (by simpa using full)
          (by simpa using accrued)
  | charged p policy bucket settled allowed retryAfter fresh outcome cost low high found same valid
      loaded spent written =>
      obtain ⟨_, bounded⟩ := sound_getPolicy sound found
      have amount := spent_fresh fresh outcome cost
      have full := settle_capped bounded valid low high spent
      have accrued := settle_worth bounded valid low high spent
      rw [← amount, ← credit_some written same] at full accrued
      have clock : settled.balance.last = max cmd.timestampMS.toInt bucket.balance.last := by
        obtain ⟨_, refilled, refill, _, value⟩ :=
          settle_spec bounded valid.balance (by linarith) high spent
        rw [value, refill, Balance.refill_last]
      have nonneg : 0 ≤ result.spent policyID subject := by
        rw [amount]
        split <;> linarith
      have limits := budget.covered policy found
      have capacity : (policy.capacityTokens.toInt : ℚ) ≤ ceiling.capacity := by
        exact_mod_cast limits.1
      have left : (0 : ℚ) ≤ result.spent policyID subject := by exact_mod_cast nonneg
      rcases loaded with stored | ⟨absent, fresh⟩
      · refine ⟨⟨kept, covered, ?_⟩, nonneg, ?_⟩
        · rintro _ now
          cases written.symm.trans now
          exact ⟨by linarith, clock ▸ max_le late (budget.held bucket stored).2⟩
        · rw [← credit_some stored found] at accrued
          exact headroom_moved nonneg bounded limits stored written clock full accrued
      · rw [fresh, max_self] at clock
        refine ⟨⟨kept, covered, ?_⟩, nonneg, ?_⟩
        · rintro _ now
          cases written.symm.trans now
          exact ⟨by linarith, clock ▸ late⟩
        · have part : ((counted first cmd (result.spent policyID subject) : Int) : ℚ) ≤
              result.spent policyID subject := by exact_mod_cast counted_le nonneg
          rw [show headroom policyID subject ceiling first last app = _ by rw [headroom, absent]]
          refine headroom_opened written (by linarith) fun early => ?_
          rw [clock] at early
          rw [counted, if_neg (not_le.mpr early)]

end Steps

section Charges

variable {lib : Stdlib} {ctx : ApplyContext} {cmd : Command} {app after : AppState}
  {result : Result} {d : DecisionRecord}

theorem charge_granted (first : Int) (policyID subject : String)
    (effect : Effect lib ctx cmd app result after) :
    (result.charge.map (DecisionRecord.granted first policyID subject)).getD 0 =
      counted first cmd (result.spent policyID subject) := by
  have none : counted first cmd 0 = 0 := ite_self _
  cases effect with
  | charged p policy bucket settled allowed retryAfter =>
      simp only [Result.charge, Bool.false_eq_true, if_false, Option.map_some, Option.getD_some,
        DecisionRecord.granted, decisionRecord, counted, Result.spent, Result.decides,
        Option.any_some, Bool.not_false, Bool.true_and, decide_eq_true_eq]
      cases allowed <;> simp [decided, ← ite_and, and_comm, and_assoc]
  | _ => exact none.symm

theorem stored_effect {clientID requestID : String} (effect : Effect lib ctx cmd app result after)
    (stored : after.decision clientID requestID = some d) :
    app.decision clientID requestID = some d ∨ result.charge = some d := by
  cases effect with
  | charged p policy bucket settled allowed retryAfter tokenBuckets idempotency typed payload shape
      fresh authorized loaded spent charged recorded =>
      have written := (lookupPair_stored recorded clientID requestID).symm.trans stored
      split at written
      · exact Or.inr written
      · exact Or.inl written
  | pruned p typed payload =>
      obtain ⟨key, encoded, kept⟩ := lookupPair_eq_some_iff.mp stored
      rw [Bucket.get_foldl_delete] at kept
      split at kept
      · cases kept
      · exact Or.inl (lookupPair_eq_some_iff.mpr ⟨key, encoded, kept⟩)
  | _ => exact Or.inl stored

theorem decision_effect (effect : Effect lib ctx cmd app result after)
    (decided : result.decision = some d) :
    (∃ clientID requestID, app.decision clientID requestID = some d) ∨ result.charge = some d := by
  cases effect with
  | replayed p prior typed payload shape found same =>
      cases decided
      exact Or.inl ⟨p.clientID, p.requestID, found⟩
  | charged => exact Or.inr decided
  | _ => cases decided

end Charges

section Runs

variable {lib : Stdlib} {policyID subject : String} {ceiling : Ceiling} {first last : Int}

theorem headroom_nonneg {app : AppState} (window : first ≤ last)
    (budget : Budgeted policyID subject ceiling last app) :
    0 ≤ headroom policyID subject ceiling first last app := by
  have ahead {early : Int} (ordered : early ≤ last) : 0 ≤ ceiling.rate * ((last : ℚ) - early) := by
    refine mul_nonneg ceiling.rate_nonneg (sub_nonneg.mpr ?_)
    exact_mod_cast ordered
  have capacity : (0 : ℚ) ≤ ceiling.capacity := by exact_mod_cast ceiling.capacity_nonneg
  have top := ahead window
  unfold headroom
  split
  · linarith
  · rename_i b stored
    split
    · linarith
    · obtain ⟨_, _, ⟨policy, found⟩, valid⟩ := sound_tokenBucket budget.sound stored
      obtain ⟨_, bounded⟩ := sound_getPolicy budget.sound found
      have later := ahead (budget.held b stored).2
      have tokens : (0 : ℚ) ≤ b.balance.tokens := by exact_mod_cast valid.balance.tokens
      have part : (0 : ℚ) ≤ b.balance.remainder / policy.refillIntervalMS.toInt :=
        div_nonneg (by exact_mod_cast valid.balance.remainder) (by
          exact_mod_cast (show 0 ≤ policy.refillIntervalMS.toInt by linarith [bounded.intervalLow]))
      rw [credit_some stored found, Balance.worth]
      linarith

theorem charges_cons (entry : LogEntry) (result : Result)
    (rest : List (LogEntry × Option Result)) :
    charges ((entry, some result) :: rest) = result.charge.toList ++ charges rest := by
  rw [charges, List.filterMap_cons, Option.bind_some]
  split
  · rename_i none
    rw [none]
    rfl
  · rename_i d some
    rw [some]
    rfl

theorem results_granted (window : first ≤ last) (index : Nat) (entries : List LogEntry)
    (state : Nat × AppState) (budget : Budgeted policyID subject ceiling last state.2)
    (asked : ∀ entry ∈ entries, entry.kind = .command → ∀ cmd,
      lib.command entry.command = some cmd → Timestamp cmd.timestampMS ∧
        cmd.timestampMS.toInt ≤ last ∧ cmd.Covered lib policyID ceiling) :
    (∀ d ∈ charges (results (some (applyFunc lib)) index entries state),
      0 ≤ d.granted first policyID subject) ∧
    ((((charges (results (some (applyFunc lib)) index entries state)).map
        (DecisionRecord.granted first policyID subject)).sum : Int) : ℚ) ≤
      headroom policyID subject ceiling first last state.2 := by
  induction entries generalizing index state with
  | nil =>
      exact ⟨by simp [results, charges],
        by simpa [results, charges] using headroom_nonneg window budget⟩
  | cons entry rest ih =>
      have later := fun other member => asked other (List.mem_cons_of_mem entry member)
      rw [results]
      split
      · exact ⟨by simp [charges], by simpa [charges] using headroom_nonneg window budget⟩
      · rename_i result next stepped
        by_cases command : entry.kind = .command
        · obtain ⟨cmd, applied, decoded, rfl, ran⟩ := transition_applied command stepped
          obtain ⟨time, late, covered⟩ := asked entry List.mem_cons_self command cmd decoded
          have effect := (apply_effect ran).2
          obtain ⟨kept, nonneg, spent⟩ := headroom_step first budget time late covered effect
          obtain ⟨others, total⟩ := ih (index + 1) next kept later
          have amount := charge_granted first policyID subject effect
          have part := counted_nonneg first cmd nonneg
          rw [charges_cons]
          cases charged : applied.charge with
          | none =>
              rw [charged, Option.map_none, Option.getD_none] at amount
              rw [← amount, Int.cast_zero, zero_add] at spent
              exact ⟨others, total.trans spent⟩
          | some d =>
              rw [charged, Option.map_some, Option.getD_some] at amount
              rw [← amount] at spent part
              rw [Option.toList_some, List.singleton_append, List.map_cons, List.sum_cons,
                Int.cast_add, List.forall_mem_cons]
              exact ⟨⟨part, others⟩, by linarith⟩
        · simp only [transition, applyFunc, applyEntry, if_pos command, Except.mapError] at stepped
          cases stepped
          exact ih (index + 1) (index, state.2) budget later

/-- Whatever decision running the entries returns was charged on the way, if it was not
stored before. -/
theorem results_charged (index : Nat) (entries : List LogEntry) (state : Nat × AppState)
    {answer : LogEntry × Option Result} {result : Result} {d : DecisionRecord}
    (member : answer ∈ results (some (applyFunc lib)) index entries state)
    (returned : answer.2 = some result) (decided : result.decision = some d) :
    (∃ clientID requestID, state.2.decision clientID requestID = some d) ∨
      d ∈ charges (results (some (applyFunc lib)) index entries state) := by
  induction entries generalizing index state with
  | nil => cases member
  | cons entry rest ih =>
      rw [results] at member ⊢
      split at member
      · cases member
      · rename_i applied next stepped
        have listed (charge : applied.bind Result.charge = some d) :
            d ∈ charges ((entry, applied) :: results (some (applyFunc lib)) (index + 1) rest next) :=
          List.mem_filterMap.mpr ⟨_, List.mem_cons_self, charge⟩
        by_cases command : entry.kind = .command
        · obtain ⟨cmd, given, _, rfl, ran⟩ := transition_applied command stepped
          have effect := (apply_effect ran).2
          rcases List.mem_cons.mp member with rfl | later
          · cases returned
            exact (decision_effect effect decided).imp_right listed
          · rcases ih (index + 1) next later with ⟨clientID, requestID, stored⟩ | charged
            · exact (stored_effect effect stored).imp (fun found => ⟨_, _, found⟩) listed
            · exact Or.inr (List.filterMap_subset _ (List.subset_cons_self _ _) charged)
        · simp only [transition, applyFunc, applyEntry, if_pos command, Except.mapError] at stepped
          cases stepped
          rcases List.mem_cons.mp member with rfl | later
          · cases returned
            cases decided
          · exact ih (index + 1) (index, state.2) later

end Runs

theorem budgeted_migrated (policyID subject : String) (ceiling : Ceiling) (last : Int) :
    Budgeted policyID subject ceiling last AppState.migrated := by
  refine ⟨sound_migrated, fun policy found => ?_, fun b stored => ?_⟩
  · cases found
  · cases (lookupPair_empty _ _).symm.trans stored

theorem told_charged {c : Cluster AppState Result} {u : World AppState Result} {lib : Stdlib}
    {order : List LogEntry} (machine : c.apply = some (applyFunc lib))
    (fresh : c.app = AppState.migrated) (linear : Linearizes c u order) :
    told u ⊆ charges (results (some (applyFunc lib)) 1 order (0, AppState.migrated)) := by
  intro d member
  obtain ⟨answer, returned, decided⟩ := List.mem_filterMap.mp (List.mem_dedup.mp member)
  obtain ⟨result, given, decision⟩ := Option.bind_eq_some_iff.mp decided
  have listed := returns_results linear returned
  rw [machine, fresh] at listed
  rcases results_charged 1 order _ listed given decision with ⟨_, _, stored⟩ | charged
  · cases (lookupPair_empty _ _).symm.trans stored
  · exact charged

/-- The cluster keeps its limits towards its callers. Take any time `first`: all the
grants for a subject that callers were told of by any nodes, the first time or on a
retry, counting each record once and only those asked for at `first` or later, are at
most a full bucket and what the time up to the latest timestamp is worth, in
milli-tokens. -/
theorem cluster_rate_limited (c : Cluster AppState Result) (lib : Stdlib)
    (machine : c.apply = some (applyFunc lib)) (fresh : c.app = AppState.migrated)
    (u : World AppState Result) (reachable : c.Reachable Plan.clean u) (policyID subject : String)
    (ceiling : Ceiling) (first last : Int) (window : first ≤ last)
    (asked : ∀ k origin entry cmd, registration u.proposals k = some (origin, entry) →
      lib.command entry.command = some cmd → Timestamp cmd.timestampMS ∧
        cmd.timestampMS.toInt ≤ last ∧ cmd.Covered lib policyID ceiling) :
    ((((told u).map (DecisionRecord.granted first policyID subject)).sum : Int) : ℚ) ≤
      1000 * (ceiling.capacity + ceiling.rate * (last - first)) := by
  obtain ⟨top, greatest⟩ := highest_commit reachable
  have linear := longest_linearizes (applyFunc_machine machine) reachable greatest
  have budget := budgeted_migrated policyID subject ceiling last
  obtain ⟨nonneg, total⟩ := results_granted window 1 (u.committedLog top) (0, AppState.migrated)
    budget fun entry member command cmd decoded => by
      obtain ⟨k, origin, called⟩ := linear.proposed entry member command
      exact asked k origin entry cmd (called_registered called) decoded
  have once := sum_le_of_subset (List.nodup_dedup _) (told_charged machine fresh linear) _ nonneg
  exact (Int.cast_le.mpr once).trans (total.trans (headroom_le budget))

/-- The call that charged timed out, and the retry was answered. -/
theorem cluster_rate_limited_trio : ∃ u, limiterTrio.Reachable Plan.clean u ∧
    (u.returns.map fun answer => answer.2.map (·.duplicate)) = [some true] ∧
    (told u).map (DecisionRecord.granted 1000 "orders" "alice") = [3000] ∧
    ((((told u).map (DecisionRecord.granted 1000 "orders" "alice")).sum : Int) : ℚ) ≤ 7000 := by
  obtain ⟨u, reachable, seen⟩ := smoothly_reached limiterTrio smooth_clean
    (electFirst ++ retriedRequest.map (.propose "a") ++
      [.expire 2, .deliver 10, .respond 10 1, .collect 3])
    (fun u => (u.proposals.map (fun call => call.entry),
      u.returns.map (fun answer => answer.2.map (·.duplicate)),
      (told u).map (DecisionRecord.granted 1000 "orders" "alice")))
    (by decide +kernel : _ = some (([⟨2, 1, .command, [0, 0, 5, 2]⟩, ⟨3, 1, .command, [3, 0]⟩,
      ⟨4, 1, .command, [5, 1, 1, 3]⟩, ⟨5, 1, .command, [5, 2, 1, 3]⟩] : List LogEntry),
      [some true], ([3000] : List Int)))
  obtain ⟨calls, seen⟩ := Prod.mk.inj seen
  obtain ⟨answers, grants⟩ := Prod.mk.inj seen
  refine ⟨u, reachable, answers, grants, ?_⟩
  have bound := cluster_rate_limited limiterTrio sampleLib rfl rfl u reachable "orders" "alice"
    ⟨5, 1 / 500, by decide, by norm_num⟩ 1000 2000 (by decide) ?_
  · norm_num at bound ⊢
    exact bound
  · intro k origin entry cmd registered decoded
    obtain ⟨call, found, same⟩ := Option.map_eq_some_iff.mp registered
    have member : entry ∈ u.proposals.map fun call => call.entry :=
      List.mem_map.mpr ⟨call, List.mem_of_getElem? found, congrArg Prod.snd same⟩
    rw [calls] at member
    simp only [List.mem_cons, List.not_mem_nil, or_false] at member
    have covered : (⟨5, 1 / 500, by decide, by norm_num⟩ : Ceiling).Covers 5 2 1000 := by
      refine ⟨by decide, ?_⟩
      change ((2 : Int) : ℚ) ≤ 1 / 500 * ((1000 : Int) : ℚ)
      norm_num
    rcases member with rfl | rfl | rfl | rfl <;> cases decoded <;>
      refine ⟨by decide +kernel, by decide +kernel, ?_, ?_⟩ <;> rintro p ⟨⟩ ⟨⟩ _
    exact covered

end QuorumLimiter.Limiter
