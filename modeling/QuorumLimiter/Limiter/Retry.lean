import QuorumLimiter.Limiter.Authorization
import QuorumLimiter.Limiter.Progress
import QuorumLimiter.Limiter.Refill

/-!
Coming back after a denial. The estimate of a denied decision counts from the time the
bucket was last refilled, and clients count it from the time of their request; the two
differ when a leader's clock was ahead.
-/

namespace QuorumLimiter.Limiter

open Accrual

/-- A later request like an earlier one, under a request id that has no record. -/
structure Retries (lib : Stdlib) (p q : DecidePayload) (again : Command) (app : AppState) : Prop where
  typed : again.type = .decide
  payload : lib.decide again.payload = some q
  clientID : q.clientID = p.clientID
  policyID : q.policyID = p.policyID
  subject : q.subject = p.subject
  cost : q.cost = p.cost
  named : validateRequestID q.requestID = .ok ()
  unused : app.decision q.clientID q.requestID = none

def AllowedFrom (lib : Stdlib) (ctx : ApplyContext) (again : Command) (state : Nat × AppState)
    (earliest : Int) : Prop :=
  ∀ now : Int64, Timestamp now → earliest ≤ now.toInt → ∃ result next,
    apply lib ctx { again with timestampMS := now } state = .ok (result, next) ∧
      result.outcome = .allowed

/-- The balance stored for the subject, if there is one, covers the cost at the time. -/
def Covers (app : AppState) (policy : Policy) (p : DecidePayload) (now : Int) : Prop :=
  ∀ b, app.tokenBucket p.policyID p.subject = some b →
    (p.cost.toInt * 1000 - b.tokensMilli.toInt) * policy.refillIntervalMS.toInt -
        b.refillRemainder.toInt ≤
      policy.refillTokens.toInt * 1000 *
        (max now b.lastRefillMS.toInt - b.lastRefillMS.toInt)

section Carried

variable {lib : Stdlib} {ctx : ApplyContext} {cmd : Command} {app after : AppState}
  {result : Result} {policyID subject : String}

/-- The remainder that a subject carries is less than one interval of its policy. -/
def Carried (policyID subject : String) (app : AppState) : Prop :=
  ∀ b policy, app.tokenBucket policyID subject = some b → app.getPolicy policyID = some policy →
    b.refillRemainder.toInt < policy.refillIntervalMS.toInt

theorem carried_effect (sound : Sound app) (time : Timestamp cmd.timestampMS)
    (effect : Effect lib ctx cmd app result after) (carried : Carried policyID subject app) :
    Carried policyID subject after := by
  intro b policy stored found
  cases effect_subject sound time effect policyID subject with
  | kept same quiet rate =>
      rw [same] at stored
      obtain ⟨_, _, ⟨before, known⟩, _⟩ := sound_tokenBucket sound stored
      obtain ⟨later, again, kept⟩ := rate b before stored known
      cases found.symm.trans again
      rw [kept]
      exact carried b before stored known
  | converted p old later before bounds quiet known replaced rate held written =>
      cases stored.symm.trans written
      cases found.symm.trans replaced
      obtain ⟨_, bounded⟩ := sound_getPolicy sound known
      obtain ⟨_, _, _, valid⟩ := sound_tokenBucket sound held
      rw [rate]
      exact convertBucket_remainder bounded bounds valid.balance
  | charged p other bucket settled allowed retryAfter fresh outcome cost low high known same valid
      loaded spent written =>
      cases stored.symm.trans written
      cases found.symm.trans same
      obtain ⟨_, bounded⟩ := sound_getPolicy sound known
      exact (settle_within bounded valid.balance (by omega) high spent).2

theorem carried_finish (commands : List (ApplyContext × Command))
    (timed : ∀ command ∈ commands, Timestamp command.2.timestampMS) (policyID subject : String) :
    Carried policyID subject (finish lib (0, AppState.migrated) commands).2 := by
  suffices kept : Sound (finish lib (0, AppState.migrated) commands).2 ∧
      Carried policyID subject (finish lib (0, AppState.migrated) commands).2 from kept.2
  refine finish_keeps (fun app => Sound app ∧ Carried policyID subject app) (0, AppState.migrated)
    ?_ ⟨sound_migrated, ?_⟩
  · rintro command member app result after ⟨sound, carried⟩ effect
    have time := timed command member
    exact ⟨sound_effect sound time effect, carried_effect sound time effect carried⟩
  · intro b policy stored
    simp [AppState.tokenBucket, AppState.migrated] at stored

end Carried

section Answers

variable {lib : Stdlib} {ctx : ApplyContext} {cmd : Command} {app after : AppState}
  {result : Result} {q : DecidePayload} {policy : Policy} {bucket settled : TokenBucketState}
  {allowed : Bool} {retryAfter : Int64}

theorem decided_allowed_iff : decided allowed = .allowed ↔ allowed = true := by
  cases allowed <;> simp [decided]

theorem decide_unused (typed : cmd.type = .decide) (payload : lib.decide cmd.payload = some q)
    (shape : validateDecisionInput q.policyID q.subject q.requestID q.cost = .ok ())
    (unused : app.decision q.clientID q.requestID = none)
    (ran : applyTx lib ctx cmd app = .ok (result, after)) :
    (∃ refusal, authorize app q = .error refusal) ∧ result.outcome = .rejected ∨
      ∃ policy bucket settled allowed retryAfter, authorize app q = .ok policy ∧
        loadOrInitBucket app policy q.subject cmd.timestampMS = .ok bucket ∧
        settle ctx cmd q policy bucket = (settled, allowed, retryAfter) ∧
        result.outcome = decided allowed ∧ RecordFits q.clientID q.requestID := by
  rcases decide_fresh typed payload shape unused ran with
    ⟨refusal, refused, outcome, _⟩ | ⟨_, answer, _, outcome⟩
  · exact Or.inl ⟨⟨refusal, refused⟩, outcome⟩
  rcases effect_decide (applyTx_effect ran) typed payload with ⟨_, rejected | known⟩ |
    ⟨policy, bucket, settled, allowed, retryAfter, _, _, _, _, authorized, loaded, spent, _,
      recorded, _, decides⟩
  · cases answer <;> cases outcome.symm.trans rejected
  · exact absurd unused known
  · exact Or.inr ⟨policy, bucket, settled, allowed, retryAfter, authorized, loaded, spent, decides,
      putPair_length recorded⟩

theorem settle_allowed_iff (sound : Sound app) (found : app.getPolicy q.policyID = some policy)
    (time : Timestamp cmd.timestampMS) (low : 0 ≤ q.cost.toInt)
    (high : q.cost.toInt ≤ policy.maxCostTokens.toInt)
    (loaded : loadOrInitBucket app policy q.subject cmd.timestampMS = .ok bucket)
    (spent : settle ctx cmd q policy bucket = (settled, allowed, retryAfter)) :
    allowed = true ↔ Covers app policy q cmd.timestampMS.toInt := by
  obtain ⟨own, bounded⟩ := sound_getPolicy sound found
  obtain ⟨_, _, valid, stored⟩ := loadOrInitBucket_ok sound bounded time loaded
  obtain ⟨_, refilled, rfl, iff, _⟩ := settle_spec bounded valid.balance low high spent
  have period : 0 < policy.refillIntervalMS.toInt := by linarith [bounded.intervalLow]
  have within : q.cost.toInt ≤ policy.capacityTokens.toInt := by linarith [bounded.costHigh]
  rw [iff, Balance.covered_iff _ _ _ period within, Covers, ← own]
  rcases stored with stored | ⟨absent, full⟩
  · constructor
    · intro enough b again
      cases stored.symm.trans again
      exact enough
    · exact fun enough => enough bucket stored
  · refine iff_of_true ?_ fun b again => by cases absent.symm.trans again
    have price := mul_nonneg (show 0 ≤ policy.capacityTokens.toInt * 1000 - q.cost.toInt * 1000 by
      omega) (le_of_lt period)
    rw [full]
    simp only [max_self, sub_self, mul_zero, sub_zero]
    linarith

theorem decide_allowed_iff {state : Nat × AppState} (sound : Sound state.2) (keyed : Keyed state.2)
    (time : Timestamp cmd.timestampMS) (typed : cmd.type = .decide)
    (payload : lib.decide cmd.payload = some q)
    (shape : validateDecisionInput q.policyID q.subject q.requestID q.cost = .ok ())
    (unused : state.2.decision q.clientID q.requestID = none) :
    (∃ result next, apply lib ctx cmd state = .ok (result, next) ∧ result.outcome = .allowed) ↔
      RecordFits q.clientID q.requestID ∧ ∃ policy, authorize state.2 q = .ok policy ∧
        Covers state.2 policy q cmd.timestampMS.toInt := by
  obtain ⟨_, _, cost⟩ := validateDecisionInput_ok shape
  constructor
  · rintro ⟨result, next, ran, allowed⟩
    rcases decide_unused typed payload shape unused (apply_ok ran).2 with ⟨_, rejected⟩ |
      ⟨policy, bucket, settled, answer, retryAfter, authorized, loaded, spent, outcome, fits⟩
    · cases rejected.symm.trans allowed
    · obtain ⟨found, _, price, _⟩ := authorize_ok authorized
      refine ⟨fits, policy, authorized, ?_⟩
      exact (settle_allowed_iff sound found time (by omega) price loaded spent).mp
        (decided_allowed_iff.mp (outcome.symm.trans allowed))
  · rintro ⟨fits, policy, authorized, covered⟩
    have answered : Returns (applyTx lib ctx cmd state.2) := by
      rw [applyTx, typed]
      exact decide_returns keyed payload fun _ => fits
    obtain ⟨result, after, ran⟩ := answered
    refine ⟨result, (ctx.logIndex, after), by rw [apply, ran]; rfl, ?_⟩
    rcases decide_unused typed payload shape unused ran with ⟨⟨_, refused⟩, _⟩ |
      ⟨other, bucket, settled, answer, retryAfter, again, loaded, spent, outcome, _⟩
    · cases authorized.symm.trans refused
    · cases authorized.symm.trans again
      obtain ⟨found, _, price, _⟩ := authorize_ok authorized
      rw [outcome, decided_allowed_iff]
      exact (settle_allowed_iff sound found time (by omega) price loaded spent).mpr covered

theorem covers_mono {now later : Int} (bounded : policy.Bounded) (order : now ≤ later)
    (covers : Covers app policy q now) : Covers app policy q later := by
  intro b stored
  refine le_trans (covers b stored) (mul_le_mul_of_nonneg_left ?_ (by linarith [bounded.refillLow]))
  omega

theorem validateDecisionInput_renamed {policyID subject requestID other : String} {cost : Int64}
    (accepted : validateDecisionInput policyID subject requestID cost = .ok ())
    (named : validateRequestID other = .ok ()) :
    validateDecisionInput policyID subject other cost = .ok () := by
  obtain ⟨_, policy, accepted⟩ := bind_ok accepted
  obtain ⟨_, shape, accepted⟩ := bind_ok accepted
  obtain ⟨_, _, accepted⟩ := bind_ok accepted
  rw [validateDecisionInput, policy, shape, named]
  exact accepted

theorem allowedFrom_iff {p : DecidePayload} {again : Command} {state : Nat × AppState}
    {earliest : Int} (sound : Sound state.2) (keyed : Keyed state.2)
    (shape : validateDecisionInput p.policyID p.subject p.requestID p.cost = .ok ())
    (retries : Retries lib p q again state.2) (late : earliest ≤ 2 ^ 62) :
    AllowedFrom lib ctx again state earliest ↔
      RecordFits q.clientID q.requestID ∧ ∃ policy, authorize state.2 p = .ok policy ∧
        Covers state.2 policy p earliest := by
  have checked : authorize state.2 q = authorize state.2 p := by
    simp only [authorize, retries.clientID, retries.policyID, retries.cost]
  have covers : ∀ policy now, Covers state.2 policy q now ↔ Covers state.2 policy p now := by
    intro policy now
    simp only [Covers, retries.policyID, retries.subject, retries.cost]
  have accepted : validateDecisionInput q.policyID q.subject q.requestID q.cost = .ok () := by
    rw [retries.policyID, retries.subject, retries.cost]
    exact validateDecisionInput_renamed shape retries.named
  have answer : ∀ now : Int64, Timestamp now →
      ((∃ result next, apply lib ctx { again with timestampMS := now } state = .ok (result, next) ∧
        result.outcome = .allowed) ↔ RecordFits q.clientID q.requestID ∧
          ∃ policy, authorize state.2 p = .ok policy ∧ Covers state.2 policy p now.toInt) := by
    intro now time
    simp only [← checked, ← covers]
    exact decide_allowed_iff sound keyed time retries.typed retries.payload accepted retries.unused
  constructor
  · intro allowed
    have first : (Int64.ofInt (max earliest 0)).toInt = max earliest 0 :=
      Int64.toInt_ofInt_of_le (by omega) (by omega)
    have time : Timestamp (Int64.ofInt (max earliest 0)) := by
      rw [Timestamp, first]
      omega
    obtain ⟨fits, policy, authorized, covered⟩ :=
      (answer _ time).mp (allowed _ time (by rw [first]; omega))
    refine ⟨fits, policy, authorized, ?_⟩
    intro b stored
    have enough := covered b stored
    have clock := (sound_tokenBucket sound stored).2.2.2.last.1
    rw [first, max_assoc, max_eq_right clock] at enough
    exact enough
  · rintro ⟨fits, policy, authorized, covered⟩ now time order
    obtain ⟨_, bounded⟩ := sound_getPolicy sound (authorize_ok authorized).1
    exact (answer now time).mpr ⟨fits, policy, authorized, covers_mono bounded order covered⟩

end Answers

section Denials

variable {lib : Stdlib} {ctx : ApplyContext} {cmd : Command} {app after : AppState}
  {result : Result} {p : DecidePayload} {policy : Policy} {bucket settled : TokenBucketState}
  {retryAfter : Int64} {d : DecisionRecord}

theorem Balance.refill_behind (balance : Balance) {capacity interval now : Int} (rate : Int)
    (behind : now ≤ balance.last) (low : 0 ≤ balance.remainder) (high : balance.remainder < interval)
    (part : balance.tokens < capacity * 1000) :
    balance.refill capacity rate interval now = balance := by
  have worth : balance.numerator rate now = balance.remainder := by
    rw [Balance.numerator, max_eq_right behind]
    simp
  have none : balance.remainder / interval = 0 := Int.ediv_eq_zero_of_lt low high
  have rest : balance.remainder % interval = balance.remainder := Int.emod_eq_of_lt low high
  rw [Balance.refill_part (by rw [worth, none]; omega), worth, none, rest, max_eq_right behind,
    add_zero]

theorem settle_retry (bounded : policy.Bounded) (valid : bucket.balance.Valid)
    (low : 0 ≤ p.cost.toInt) (high : p.cost.toInt ≤ policy.maxCostTokens.toInt)
    (spent : settle ctx cmd p policy bucket = (settled, false, retryAfter)) :
    settled.tokensMilli.toInt < p.cost.toInt * 1000 ∧
      retryAfter.toInt =
        wait ((p.cost.toInt * 1000 - settled.tokensMilli.toInt) * policy.refillIntervalMS.toInt)
          (policy.refillTokens.toInt * 1000) := by
  have kept := refillBucket_nonneg bounded valid cmd.timestampMS
  unfold settle at spent
  generalize refillBucket bucket policy.capacityTokens policy.refillTokens policy.refillIntervalMS
    cmd.timestampMS = refilled at spent kept
  simp only [Prod.mk.injEq] at spent
  obtain ⟨rfl, denied, rfl⟩ := spent
  rcases spend_spec refilled p.cost policy.refillTokens policy.refillIntervalMS kept.tokens low
    (by linarith [bounded.costHigh, bounded.capacityHigh]) with ⟨yes, _⟩ | ⟨_, short, same⟩
  · cases denied.symm.trans yes
  · rw [same]
    exact ⟨short, spend_retry bounded kept.tokens low high short⟩

theorem decide_denied (keyed : Keyed app) (payload : lib.decide cmd.payload = some p)
    (effect : Effect lib ctx cmd app result after) (denied : result.outcome = .denied)
    (fresh : result.duplicate = false) (recorded : result.decision = some d) :
    validateDecisionInput p.policyID p.subject p.requestID p.cost = .ok () ∧
      authorize after p = authorize app p ∧
      ∃ policy bucket settled, authorize app p = .ok policy ∧
        loadOrInitBucket app policy p.subject cmd.timestampMS = .ok bucket ∧
        settle ctx cmd p policy bucket = (settled, false, d.retryAfterMS) ∧
        after.tokenBucket p.policyID p.subject = some settled := by
  cases effect with
  | charged q policy bucket settled allowed retryAfter tokenBuckets idempotency typed again shape
      unused authorized loaded spent charged filed =>
      cases payload.symm.trans again
      cases recorded
      cases allowed with
      | true => cases denied
      | false =>
          obtain ⟨own, _⟩ := keyed_getPolicy keyed (authorize_ok authorized).1
          obtain ⟨owner, named⟩ := loadOrInitBucket_owner (keyed_ownKeys keyed) loaded
          obtain ⟨keptOwner, keptName⟩ := settle_owner spent
          have lookup := lookupPair_stored charged p.policyID p.subject
          rw [keptOwner, owner, own, keptName, named, if_pos ⟨rfl, rfl⟩] at lookup
          exact ⟨shape, rfl, policy, bucket, settled, authorized, loaded, spent, lookup⟩
  | replayed q prior => cases fresh
  | _ => cases denied

theorem decide_denied_again (payload : lib.decide cmd.payload = some p)
    (effect : Effect lib ctx cmd app result after) (denied : result.outcome = .denied)
    (repeated : result.duplicate = true) :
    validateDecisionInput p.policyID p.subject p.requestID p.cost = .ok () ∧ after = app := by
  cases effect with
  | replayed q prior typed again shape =>
      cases payload.symm.trans again
      exact ⟨shape, rfl⟩
  | charged => cases repeated
  | _ => cases denied

theorem denied_balance (bounded : policy.Bounded) (valid : bucket.balance.Valid)
    (low : 0 ≤ p.cost.toInt) (high : p.cost.toInt ≤ policy.maxCostTokens.toInt)
    (spent : settle ctx cmd p policy bucket = (settled, false, retryAfter)) :
    settled.balance = bucket.balance.refill policy.capacityTokens.toInt
      policy.refillTokens.toInt policy.refillIntervalMS.toInt cmd.timestampMS.toInt := by
  obtain ⟨_, refilled, refill, _, balance⟩ := settle_spec bounded valid low high spent
  rw [balance, refill]
  simp

theorem denied_partial (bounded : policy.Bounded) (valid : bucket.balance.Valid)
    (low : 0 ≤ p.cost.toInt) (high : p.cost.toInt ≤ policy.maxCostTokens.toInt)
    (spent : settle ctx cmd p policy bucket = (settled, false, retryAfter)) :
    bucket.tokensMilli.toInt < policy.capacityTokens.toInt * 1000 := by
  -- a full bucket covers every cost a policy takes, so the denied one was not full
  have same := denied_balance bounded valid low high spent
  obtain ⟨short, _⟩ := settle_retry bounded valid low high spent
  have period : 0 < policy.refillIntervalMS.toInt := by linarith [bounded.intervalLow]
  have most : p.cost.toInt ≤ policy.capacityTokens.toInt := by linarith [bounded.costHigh]
  by_contra above
  have credit := Int.ediv_nonneg (Balance.numerator_nonneg cmd.timestampMS.toInt valid
    (show 0 ≤ policy.refillTokens.toInt by linarith [bounded.refillLow])) (le_of_lt period)
  have full : policy.capacityTokens.toInt * 1000 ≤ bucket.balance.tokens + _ :=
    le_add_of_le_of_nonneg (not_lt.mp above) credit
  rw [Balance.refill_full full] at same
  have tokens : settled.tokensMilli.toInt = policy.capacityTokens.toInt * 1000 :=
    congrArg Balance.tokens same
  omega

/-- The wait that a denial names is enough exactly when what the bucket's clock was ahead of
the request is worth no more than the remainder it carried and the rounding of the estimate. -/
theorem denied_covers_iff (sound : Sound app) (carried : Carried p.policyID p.subject app)
    (time : Timestamp cmd.timestampMS) (found : app.getPolicy p.policyID = some policy)
    (low : 0 ≤ p.cost.toInt) (high : p.cost.toInt ≤ policy.maxCostTokens.toInt)
    (loaded : loadOrInitBucket app policy p.subject cmd.timestampMS = .ok bucket)
    (spent : settle ctx cmd p policy bucket = (settled, false, retryAfter))
    (written : after.tokenBucket p.policyID p.subject = some settled) :
    app.tokenBucket p.policyID p.subject = some bucket ∧
      (Covers after policy p (cmd.timestampMS.toInt + retryAfter.toInt) ↔
        policy.refillTokens.toInt * 1000 *
            (bucket.lastRefillMS.toInt - cmd.timestampMS.toInt) ≤
          bucket.refillRemainder.toInt +
            -((p.cost.toInt * 1000 - bucket.tokensMilli.toInt) * policy.refillIntervalMS.toInt) %
              (policy.refillTokens.toInt * 1000)) := by
  obtain ⟨own, bounded⟩ := sound_getPolicy sound found
  obtain ⟨_, _, valid, stored⟩ := loadOrInitBucket_ok sound bounded time loaded
  obtain ⟨kept, _⟩ := settle_spec bounded valid.balance low high spent
  obtain ⟨short, retry⟩ := settle_retry bounded valid.balance low high spent
  have same := denied_balance bounded valid.balance low high spent
  have part := denied_partial bounded valid.balance low high spent
  have speed : 0 < policy.refillTokens.toInt * 1000 := by linarith [bounded.refillLow]
  have period : 0 < policy.refillIntervalMS.toInt := by linarith [bounded.intervalLow]
  have present : app.tokenBucket p.policyID p.subject = some bucket := by
    rw [own] at stored
    rcases stored with stored | ⟨_, full⟩
    · exact stored
    · have tokens : bucket.tokensMilli.toInt = policy.capacityTokens.toInt * 1000 :=
        congrArg Balance.tokens full
      omega
  refine ⟨present, ?_⟩
  have remainder : 0 ≤ bucket.refillRemainder.toInt := valid.balance.remainder
  have fraction := carried bucket policy present found
  have last : settled.lastRefillMS.toInt = max cmd.timestampMS.toInt bucket.lastRefillMS.toInt :=
    (congrArg Balance.last same).trans (Balance.refill_last _ _ _ _ _)
  have covers : Covers after policy p (cmd.timestampMS.toInt + retryAfter.toInt) ↔
      (p.cost.toInt * 1000 - settled.tokensMilli.toInt) * policy.refillIntervalMS.toInt -
          settled.refillRemainder.toInt ≤
        policy.refillTokens.toInt * 1000 *
          (max (cmd.timestampMS.toInt + retryAfter.toInt) settled.lastRefillMS.toInt -
            settled.lastRefillMS.toInt) := by
    constructor
    · exact fun enough => enough settled written
    · intro enough b again
      cases written.symm.trans again
      exact enough
  rw [covers, retry]
  rcases le_or_gt cmd.timestampMS.toInt bucket.lastRefillMS.toInt with behind | ahead
  · rw [Balance.refill_behind bucket.balance _ behind remainder fraction part] at same
    simp only [TokenBucketState.balance, Balance.mk.injEq] at same
    obtain ⟨tokens, rest, clock⟩ := same
    rw [tokens, rest, clock]
    apply wait_behind speed
    -- at least one milli-token is missing, more than any remainder
    exact lt_of_lt_of_le fraction (le_mul_of_one_le_left (le_of_lt period) (by omega))
  · rw [last, max_eq_left (le_of_lt ahead)]
    generalize need : (p.cost.toInt * 1000 - settled.tokensMilli.toInt) *
      policy.refillIntervalMS.toInt = missing
    have enough := wait_enough speed missing
    have waits := wait_pos speed (need ▸ mul_pos (by omega) period : 0 < missing)
    have held : 0 ≤ settled.refillRemainder.toInt := kept.remainder
    have slack := Int.emod_nonneg (-((p.cost.toInt * 1000 - bucket.tokensMilli.toInt) *
      policy.refillIntervalMS.toInt)) (ne_of_gt speed)
    have skew : policy.refillTokens.toInt * 1000 *
        (bucket.lastRefillMS.toInt - cmd.timestampMS.toInt) ≤ 0 :=
      mul_nonpos_of_nonneg_of_nonpos (le_of_lt speed) (by omega)
    refine iff_of_true ?_ (by omega)
    rw [max_eq_left (by omega), add_sub_cancel_left]
    omega

end Denials

/-- After a denial at time `t` with the estimate `r`, on any store that commands reach, the
same request under a request id that has no record is allowed at every time from `t + r` on
exactly when its record fits under a key and what the bucket's clock was ahead of `t` is worth
no more than the remainder it carried and the rounding of the estimate. Where the denial
repeats a stored one, the store must besides still authorize the request and cover it. -/
theorem retry_after_honoured_iff (lib : Stdlib) (commands : List (ApplyContext × Command))
    (timed : ∀ command ∈ commands, Timestamp command.2.timestampMS) (state : Nat × AppState)
    (reached : finish lib (0, AppState.migrated) commands = state) (ctx : ApplyContext)
    (cmd : Command) (time : Timestamp cmd.timestampMS) (p : DecidePayload)
    (payload : lib.decide cmd.payload = some p) (result : Result) (next : Nat × AppState)
    (ran : apply lib ctx cmd state = .ok (result, next)) (denied : result.outcome = .denied)
    (d : DecisionRecord) (recorded : result.decision = some d)
    (room : cmd.timestampMS.toInt + d.retryAfterMS.toInt ≤ 2 ^ 62) (later : ApplyContext)
    (again : Command) (q : DecidePayload) (retries : Retries lib p q again next.2) :
    (result.duplicate = false → ∃ policy b, state.2.getPolicy p.policyID = some policy ∧
      state.2.tokenBucket p.policyID p.subject = some b ∧
      (AllowedFrom lib later again next (cmd.timestampMS.toInt + d.retryAfterMS.toInt) ↔
        RecordFits q.clientID q.requestID ∧
          policy.refillTokens.toInt * 1000 * (b.lastRefillMS.toInt - cmd.timestampMS.toInt) ≤
            b.refillRemainder.toInt +
              -((p.cost.toInt * 1000 - b.tokensMilli.toInt) * policy.refillIntervalMS.toInt) %
                (policy.refillTokens.toInt * 1000))) ∧
    (result.duplicate = true →
      (AllowedFrom lib later again next (cmd.timestampMS.toInt + d.retryAfterMS.toInt) ↔
        RecordFits q.clientID q.requestID ∧ ∃ policy, authorize state.2 p = .ok policy ∧
          Covers state.2 policy p (cmd.timestampMS.toInt + d.retryAfterMS.toInt))) := by
  have sound : Sound state.2 := reached ▸ sound_finish _ commands timed sound_migrated
  have keyed : Keyed state.2 := reached ▸ keyed_finish _ commands keyed_migrated
  have carried : Carried p.policyID p.subject state.2 := reached ▸ carried_finish commands timed _ _
  obtain ⟨_, effect⟩ := apply_effect ran
  have soundNext := sound_effect sound time effect
  have keyedNext := keyed_effect keyed effect
  constructor
  · intro fresh
    obtain ⟨shape, checked, policy, bucket, settled, authorized, loaded, spent, written⟩ :=
      decide_denied keyed payload effect denied fresh recorded
    obtain ⟨found, _, price, _⟩ := authorize_ok authorized
    obtain ⟨_, _, cost⟩ := validateDecisionInput_ok shape
    obtain ⟨stored, covers⟩ := denied_covers_iff sound carried time found (by omega) price loaded
      spent written
    refine ⟨policy, bucket, found, stored, ?_⟩
    rw [allowedFrom_iff soundNext keyedNext shape retries room, checked, authorized, ← covers]
    simp
  · intro repeated
    obtain ⟨shape, same⟩ := decide_denied_again payload effect denied repeated
    rw [allowedFrom_iff soundNext keyedNext shape retries room, same]

section Sample

def emptiedRun : List (ApplyContext × Command) :=
  sampleCommands 1 [[0, 0, 5, 2], [3, 0], [5, 10, 1, 5]]

def emptiedStore : Nat × AppState := finish sampleLib (0, AppState.migrated) emptiedRun

def sampleAsk (now : Int64) (request : UInt8) : Command := ⟨1, "", .decide, now, [request, 1]⟩

def readDenial (answer : Result × Nat × AppState) :
    Outcome × Bool × Option Int64 × Bool × Option Outcome :=
  (answer.1.outcome, answer.1.duplicate, answer.1.decision.map (·.retryAfterMS),
    (answer.2.2.decision "client-a" "request-000000003").isNone,
    (apply sampleLib ⟨5, 1⟩ (sampleAsk 6000 3) answer.2).toOption.map (·.1.outcome))

theorem sampleAsk_retries {app : AppState}
    (unused : (app.decision "client-a" "request-000000003").isNone = true) :
    Retries sampleLib (requestOf 1 "request-000000002") (requestOf 1 "request-000000003")
      (sampleAsk 0 3) app :=
  ⟨rfl, by decide +kernel, rfl, rfl, rfl, rfl, by decide +kernel, Option.isNone_iff_eq_none.mp unused⟩

theorem retry_after_honoured_iff_sample : ∃ result next,
    apply sampleLib ⟨4, 1⟩ (sampleAsk 10000 2) emptiedStore = .ok (result, next) ∧
      result.outcome = .denied ∧ AllowedFrom sampleLib ⟨5, 1⟩ (sampleAsk 0 3) next 10500 := by
  have seen : (apply sampleLib ⟨4, 1⟩ (sampleAsk 10000 2) emptiedStore).toOption.map readDenial =
      some (.denied, false, some 500, true, some .denied) := by decide +kernel
  have state : emptiedStore.2.getPolicy "orders" = some
      ⟨1, "orders", "Orders", 5, 2, 1000, 5, true, 1, 0, 0⟩ ∧
      emptiedStore.2.tokenBucket "orders" "alice" =
        some ⟨1, "orders", "alice", 0, 10000, 0, 1, 3⟩ := by decide +kernel
  obtain ⟨⟨result, next⟩, ran, facts⟩ := toOption_ok seen
  simp only [readDenial, Prod.mk.injEq] at facts
  obtain ⟨denied, fresh, estimate, unused, _⟩ := facts
  obtain ⟨d, recorded, retry⟩ := Option.map_eq_some_iff.mp estimate
  have whole : (sampleAsk 10000 2).timestampMS.toInt + d.retryAfterMS.toInt = 10500 := by
    rw [retry]
    rfl
  obtain ⟨policy, b, found, stored, iff⟩ := (retry_after_honoured_iff sampleLib emptiedRun
    (by decide +kernel) emptiedStore rfl ⟨4, 1⟩ (sampleAsk 10000 2) (by decide)
    (requestOf 1 "request-000000002") (by decide +kernel) result next ran denied d recorded
    (by rw [whole]; decide) ⟨5, 1⟩ (sampleAsk 0 3) _ (sampleAsk_retries unused)).1 fresh
  cases state.1.symm.trans found
  cases state.2.symm.trans stored
  rw [whole] at iff
  exact ⟨result, next, ran, denied, iff.mpr ⟨by unfold RecordFits; decide +kernel, by decide⟩⟩

/-- A leader that is five seconds behind denies a request and names half a second, after
which the same request is denied again. -/
theorem retry_after_behind_clock : ∃ result next d,
    apply sampleLib ⟨4, 1⟩ (sampleAsk 5000 2) emptiedStore = .ok (result, next) ∧
      result.outcome = .denied ∧ result.duplicate = false ∧ result.decision = some d ∧
      d.retryAfterMS = 500 ∧
      Retries sampleLib (requestOf 1 "request-000000002") (requestOf 1 "request-000000003")
        (sampleAsk 0 3) next.2 ∧
      ¬AllowedFrom sampleLib ⟨5, 1⟩ (sampleAsk 0 3) next
        ((sampleAsk 5000 2).timestampMS.toInt + d.retryAfterMS.toInt) := by
  have seen : (apply sampleLib ⟨4, 1⟩ (sampleAsk 5000 2) emptiedStore).toOption.map readDenial =
      some (.denied, false, some 500, true, some .denied) := by decide +kernel
  obtain ⟨⟨result, next⟩, ran, facts⟩ := toOption_ok seen
  simp only [readDenial, Prod.mk.injEq] at facts
  obtain ⟨denied, fresh, estimate, unused, again⟩ := facts
  obtain ⟨d, recorded, retry⟩ := Option.map_eq_some_iff.mp estimate
  refine ⟨result, next, d, ran, denied, fresh, recorded, retry, sampleAsk_retries unused, ?_⟩
  intro allowed
  obtain ⟨other, reached, second, outcome⟩ := allowed 6000 (by decide) (by rw [retry]; decide)
  obtain ⟨answer, third, refused⟩ := toOption_ok again
  cases (show apply sampleLib ⟨5, 1⟩ (sampleAsk 6000 3) next = _ from second).symm.trans third
  cases outcome.symm.trans refused

end Sample

end QuorumLimiter.Limiter
