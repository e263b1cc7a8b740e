import QuorumLimiter.Limiter.Invariants

/-!
The numbers in the store. Policies keep the bounds of their validation, balances
stay between zero and the capacity of the policy's current version, and remainders
below its interval, whatever updates come. Each function of the token bucket has an
`exact` twin that stops at an overflow nobody reports and at a division by zero; on
every store that commands can reach the twin does not stop.
-/

namespace QuorumLimiter.Limiter

open Fixed64

section Twins

/-- The product may wrap here; the twin stops if the division back does not notice. -/
def exactCheckedMul (a b : Int64) : Option (Option Int64) :=
  if a = 0 ∨ b = 0 then some (some 0)
  else do
    let back ← exactDiv (a * b) b
    if back ≠ a then some none else (exactMul a b).map some

def exactCheckedAdd (a b : Int64) : Option (Option Int64) :=
  if a + b < a then some none else (exactAdd a b).map some

def exactComputeAdded (elapsedMS refillTokens intervalMS remainder : Int64) :
    Option (Option (Int64 × Int64)) := do
  match ← exactCheckedMul elapsedMS refillTokens with
  | none => some none
  | some step1 =>
      match ← exactCheckedMul step1 milliPerToken with
      | none => some none
      | some step2 =>
          match ← exactCheckedAdd step2 remainder with
          | none => some none
          | some numerator =>
              let added ← exactDiv numerator intervalMS
              let rem ← exactMod numerator intervalMS
              some (some (added, rem))

def exactRefillBucket (b : TokenBucketState)
    (capacityTokens refillTokens intervalMS nowMS : Int64) : Option TokenBucketState := do
  let capMilli ← exactMul capacityTokens milliPerToken
  let effective := if nowMS > b.lastRefillMS then nowMS else b.lastRefillMS
  let elapsed ← exactSub effective b.lastRefillMS
  match ← exactComputeAdded elapsed refillTokens intervalMS b.refillRemainder with
  | none => some { b with tokensMilli := capMilli, refillRemainder := 0, lastRefillMS := effective }
  | some (added, rem) =>
      match ← exactCheckedAdd b.tokensMilli added with
      | none =>
          some { b with tokensMilli := capMilli, refillRemainder := 0, lastRefillMS := effective }
      | some newTokens =>
          if newTokens ≥ capMilli then
            some { b with tokensMilli := capMilli, refillRemainder := 0, lastRefillMS := effective }
          else
            some { b with
              tokensMilli := newTokens, refillRemainder := rem, lastRefillMS := effective }

def exactSpend (b : TokenBucketState) (cost refillTokens intervalMS : Int64) :
    Option (TokenBucketState × Bool × Int64) := do
  let costMilli ← exactMul cost milliPerToken
  if b.tokensMilli ≥ costMilli then
    let left ← exactSub b.tokensMilli costMilli
    some ({ b with tokensMilli := left }, true, 0)
  else
    let needed ← exactSub costMilli b.tokensMilli
    let rate ← exactMul refillTokens milliPerToken
    match ← exactCheckedMul needed intervalMS with
    | none => some (b, false, intervalMS)
    | some num =>
        let above ← exactAdd num rate
        let below ← exactSub above 1
        let retry ← exactDiv below rate
        some (b, false, if retry ≤ 0 then 1 else retry)

def exactConvertBucket (old : Policy) (p : UpdatePolicyPayload) (ts : Int64)
    (b : TokenBucketState) : Option TokenBucketState := do
  let refilled ←
    exactRefillBucket b old.capacityTokens old.refillTokens old.refillIntervalMS ts
  let newCapMilli ← exactMul p.capacityTokens milliPerToken
  some { refilled with
    tokensMilli := if refilled.tokensMilli > newCapMilli then newCapMilli else refilled.tokensMilli
    refillRemainder :=
      if old.refillIntervalMS ≠ p.refillIntervalMS then 0 else refilled.refillRemainder
    policyVersion := old.version + 1 }

end Twins

section Exactness

variable {a b : Int64}

theorem exactCheckedMul_eq (left : 0 ≤ a.toInt) (right : 0 ≤ b.toInt) :
    exactCheckedMul a b = some (checkedMul a b) := by
  unfold exactCheckedMul checkedMul
  split
  · rfl
  · rename_i nonzero
    have divisor : 0 < b.toInt := by
      rcases lt_or_eq_of_le right with positive | zero
      · exact positive
      · exact absurd (Or.inr (Int64.toInt_inj.mp zero.symm)) nonzero
    rw [exactDiv_pos divisor]
    rcases lt_or_ge (a.toInt * b.toInt) (2 ^ 63) with fits | wraps
    · have product := mul_nonneg left right
      have same := div_back_eq left divisor fits
      simp [same, exactMul_fits (by linarith) fits]
    · have different := div_back_ne left divisor wraps
      simp [different]

theorem exactCheckedAdd_eq (left : 0 ≤ a.toInt) (right : 0 ≤ b.toInt) :
    exactCheckedAdd a b = some (checkedAdd a b) := by
  unfold exactCheckedAdd checkedAdd
  rcases lt_or_ge (a.toInt + b.toInt) (2 ^ 63) with fits | wraps
  · have kept : ¬ a + b < a := by
      rw [add_lt_iff left right]
      linarith
    rw [if_neg kept, if_neg kept, exactAdd_fits (by linarith) fits]
    rfl
  · have wrapped := (add_lt_iff left right).mpr wraps
    rw [if_pos wrapped, if_pos wrapped]

theorem exactComputeAdded_eq {elapsed refill interval remainder : Int64} (time : 0 ≤ elapsed.toInt)
    (speed : 0 ≤ refill.toInt) (period : 0 < interval.toInt) (carried : 0 ≤ remainder.toInt) :
    exactComputeAdded elapsed refill interval remainder =
      some (computeAdded elapsed refill interval remainder) := by
  have product := mul_nonneg time speed
  have thousand : milliPerToken.toInt = 1000 := rfl
  unfold exactComputeAdded computeAdded
  rw [exactCheckedMul_eq time speed]
  rcases checkedMul_spec time speed with ⟨_, step1, first, value1⟩ | ⟨_, first⟩
  · have positive : 0 ≤ step1.toInt := by linarith
    have scale : 0 ≤ milliPerToken.toInt := by linarith
    simp only [first, Option.bind_eq_bind, Option.bind_some, exactCheckedMul_eq positive scale]
    rcases checkedMul_spec positive scale with ⟨_, step2, second, value2⟩ | ⟨_, second⟩
    · have grown : 0 ≤ step2.toInt := by
        rw [value2, thousand]
        linarith
      simp only [second, Option.bind_some, exactCheckedAdd_eq grown carried]
      rcases checkedAdd_spec grown carried with ⟨_, numerator, third, _⟩ | ⟨_, third⟩
      · simp only [third, exactDiv_pos period, exactMod_pos period, Option.bind_some]
      · simp only [third]
    · simp only [second]
  · simp only [first, Option.bind_eq_bind, Option.bind_some]

variable {bucket : TokenBucketState} {capacity refill interval maxCost now : Int64}

theorem exactMul_capacity (bounds : PolicyBounds capacity refill interval maxCost) :
    exactMul capacity milliPerToken = some (capacity * milliPerToken) := by
  have thousand : milliPerToken.toInt = 1000 := rfl
  have low := bounds.capacityLow
  have high := bounds.capacityHigh
  exact exactMul_fits (by rw [thousand]; linarith) (by rw [thousand]; linarith)

theorem exactRefillBucket_eq (bounds : PolicyBounds capacity refill interval maxCost)
    (valid : bucket.Valid) (time : Timestamp now) :
    exactRefillBucket bucket capacity refill interval now =
      some (refillBucket bucket capacity refill interval now) := by
  obtain ⟨balance, early, late⟩ := valid
  have tokens : 0 ≤ bucket.tokensMilli.toInt := balance.tokens
  have remainder : 0 ≤ bucket.refillRemainder.toInt := balance.remainder
  have period : 0 < interval.toInt := by linarith [bounds.intervalLow]
  have speed : 0 ≤ refill.toInt := by linarith [bounds.refillLow]
  have bottom := le_max_right now.toInt bucket.lastRefillMS.toInt
  have top : max now.toInt bucket.lastRefillMS.toInt ≤ 2 ^ 62 := max_le time.2 late
  have effective := effective_max bucket now
  unfold exactRefillBucket refillBucket
  simp only [exactMul_capacity bounds, Option.bind_eq_bind, Option.bind_some]
  generalize (if now > bucket.lastRefillMS then now else bucket.lastRefillMS) = last at effective ⊢
  have passed : (last - bucket.lastRefillMS).toInt = last.toInt - bucket.lastRefillMS.toInt :=
    toInt_sub_fits (by linarith) (by linarith)
  have elapsed : 0 ≤ (last - bucket.lastRefillMS).toInt := by linarith
  rw [exactSub_fits (by linarith) (by linarith), Option.bind_some,
    exactComputeAdded_eq elapsed speed period remainder, Option.bind_some]
  rcases computeAdded_spec _ refill interval bucket.refillRemainder elapsed speed period remainder
    with ⟨added, rem, found, value, _⟩ | ⟨_, found⟩
  · have gain : 0 ≤ added.toInt := by
      rw [value]
      have product := mul_nonneg elapsed speed
      exact Int.ediv_nonneg (by linarith) (le_of_lt period)
    simp only [found, exactCheckedAdd_eq tokens gain, Option.bind_some]
    cases checkedAdd bucket.tokensMilli added with
    | none => rfl
    | some newTokens =>
        simp only
        split <;> rfl
  · simp only [found]

theorem exactSpend_eq {cost : Int64} (bounds : PolicyBounds capacity refill interval maxCost)
    (tokens : 0 ≤ bucket.tokensMilli.toInt) (low : 0 ≤ cost.toInt)
    (high : cost.toInt ≤ maxCost.toInt) :
    exactSpend bucket cost refill interval = some (spend bucket cost refill interval) := by
  have thousand : milliPerToken.toInt = 1000 := rfl
  have most : cost.toInt ≤ 1000000 := by linarith [bounds.costHigh, bounds.capacityHigh]
  have below := bucket.tokensMilli.toInt_lt
  have price := toInt_milli low most
  have speed := toInt_milli (show 0 ≤ refill.toInt by linarith [bounds.refillLow]) bounds.refillHigh
  unfold exactSpend spend
  simp only [exactMul_fits (a := cost) (b := milliPerToken) (by rw [thousand]; linarith)
    (by rw [thousand]; linarith), Option.bind_eq_bind, Option.bind_some]
  by_cases enough : bucket.tokensMilli ≥ cost * milliPerToken
  · rw [if_pos enough, if_pos enough, exactSub_fits (by linarith) (by linarith)]
    rfl
  · rw [if_neg enough, if_neg enough]
    have short := enough
    rw [ge_iff_le, Int64.le_iff_toInt_le, price, not_le] at short
    have missing : (cost * milliPerToken - bucket.tokensMilli).toInt =
        cost.toInt * 1000 - bucket.tokensMilli.toInt := by
      rw [toInt_sub_fits (by linarith) (by linarith), price]
    have needed : 0 ≤ (cost * milliPerToken - bucket.tokensMilli).toInt := by linarith
    have period : 0 ≤ interval.toInt := by linarith [bounds.intervalLow]
    rw [exactSub_fits (by linarith) (by linarith),
      exactMul_fits (a := refill) (b := milliPerToken) (by rw [thousand]; linarith [bounds.refillLow])
        (by rw [thousand]; linarith [bounds.refillHigh])]
    simp only [Option.bind_some, exactCheckedMul_eq needed period]
    rcases checkedMul_spec needed period with ⟨_, num, found, value⟩ | ⟨_, found⟩
    · -- a deficit of at most a billion over at most a day leaves room for the rate
      have room : num.toInt ≤ 1000000000 * 86400000 := by
        rw [value]
        exact mul_le_mul (by linarith) bounds.intervalHigh period (by norm_num)
      have positive : 0 ≤ num.toInt := by
        rw [value]
        exact mul_nonneg needed period
      have rate : 0 < (refill * milliPerToken).toInt := by linarith [bounds.refillLow]
      have most : (refill * milliPerToken).toInt ≤ 1000000000 := by linarith [bounds.refillHigh]
      have sum : (num + refill * milliPerToken).toInt =
          num.toInt + (refill * milliPerToken).toInt :=
        toInt_add_fits (by linarith) (by linarith)
      have one : (1 : Int64).toInt = 1 := rfl
      simp only [found]
      rw [exactAdd_fits (by linarith) (by linarith), Option.bind_some,
        exactSub_fits (by linarith) (by linarith), Option.bind_some, exactDiv_pos rate]
      rfl
    · simp only [found]

theorem exactConvertBucket_eq {old : Policy} {p : UpdatePolicyPayload} {ts : Int64}
    (bounded : old.Bounded)
    (bounds : PolicyBounds p.capacityTokens p.refillTokens p.refillIntervalMS p.maxCostTokens)
    (valid : bucket.Valid) (time : Timestamp ts) :
    exactConvertBucket old p ts bucket = some (convertBucket old p ts bucket) := by
  unfold exactConvertBucket convertBucket
  rw [exactRefillBucket_eq bounded valid time, exactMul_capacity bounds]
  rfl

end Exactness

section Stored

/-- A stored balance against the current version of its policy. -/
structure Fits (policy : Policy) (b : TokenBucketState) : Prop where
  tokens : b.tokensMilli.toInt ≤ policy.capacityTokens.toInt * 1000
  remainder : b.refillRemainder.toInt < policy.refillIntervalMS.toInt
  version : b.policyVersion.toNat ≤ policy.version.toNat

/-- The numbers of a store whose last applied index is `last`. Each version of a
policy took a log index of its own. -/
structure Numbered (last : Nat) (app : AppState) : Prop where
  sound : Sound app
  versions : ∀ id policy, app.getPolicy id = some policy → policy.version.toNat ≤ last
  balances : ∀ key b policy, app.tokenBuckets.get key = some b →
    app.getPolicy b.policyID = some policy → Fits policy b

theorem numbered_migrated : Numbered 0 AppState.migrated := by
  refine ⟨sound_migrated, ?_, ?_⟩
  · rintro id policy ⟨⟩
  · rintro key b policy ⟨⟩

theorem next_version {version : UInt64} {last index : Nat} (bound : version.toNat ≤ last)
    (later : last < index) (fits : index < 2 ^ 64) :
    (version + 1).toNat = version.toNat + 1 := by
  rw [UInt64.toNat_add, UInt64.toNat_one]
  omega

theorem next_version_le {version : UInt64} {last index : Nat} (bound : version.toNat ≤ last)
    (later : last < index) (fits : index < 2 ^ 64) : (version + 1).toNat ≤ index := by
  rw [next_version bound later fits]
  omega

variable {lib : Stdlib} {ctx : ApplyContext} {cmd : Command} {app after : AppState}
  {result : Result} {last : Nat}

theorem converted_fits {b : TokenBucketState} {old : Policy} {p : UpdatePolicyPayload}
    {ts : Int64} (name : String) (bounded : old.Bounded)
    (bounds : PolicyBounds p.capacityTokens p.refillTokens p.refillIntervalMS p.maxCostTokens)
    (valid : b.Valid) : Fits (p.policy old name ts) (convertBucket old p ts b) := by
  -- An update leaves the buckets of its policy within the new version's numbers.
  have full := capacity_milli bounds
  refine ⟨?_, convertBucket_remainder bounded bounds valid.balance, Nat.le_refl _⟩
  simp only [convertBucket, UpdatePolicyPayload.policy]
  split
  · exact le_of_eq full
  · rename_i within
    rw [gt_iff_lt, Int64.not_lt, Int64.le_iff_toInt_le, full] at within
    exact within

theorem numbered_putPolicy (policy : Policy) {tokenBuckets : Bucket Bytes TokenBucketState}
    {audit : Bucket Nat AuditEvent} {index : Nat} (numbered : Numbered last app)
    (later : last ≤ index)
    (sound : Sound { app with
      policies := app.policies.put (bytesOf policy.id) policy, tokenBuckets, audit })
    (version : policy.version.toNat ≤ index)
    (own : ∀ key b, tokenBuckets.get key = some b → b.policyID = policy.id → Fits policy b)
    (others : ∀ key b, tokenBuckets.get key = some b → b.policyID ≠ policy.id →
      app.tokenBuckets.get key = some b) :
    Numbered index { app with
      policies := app.policies.put (bytesOf policy.id) policy, tokenBuckets, audit } := by
  have stored (id : String) : AppState.getPolicy { app with
      policies := app.policies.put (bytesOf policy.id) policy, tokenBuckets, audit } id =
      if id = policy.id then some policy else app.getPolicy id :=
    getPolicy_put app policy policy.id id
  refine ⟨sound, ?_, ?_⟩
  · intro id found looked
    rw [stored] at looked
    split at looked
    · cases looked
      exact version
    · exact Nat.le_trans (numbered.versions id found looked) later
  · intro key b found present looked
    rw [stored] at looked
    split at looked
    · rename_i same
      cases looked
      exact own key b present same
    · rename_i different
      exact numbered.balances key b found (others key b present different) looked

theorem settled_fits {p : DecidePayload} {policy : Policy} {bucket settled : TokenBucketState}
    {allowed : Bool} {retryAfter : Int64} (bounded : policy.Bounded) (valid : bucket.Valid)
    (low : 0 ≤ p.cost.toInt) (high : p.cost.toInt ≤ policy.maxCostTokens.toInt)
    (spent : settle ctx cmd p policy bucket = (settled, allowed, retryAfter)) :
    Fits policy settled := by
  obtain ⟨tokens, remainder⟩ := settle_within bounded valid.balance low high spent
  refine ⟨tokens, remainder, ?_⟩
  unfold settle at spent
  simp only [Prod.mk.injEq] at spent
  rw [← spent.1]

theorem numbered_effect (numbered : Numbered last app) (time : Timestamp cmd.timestampMS)
    (later : last < ctx.logIndex) (fits : ctx.logIndex < 2 ^ 64)
    (effect : Effect lib ctx cmd app result after) : Numbered ctx.logIndex after := by
  have sound := sound_effect numbered.sound time effect
  have bound (id : String) (policy : Policy) (found : app.getPolicy id = some policy) :
      policy.version.toNat ≤ ctx.logIndex :=
    Nat.le_trans (numbered.versions id policy found) (Nat.le_of_lt later)
  cases effect with
  | createdPolicy p name typed payload shape named bounds absent =>
      refine numbered_putPolicy (p.policy name cmd.timestampMS) numbered (Nat.le_of_lt later) sound
        ?_ ?_ fun _ _ present _ => present
      · exact Nat.succ_le_of_lt (Nat.lt_of_le_of_lt (Nat.zero_le _) later)
      · intro key b present same
        obtain ⟨_, ⟨policy, existing⟩, _⟩ := numbered.sound.buckets key b present
        rw [same] at existing
        cases absent.symm.trans existing
  | updatedPolicy p old name visited tokenBuckets typed payload found current named bounds walked
      written =>
      obtain ⟨own, bounded⟩ := sound_getPolicy numbered.sound found
      have inverted (key : Bytes) (b : TokenBucketState)
          (present : tokenBuckets.get key = some b) :=
        converted_inv (sound_ownKeys numbered.sound) walked written present
      refine numbered_putPolicy (p.policy old name cmd.timestampMS) numbered
        (Nat.le_of_lt later) sound (next_version_le (numbered.versions _ _ found) later fits) ?_ ?_
      · intro key b present same
        obtain ⟨before, held, ⟨_, rfl⟩ | ⟨other, rfl⟩⟩ := inverted key b present
        · obtain ⟨_, _, valid⟩ := numbered.sound.buckets key before held
          exact converted_fits name bounded bounds valid
        · exact absurd (same.trans own) other
      · intro key b present different
        obtain ⟨before, held, ⟨mine, rfl⟩ | ⟨_, rfl⟩⟩ := inverted key b present
        · rw [convertBucket_policyID] at different
          exact absurd (mine.trans own.symm) different
        · exact held
  | switchedPolicy p old typed payload found current =>
      obtain ⟨own, bounded⟩ := sound_getPolicy numbered.sound found
      have version := next_version (numbered.versions _ _ found) later fits
      refine numbered_putPolicy (p.policy old cmd.timestampMS) numbered (Nat.le_of_lt later) sound
        (next_version_le (numbered.versions _ _ found) later fits) ?_ fun _ _ present _ => present
      intro key b present same
      have looked : app.getPolicy b.policyID = some old := by
        rw [same, ← found, ← own]
        rfl
      obtain ⟨tokens, remainder, older⟩ := numbered.balances key b old present looked
      refine ⟨tokens, remainder, ?_⟩
      change b.policyVersion.toNat ≤ (old.version + 1).toNat
      rw [version]
      exact Nat.le_succ_of_le older
  | charged p policy bucket settled allowed retryAfter tokenBuckets idempotency typed payload shape
      fresh authorized loaded spent charged recorded =>
      obtain ⟨found, _, price, _⟩ := authorize_ok authorized
      obtain ⟨_, _, cost⟩ := validateDecisionInput_ok shape
      obtain ⟨same, bounded⟩ := sound_getPolicy numbered.sound found
      obtain ⟨owner, _, valid, _⟩ := loadOrInitBucket_ok numbered.sound bounded time loaded
      obtain ⟨kept, _⟩ := settle_owner spent
      obtain ⟨own, encoded, rfl⟩ := putPair_ok charged
      refine ⟨sound, bound, ?_⟩
      intro key b current present looked
      simp only [Bucket.get_put] at present
      split at present
      · cases present
        rw [kept, owner, same] at looked
        cases found.symm.trans looked
        exact settled_fits bounded valid (by linarith) price spent
      · exact numbered.balances key b current present looked
  | _ => exact ⟨sound, bound, numbered.balances⟩

theorem numbered_finish (state : Nat × AppState) (commands : List (ApplyContext × Command))
    (timed : ∀ command ∈ commands, Timestamp command.2.timestampMS)
    (logged : Logged state.1 commands) (numbered : Numbered state.1 state.2) :
    ∃ last, Numbered last (finish lib state commands).2 := by
  refine ⟨_, logged_keeps (fun _ state => Numbered state.1 state.2) state [] logged ?_ numbered⟩
  intro command member _ before result after later numbered ran
  obtain ⟨index, effect⟩ := apply_effect ran
  rw [index]
  exact numbered_effect numbered (timed command member) later (logged.fits command member) effect

end Stored

/-- The arithmetic of a decision on this store is exact, or reports that it is not. -/
def DecidesExactly (app : AppState) (ts : Int64) (p : DecidePayload) : Prop :=
  ∀ policy bucket, authorize app p = .ok policy →
    loadOrInitBucket app policy p.subject ts = .ok bucket →
    exactMul policy.capacityTokens milliPerToken = some (policy.capacityTokens * milliPerToken) ∧
      exactRefillBucket bucket policy.capacityTokens policy.refillTokens policy.refillIntervalMS ts =
        some (refillBucket bucket policy.capacityTokens policy.refillTokens policy.refillIntervalMS
          ts) ∧
      exactSpend (refillBucket bucket policy.capacityTokens policy.refillTokens
          policy.refillIntervalMS ts) p.cost policy.refillTokens policy.refillIntervalMS =
        some (spend (refillBucket bucket policy.capacityTokens policy.refillTokens
          policy.refillIntervalMS ts) p.cost policy.refillTokens policy.refillIntervalMS)

/-- And that of an update, on every bucket of its policy. -/
def UpdatesExactly (app : AppState) (ts : Int64) (p : UpdatePolicyPayload) : Prop :=
  exactMul p.capacityTokens milliPerToken = some (p.capacityTokens * milliPerToken) ∧
    ∀ old key b, app.getPolicy p.id = some old → app.tokenBuckets.get key = some b →
      b.policyID = p.id → exactConvertBucket old p ts b = some (convertBucket old p ts b)

theorem decides_exactly {app : AppState} {ts : Int64} {p : DecidePayload} (sound : Sound app)
    (time : Timestamp ts)
    (shape : validateDecisionInput p.policyID p.subject p.requestID p.cost = .ok ()) :
    DecidesExactly app ts p := by
  intro policy bucket authorized loaded
  obtain ⟨found, _, price, _⟩ := authorize_ok authorized
  obtain ⟨_, _, cost⟩ := validateDecisionInput_ok shape
  obtain ⟨_, bounded⟩ := sound_getPolicy sound found
  obtain ⟨_, _, valid, _⟩ := loadOrInitBucket_ok sound bounded time loaded
  have refilled := refillBucket_valid bounded valid time
  exact ⟨exactMul_capacity bounded, exactRefillBucket_eq bounded valid time,
    exactSpend_eq bounded refilled.tokens_nonneg (by linarith) price⟩

theorem updates_exactly {app : AppState} {ts : Int64} {p : UpdatePolicyPayload} (sound : Sound app)
    (time : Timestamp ts)
    (accepted : validatePolicyFields p.capacityTokens p.refillTokens p.refillIntervalMS
      p.maxCostTokens = .ok ()) : UpdatesExactly app ts p := by
  have bounds := validatePolicyFields_ok accepted
  refine ⟨exactMul_capacity bounds, ?_⟩
  intro old key b found stored _
  obtain ⟨_, bounded⟩ := sound_getPolicy sound found
  obtain ⟨_, _, valid⟩ := sound.buckets key b stored
  exact exactConvertBucket_eq bounded bounds valid time

/-- In every store that commands with sane timestamps can reach, policies are within
the bounds of their validation and buckets within the numbers of their policy's
current version, and no arithmetic on it goes wrong unnoticed. -/
theorem stored_numbers_bounded (lib : Stdlib) (commands : List (ApplyContext × Command))
    (timed : ∀ command ∈ commands, Timestamp command.2.timestampMS) (logged : Logged 0 commands)
    (app : AppState) (reached : (finish lib (0, AppState.migrated) commands).2 = app) :
    (∀ key policy, app.policies.get key = some policy → key = bytesOf policy.id ∧
      validatePolicyFields policy.capacityTokens policy.refillTokens policy.refillIntervalMS
        policy.maxCostTokens = .ok ()) ∧
    (∀ key b, app.tokenBuckets.get key = some b →
      compositeKey [bytesOf b.policyID, bytesOf b.subject] = .ok key ∧
        ∃ policy, app.getPolicy b.policyID = some policy ∧
          0 ≤ b.tokensMilli.toInt ∧ b.tokensMilli.toInt ≤ 1000 * policy.capacityTokens.toInt ∧
          0 ≤ b.refillRemainder.toInt ∧ b.refillRemainder.toInt < policy.refillIntervalMS.toInt ∧
          b.policyVersion ≤ policy.version) ∧
    ∀ ts, Timestamp ts →
      (∀ p : DecidePayload, validateDecisionInput p.policyID p.subject p.requestID p.cost = .ok () →
        DecidesExactly app ts p) ∧
      ∀ p : UpdatePolicyPayload, validatePolicyFields p.capacityTokens p.refillTokens
        p.refillIntervalMS p.maxCostTokens = .ok () → UpdatesExactly app ts p := by
  subst reached
  obtain ⟨last, sound, _, balances⟩ :
      ∃ last, Numbered last (finish lib (0, AppState.migrated) commands).2 :=
    numbered_finish _ commands timed logged numbered_migrated
  refine ⟨?_, ?_, ?_⟩
  · intro key policy stored
    obtain ⟨own, bounded⟩ := sound.policies key policy stored
    exact ⟨own, validatePolicyFields_of_bounds bounded⟩
  · intro key b stored
    obtain ⟨own, ⟨policy, found⟩, valid⟩ := sound.buckets key b stored
    obtain ⟨tokens, remainder, version⟩ := balances key b policy stored found
    refine ⟨own, policy, found, valid.balance.tokens, ?_, valid.balance.remainder, remainder, ?_⟩
    · linarith
    · exact UInt64.le_iff_toNat_le.mpr version
  · intro ts time
    exact ⟨fun p shape => decides_exactly sound time shape,
      fun p accepted => updates_exactly sound time accepted⟩

def updatedRun : List (ApplyContext × Command) :=
  sampleCommands 1 [[0, 0, 10, 3], [3, 0], [5, 1, 1, 4], [1, 2, 5, 1, 1], [5, 3, 2, 1]]

theorem updatedRun_logged : Logged 0 updatedRun := by
  constructor <;> decide +kernel

theorem stored_numbers_bounded_sample : ∃ key b policy,
    (finish sampleLib (0, AppState.migrated) updatedRun).2.tokenBuckets.get key = some b ∧
      b.tokensMilli = 4000 ∧
      (finish sampleLib (0, AppState.migrated) updatedRun).2.getPolicy b.policyID = some policy ∧
      b.tokensMilli.toInt ≤ 1000 * policy.capacityTokens.toInt ∧
      b.refillRemainder.toInt < policy.refillIntervalMS.toInt := by
  have read : ((finish sampleLib (0, AppState.migrated) updatedRun).2.tokenBucket "orders"
      "alice").map (·.tokensMilli) = some 4000 := by decide +kernel
  obtain ⟨b, found, tokens⟩ := Option.map_eq_some_iff.mp read
  obtain ⟨key, _, stored⟩ := lookupPair_eq_some_iff.mp found
  obtain ⟨_, policy, owner, _, most, _, below, _⟩ := (stored_numbers_bounded sampleLib updatedRun
    (by decide +kernel) updatedRun_logged _ rfl).2.1 key b stored
  exact ⟨key, b, policy, stored, tokens, owner, most, below⟩

end QuorumLimiter.Limiter
