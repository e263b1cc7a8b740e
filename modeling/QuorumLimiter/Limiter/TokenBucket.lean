import QuorumLimiter.Lib.Fixed64
import QuorumLimiter.Limiter.Validation

/-!
The token bucket in wrapping 64-bit arithmetic, and what it computes: within the
bounds that validation keeps, a refill is the exact one over the integers, and
the overflow branches are taken only where the exact balance is full too.
-/

namespace QuorumLimiter.Limiter

open Fixed64

def milliPerToken : Int64 := 1000

def checkedMul (a b : Int64) : Option Int64 :=
  if a = 0 ∨ b = 0 then some 0
  else if (a * b) / b ≠ a then none
  else some (a * b)

def checkedAdd (a b : Int64) : Option Int64 := if a + b < a then none else some (a + b)

/-- The milli-tokens to add and the new remainder, or `none` on overflow. -/
def computeAdded (elapsedMS refillTokens intervalMS remainder : Int64) : Option (Int64 × Int64) :=
  match checkedMul elapsedMS refillTokens with
  | none => none
  | some step1 =>
      match checkedMul step1 milliPerToken with
      | none => none
      | some step2 =>
          match checkedAdd step2 remainder with
          | none => none
          | some numerator => some (numerator / intervalMS, numerator % intervalMS)

def refillBucket (b : TokenBucketState) (capacityTokens refillTokens intervalMS nowMS : Int64) :
    TokenBucketState :=
  let capMilli := capacityTokens * milliPerToken
  let effective := if nowMS > b.lastRefillMS then nowMS else b.lastRefillMS
  let elapsed := effective - b.lastRefillMS
  match computeAdded elapsed refillTokens intervalMS b.refillRemainder with
  | none => { b with tokensMilli := capMilli, refillRemainder := 0, lastRefillMS := effective }
  | some (added, rem) =>
      match checkedAdd b.tokensMilli added with
      | none => { b with tokensMilli := capMilli, refillRemainder := 0, lastRefillMS := effective }
      | some newTokens =>
          if newTokens ≥ capMilli then
            { b with tokensMilli := capMilli, refillRemainder := 0, lastRefillMS := effective }
          else
            { b with tokensMilli := newTokens, refillRemainder := rem, lastRefillMS := effective }

/-- The bucket after the attempt, whether it was allowed, and the retry estimate. -/
def spend (b : TokenBucketState) (cost refillTokens intervalMS : Int64) :
    TokenBucketState × Bool × Int64 :=
  let costMilli := cost * milliPerToken
  if b.tokensMilli ≥ costMilli then
    ({ b with tokensMilli := b.tokensMilli - costMilli }, true, 0)
  else
    let needed := costMilli - b.tokensMilli
    let rate := refillTokens * milliPerToken
    match checkedMul needed intervalMS with
    | none => (b, false, intervalMS)
    | some num =>
        let retry := (num + rate - 1) / rate
        (b, false, if retry ≤ 0 then 1 else retry)

section Checked

variable {a b : Int64}

theorem checkedMul_spec (left : 0 ≤ a.toInt) (right : 0 ≤ b.toInt) :
    (a.toInt * b.toInt < 2 ^ 63 ∧
        ∃ product, checkedMul a b = some product ∧ product.toInt = a.toInt * b.toInt) ∨
      (2 ^ 63 ≤ a.toInt * b.toInt ∧ checkedMul a b = none) := by
  unfold checkedMul
  split
  · rename_i zero
    have product : a.toInt * b.toInt = 0 := by
      rcases zero with rfl | rfl <;> simp
    rw [product]
    exact Or.inl ⟨by norm_num, 0, rfl, rfl⟩
  · rename_i nonzero
    have divisor : 0 < b.toInt := by
      rcases lt_or_eq_of_le right with positive | zero
      · exact positive
      · exact absurd (Or.inr (Int64.toInt_inj.mp zero.symm)) nonzero
    rcases lt_or_ge (a.toInt * b.toInt) (2 ^ 63) with fits | wraps
    · rw [if_neg (not_not.mpr (div_back_eq left divisor fits))]
      have product := mul_nonneg left right
      exact Or.inl ⟨fits, _, rfl, toInt_mul_fits (by linarith) fits⟩
    · rw [if_pos (div_back_ne left divisor wraps)]
      exact Or.inr ⟨wraps, rfl⟩

theorem checkedAdd_spec (left : 0 ≤ a.toInt) (right : 0 ≤ b.toInt) :
    (a.toInt + b.toInt < 2 ^ 63 ∧
        ∃ sum, checkedAdd a b = some sum ∧ sum.toInt = a.toInt + b.toInt) ∨
      (2 ^ 63 ≤ a.toInt + b.toInt ∧ checkedAdd a b = none) := by
  unfold checkedAdd
  rcases lt_or_ge (a.toInt + b.toInt) (2 ^ 63) with fits | wraps
  · rw [if_neg (by rw [add_lt_iff left right]; linarith)]
    exact Or.inl ⟨fits, _, rfl, toInt_add_fits (by linarith) fits⟩
  · rw [if_pos ((add_lt_iff left right).mpr wraps)]
    exact Or.inr ⟨wraps, rfl⟩

end Checked

/-- A balance over the integers: milli-tokens, the remainder of the last division,
and the time it was computed for. -/
structure Balance where
  tokens : Int
  remainder : Int
  last : Int

namespace Balance

/-- What the time up to `now` is worth, in milli-tokens times the interval. -/
def numerator (balance : Balance) (rate now : Int) : Int :=
  (max now balance.last - balance.last) * rate * 1000 + balance.remainder

def refill (balance : Balance) (capacity rate interval now : Int) : Balance :=
  if capacity * 1000 ≤ balance.tokens + balance.numerator rate now / interval then
    ⟨capacity * 1000, 0, max now balance.last⟩
  else
    ⟨balance.tokens + balance.numerator rate now / interval,
      balance.numerator rate now % interval, max now balance.last⟩

structure Valid (balance : Balance) : Prop where
  tokens : 0 ≤ balance.tokens
  remainder : 0 ≤ balance.remainder
  last : 0 ≤ balance.last

variable {balance : Balance} {capacity rate interval now : Int}

theorem refill_full
    (full : capacity * 1000 ≤ balance.tokens + balance.numerator rate now / interval) :
    balance.refill capacity rate interval now =
      ⟨capacity * 1000, 0, max now balance.last⟩ := if_pos full

theorem refill_part
    (part : balance.tokens + balance.numerator rate now / interval < capacity * 1000) :
    balance.refill capacity rate interval now =
      ⟨balance.tokens + balance.numerator rate now / interval,
        balance.numerator rate now % interval, max now balance.last⟩ := if_neg (not_le.mpr part)

theorem refill_last (balance : Balance) (capacity rate interval now : Int) :
    (balance.refill capacity rate interval now).last = max now balance.last := by
  unfold refill
  split <;> rfl

theorem numerator_nonneg (now : Int) (valid : balance.Valid) (speed : 0 ≤ rate) :
    0 ≤ balance.numerator rate now := by
  have elapsed : 0 ≤ max now balance.last - balance.last := by
    linarith [le_max_right now balance.last]
  have product := mul_nonneg elapsed speed
  unfold numerator
  linarith [valid.remainder]

theorem refill_valid (valid : balance.Valid) (full : 0 ≤ capacity) (speed : 0 ≤ rate)
    (period : 0 < interval) : (balance.refill capacity rate interval now).Valid := by
  have credit := numerator_nonneg now valid speed
  have last : 0 ≤ max now balance.last := le_trans valid.last (le_max_right _ _)
  unfold refill
  split
  · exact ⟨by linarith, le_refl 0, last⟩
  · exact ⟨add_nonneg valid.tokens (Int.ediv_nonneg credit (le_of_lt period)),
      Int.emod_nonneg _ (ne_of_gt period), last⟩

theorem refill_within (balance : Balance) (capacity rate now : Int) (period : 0 < interval) :
    (balance.refill capacity rate interval now).tokens ≤ capacity * 1000 ∧
      (balance.refill capacity rate interval now).remainder < interval := by
  unfold refill
  split
  · exact ⟨le_refl _, period⟩
  · rename_i part
    exact ⟨le_of_lt (not_le.mp part), Int.emod_lt_of_pos _ period⟩

theorem refill_credit (balance : Balance) (capacity rate now : Int) (period : 0 < interval) :
    (balance.refill capacity rate interval now).tokens * interval +
        (balance.refill capacity rate interval now).remainder ≤
      balance.tokens * interval + balance.remainder +
        1000 * rate * ((balance.refill capacity rate interval now).last - balance.last) := by
  -- A refill credits no more than the time that passed is worth.
  have whole := Int.emod_add_mul_ediv (balance.numerator rate now) interval
  have part := Int.emod_nonneg (balance.numerator rate now) (ne_of_gt period)
  have worth : balance.numerator rate now =
      (max now balance.last - balance.last) * rate * 1000 + balance.remainder := rfl
  rw [refill_last]
  unfold refill
  split
  · rename_i full
    have scaled := mul_le_mul_of_nonneg_right full (le_of_lt period)
    simp only
    linarith
  · simp only
    linarith

end Balance

def TokenBucketState.balance (b : TokenBucketState) : Balance :=
  ⟨b.tokensMilli.toInt, b.refillRemainder.toInt, b.lastRefillMS.toInt⟩

section Exact

variable {b : TokenBucketState} {capacity refill interval maxCost now : Int64}

theorem computeAdded_spec (elapsed refill interval remainder : Int64) (time : 0 ≤ elapsed.toInt)
    (speed : 0 ≤ refill.toInt) (period : 0 < interval.toInt) (carried : 0 ≤ remainder.toInt) :
    (∃ added rem, computeAdded elapsed refill interval remainder = some (added, rem) ∧
        added.toInt =
          (elapsed.toInt * refill.toInt * 1000 + remainder.toInt) / interval.toInt ∧
        rem.toInt = (elapsed.toInt * refill.toInt * 1000 + remainder.toInt) % interval.toInt) ∨
      (2 ^ 63 ≤ elapsed.toInt * refill.toInt * 1000 + remainder.toInt ∧
        computeAdded elapsed refill interval remainder = none) := by
  have thousand : milliPerToken.toInt = 1000 := rfl
  have product := mul_nonneg time speed
  unfold computeAdded
  rcases checkedMul_spec time speed with ⟨_, step1, first, value1⟩ | ⟨wraps, first⟩
  · rw [first]
    simp only
    rcases checkedMul_spec (a := step1) (b := milliPerToken) (by linarith) (by linarith) with
      ⟨_, step2, second, value2⟩ | ⟨wraps, second⟩
    · rw [second]
      simp only
      rw [value1, thousand] at value2
      rcases checkedAdd_spec (a := step2) (b := remainder) (by linarith) carried with
        ⟨_, numerator, third, value3⟩ | ⟨wraps, third⟩
      · rw [third]
        rw [value2] at value3
        refine Or.inl ⟨_, _, rfl, ?_, ?_⟩
        · rw [toInt_div_nonneg (by linarith) period, value3]
        · rw [toInt_mod_nonneg (by linarith), value3]
      · rw [third]
        exact Or.inr ⟨by linarith, rfl⟩
    · rw [second]
      rw [value1, thousand] at wraps
      exact Or.inr ⟨by linarith, rfl⟩
  · rw [first]
    exact Or.inr ⟨by linarith, rfl⟩

/-- A clock reading far enough from the end of `int64`. -/
def Timestamp (ms : Int64) : Prop := 0 ≤ ms.toInt ∧ ms.toInt ≤ 2 ^ 62

instance (ms : Int64) : Decidable (Timestamp ms) := inferInstanceAs (Decidable (_ ∧ _))

/-- A stored balance that refills are exact on. -/
structure TokenBucketState.Valid (b : TokenBucketState) : Prop where
  balance : b.balance.Valid
  last : Timestamp b.lastRefillMS

theorem TokenBucketState.Valid.tokens_nonneg {b : TokenBucketState} (valid : b.Valid) :
    0 ≤ b.tokensMilli.toInt := valid.balance.tokens

theorem refillBucket_last (b : TokenBucketState) (capacity refill interval now : Int64) :
    (refillBucket b capacity refill interval now).lastRefillMS =
      if now > b.lastRefillMS then now else b.lastRefillMS := by
  unfold refillBucket
  simp only
  split
  · rfl
  · split
    · rfl
    · split <;> rfl

theorem refillBucket_frame (b : TokenBucketState) (capacity refill interval now : Int64) :
    refillBucket b capacity refill interval now =
      { b with
        tokensMilli := (refillBucket b capacity refill interval now).tokensMilli
        refillRemainder := (refillBucket b capacity refill interval now).refillRemainder
        lastRefillMS := (refillBucket b capacity refill interval now).lastRefillMS } := by
  unfold refillBucket
  simp only
  split
  · rfl
  · split
    · rfl
    · split <;> rfl

theorem overflow_full (bounds : PolicyBounds capacity refill interval maxCost) {numerator : Int}
    (wraps : 2 ^ 63 ≤ numerator) : capacity.toInt * 1000 ≤ numerator / interval.toInt := by
  -- A numerator that does not fit is worth more than any capacity.
  have period := bounds.intervalLow
  have positive : 0 < interval.toInt := by linarith
  rw [Int.le_ediv_iff_mul_le positive]
  have milli : capacity.toInt * 1000 ≤ 1000000000 := by linarith [bounds.capacityHigh]
  have scaled := mul_le_mul milli bounds.intervalHigh (le_of_lt positive) (by norm_num)
  linarith

theorem effective_max (b : TokenBucketState) (now : Int64) :
    (if now > b.lastRefillMS then now else b.lastRefillMS).toInt =
      max now.toInt b.lastRefillMS.toInt := by
  split
  · rename_i later
    rw [gt_iff_lt, Int64.lt_iff_toInt_lt] at later
    rw [max_eq_left (le_of_lt later)]
  · rename_i earlier
    rw [gt_iff_lt, Int64.not_lt, Int64.le_iff_toInt_le] at earlier
    rw [max_eq_right earlier]

theorem toInt_milli {amount : Int64} (low : 0 ≤ amount.toInt) (high : amount.toInt ≤ 1000000) :
    (amount * milliPerToken).toInt = amount.toInt * 1000 := by
  apply toInt_mul_fits
  · change _ ≤ amount.toInt * 1000
    omega
  · change amount.toInt * 1000 < _
    omega

theorem capacity_milli (bounds : PolicyBounds capacity refill interval maxCost) :
    (capacity * milliPerToken).toInt = capacity.toInt * 1000 :=
  toInt_milli (by linarith [bounds.capacityLow]) bounds.capacityHigh

def elapsedMS (b : TokenBucketState) (now : Int64) : Int64 :=
  (if now > b.lastRefillMS then now else b.lastRefillMS) - b.lastRefillMS

theorem elapsed_worth (valid : b.balance.Valid) (refill now : Int64) :
    0 ≤ (elapsedMS b now).toInt ∧
      (elapsedMS b now).toInt * refill.toInt * 1000 + b.refillRemainder.toInt =
        b.balance.numerator refill.toInt now.toInt := by
  have early : 0 ≤ b.lastRefillMS.toInt := valid.last
  have effective := effective_max b now
  have bottom := le_max_right now.toInt b.lastRefillMS.toInt
  have top : max now.toInt b.lastRefillMS.toInt < 2 ^ 63 :=
    max_lt now.toInt_lt b.lastRefillMS.toInt_lt
  have elapsed : (elapsedMS b now).toInt =
      max now.toInt b.lastRefillMS.toInt - b.lastRefillMS.toInt := by
    rw [elapsedMS, toInt_sub_fits (by linarith) (by linarith), effective]
  rw [elapsed]
  exact ⟨by linarith, rfl⟩

/-- A refill at the time takes one of the branches that an overflow leads to. -/
def overflows (b : TokenBucketState) (refill interval now : Int64) : Prop :=
  match computeAdded (elapsedMS b now) refill interval b.refillRemainder with
  | none => True
  | some (added, _) => checkedAdd b.tokensMilli added = none

theorem refill_fits (bounds : PolicyBounds capacity refill interval maxCost)
    (valid : b.balance.Valid) (now : Int64) :
    (∃ added rem sum, computeAdded (elapsedMS b now) refill interval b.refillRemainder =
        some (added, rem) ∧ checkedAdd b.tokensMilli added = some sum ∧
        rem.toInt = b.balance.numerator refill.toInt now.toInt % interval.toInt ∧
        sum.toInt = b.balance.tokens + b.balance.numerator refill.toInt now.toInt / interval.toInt) ∨
      overflows b refill interval now ∧ capacity.toInt * 1000 ≤
        b.balance.tokens + b.balance.numerator refill.toInt now.toInt / interval.toInt := by
  -- either every step of a refill fits, or the exact balance is full
  have tokens : 0 ≤ b.tokensMilli.toInt := valid.tokens
  have speed : 0 ≤ refill.toInt := by linarith [bounds.refillLow]
  have period : 0 < interval.toInt := by linarith [bounds.intervalLow]
  obtain ⟨time, worth⟩ := elapsed_worth valid refill now
  rcases computeAdded_spec (elapsedMS b now) refill interval b.refillRemainder time speed period
    valid.remainder with ⟨added, rem, found, value, rest⟩ | ⟨wraps, found⟩
  · rw [worth] at value rest
    have gain : 0 ≤ added.toInt := by
      rw [value]
      exact Int.ediv_nonneg (Balance.numerator_nonneg _ valid speed) (le_of_lt period)
    rcases checkedAdd_spec tokens gain with ⟨_, sum, fits, total⟩ | ⟨wraps, overflow⟩
    · rw [value] at total
      exact Or.inl ⟨added, rem, sum, found, fits, rest, total⟩
    · rw [value] at wraps
      refine Or.inr ⟨?_, le_trans (by linarith [bounds.capacityHigh]) wraps⟩
      simp only [overflows, found, overflow]
  · rw [worth] at wraps
    refine Or.inr ⟨by simp only [overflows, found], ?_⟩
    change _ ≤ b.tokensMilli.toInt + _
    linarith [overflow_full bounds wraps]

theorem refillBucket_overflow (overflow : overflows b refill interval now) :
    refillBucket b capacity refill interval now =
      { b with
        tokensMilli := capacity * milliPerToken
        refillRemainder := 0
        lastRefillMS := if now > b.lastRefillMS then now else b.lastRefillMS } := by
  unfold overflows elapsedMS at overflow
  unfold refillBucket
  simp only
  split at overflow
  · rfl
  · simp only [overflow]

/-- The wrapping refill computes the exact one, whatever the clock says. -/
theorem refillBucket_balance (bounds : PolicyBounds capacity refill interval maxCost)
    (balance : b.balance.Valid) (now : Int64) :
    (refillBucket b capacity refill interval now).balance =
      b.balance.refill capacity.toInt refill.toInt interval.toInt now.toInt := by
  have full := capacity_milli bounds
  have effective := effective_max b now
  rcases refill_fits bounds balance now with ⟨added, rem, sum, found, fits, rest, total⟩ |
    ⟨overflow, above⟩
  · unfold elapsedMS at found
    by_cases above : sum ≥ capacity * milliPerToken
    · rw [Balance.refill_full (by
        rw [ge_iff_le, Int64.le_iff_toInt_le, full, total] at above
        exact above)]
      simp only [refillBucket, found, fits, if_pos above, TokenBucketState.balance, full, effective]
      rfl
    · rw [Balance.refill_part (by
        rw [ge_iff_le, Int64.le_iff_toInt_le, full, total, not_le] at above
        exact above)]
      simp only [refillBucket, found, fits, if_neg above, TokenBucketState.balance, total, rest,
        effective]
  · rw [refillBucket_overflow overflow, Balance.refill_full above]
    simp only [TokenBucketState.balance, full, effective]
    rfl

theorem refillBucket_nonneg (bounds : PolicyBounds capacity refill interval maxCost)
    (valid : b.balance.Valid) (now : Int64) :
    (refillBucket b capacity refill interval now).balance.Valid := by
  rw [refillBucket_balance bounds valid]
  exact Balance.refill_valid valid (by linarith [bounds.capacityLow])
    (by linarith [bounds.refillLow]) (by linarith [bounds.intervalLow])

theorem refillBucket_within (bounds : PolicyBounds capacity refill interval maxCost)
    (valid : b.balance.Valid) (now : Int64) :
    (refillBucket b capacity refill interval now).tokensMilli.toInt ≤ capacity.toInt * 1000 ∧
      (refillBucket b capacity refill interval now).refillRemainder.toInt < interval.toInt := by
  have within := Balance.refill_within b.balance capacity.toInt refill.toInt now.toInt
    (show 0 < interval.toInt by linarith [bounds.intervalLow])
  rw [← refillBucket_balance bounds valid] at within
  exact within

theorem refillBucket_valid (bounds : PolicyBounds capacity refill interval maxCost)
    (valid : b.Valid) (time : Timestamp now) :
    (refillBucket b capacity refill interval now).Valid := by
  refine ⟨refillBucket_nonneg bounds valid.balance now, ?_⟩
  rw [refillBucket_last]
  split
  · exact time
  · exact valid.last

theorem spend_spec (b : TokenBucketState) (cost refill interval : Int64)
    (tokens : 0 ≤ b.tokensMilli.toInt) (low : 0 ≤ cost.toInt) (high : cost.toInt ≤ 1000000) :
    ((spend b cost refill interval).2.1 = true ∧ cost.toInt * 1000 ≤ b.tokensMilli.toInt ∧
        ∃ left, left.toInt = b.tokensMilli.toInt - cost.toInt * 1000 ∧
          (spend b cost refill interval).1 = { b with tokensMilli := left }) ∨
      ((spend b cost refill interval).2.1 = false ∧ b.tokensMilli.toInt < cost.toInt * 1000 ∧
        (spend b cost refill interval).1 = b) := by
  have price := toInt_milli low high
  have bound := b.tokensMilli.toInt_lt
  unfold spend
  simp only
  split
  · rename_i enough
    rw [ge_iff_le, Int64.le_iff_toInt_le, price] at enough
    refine Or.inl ⟨rfl, enough, _, ?_, rfl⟩
    rw [toInt_sub_fits (by linarith) (by linarith), price]
  · rename_i short
    rw [ge_iff_le, Int64.le_iff_toInt_le, price, not_le] at short
    right
    split <;> exact ⟨rfl, short, rfl⟩

end Exact

end QuorumLimiter.Limiter
