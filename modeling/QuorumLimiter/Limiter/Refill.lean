import Mathlib.Order.Bounds.Basic
import QuorumLimiter.Lib.Accrual
import QuorumLimiter.Limiter.Invariants

/-!
Refilling over time. Scaled by the interval, tokens and remainder are one number that
rises with time up to the capacity, so it does not matter how often a bucket is refilled,
and the wait of a denied request is a quotient rounded up.
-/

namespace QuorumLimiter.Limiter

open Accrual Fixed64

namespace Balance

/-- Tokens and remainder in one number: milli-tokens times the interval. -/
def meter (balance : Balance) (interval : Int) : Meter Int :=
  ⟨balance.tokens * interval + balance.remainder, balance.last⟩

def ofMeter (interval : Int) (meter : Meter Int) : Balance :=
  ⟨meter.level / interval, meter.level % interval, meter.last⟩

variable {balance : Balance} {capacity rate interval now : Int}

@[simp] theorem meter_ofMeter (interval : Int) (meter : Meter Int) :
    (ofMeter interval meter).meter interval = meter := by
  simp only [ofMeter, Balance.meter, Int.mul_comm (meter.level / interval),
    Int.mul_ediv_add_emod]

theorem refill_eq (balance : Balance) (capacity rate now : Int) (period : 0 < interval) :
    balance.refill capacity rate interval now =
      ofMeter interval ((balance.meter interval).advance (capacity * 1000 * interval) (rate * 1000)
        now) := by
  have level : balance.tokens * interval + balance.remainder +
      rate * 1000 * (max now balance.last - balance.last) =
        balance.numerator rate now + interval * balance.tokens := by
    rw [numerator]
    ring
  have quotient : (balance.numerator rate now + interval * balance.tokens) / interval =
      balance.tokens + balance.numerator rate now / interval := by
    rw [Int.add_mul_ediv_left _ _ (ne_of_gt period), add_comm]
  simp only [ofMeter, Meter.advance, meter, level]
  rcases le_or_gt (capacity * 1000) (balance.tokens + balance.numerator rate now / interval) with
    full | part
  · have above : capacity * 1000 * interval ≤
        balance.numerator rate now + interval * balance.tokens := by
      rw [← Int.le_ediv_iff_mul_le period, quotient]
      exact full
    rw [refill_full full, min_eq_left above, Int.mul_ediv_cancel _ (ne_of_gt period),
      Int.mul_emod_left]
  · have below : balance.numerator rate now + interval * balance.tokens ≤
        capacity * 1000 * interval := by
      apply le_of_lt
      rw [← Int.ediv_lt_iff_lt_mul period, quotient]
      exact part
    rw [refill_part part, min_eq_right below, quotient, Int.add_mul_emod_self_left]

theorem refill_refill (balance : Balance) (capacity first second : Int) (speed : 0 ≤ rate)
    (period : 0 < interval) :
    (balance.refill capacity rate interval first).refill capacity rate interval second =
      balance.refill capacity rate interval (max first second) := by
  have scaled : 0 ≤ rate * 1000 := by omega
  rw [refill_eq _ _ _ _ period, refill_eq _ _ _ _ period, refill_eq _ _ _ _ period, meter_ofMeter,
    Meter.advance_advance scaled]

theorem covered_iff (balance : Balance) (rate now : Int) {cost : Int} (period : 0 < interval)
    (within : cost ≤ capacity) :
    cost * 1000 ≤ (balance.refill capacity rate interval now).tokens ↔
      (cost * 1000 - balance.tokens) * interval - balance.remainder ≤
        rate * 1000 * (max now balance.last - balance.last) := by
  have limit : cost * 1000 * interval ≤ capacity * 1000 * interval :=
    mul_le_mul_of_nonneg_right (by omega) (le_of_lt period)
  rw [refill_eq _ _ _ _ period, ofMeter, Int.le_ediv_iff_mul_le period,
    Meter.reached_iff _ _ _ limit, meter, sub_mul]
  constructor <;> intro enough <;> linarith

end Balance

section Buckets

variable {a b : TokenBucketState} {capacity refill interval maxCost now : Int64}

theorem refillBucket_ext {first second : Int64}
    (frame : a = { b with
      tokensMilli := a.tokensMilli
      refillRemainder := a.refillRemainder
      lastRefillMS := a.lastRefillMS })
    (same : (refillBucket a capacity refill interval first).balance =
      (refillBucket b capacity refill interval second).balance) :
    refillBucket a capacity refill interval first = refillBucket b capacity refill interval second := by
  simp only [TokenBucketState.balance, Balance.mk.injEq, Int64.toInt_inj] at same
  obtain ⟨tokens, remainder, last⟩ := same
  rw [refillBucket_frame a, refillBucket_frame b, tokens, remainder, last]
  rw [frame]

theorem refillBucket_twice (bounds : PolicyBounds capacity refill interval maxCost)
    (valid : b.balance.Valid) (first second : Int64) :
    refillBucket (refillBucket b capacity refill interval first) capacity refill interval second =
      refillBucket b capacity refill interval (max first second) := by
  have speed : 0 ≤ refill.toInt := by linarith [bounds.refillLow]
  have period : 0 < interval.toInt := by linarith [bounds.intervalLow]
  apply refillBucket_ext (refillBucket_frame b capacity refill interval first)
  rw [refillBucket_balance bounds (refillBucket_nonneg bounds valid first),
    refillBucket_balance bounds valid, refillBucket_balance bounds valid,
    Balance.refill_refill _ _ _ _ speed period, toInt_max]

theorem refillBucket_foldl (bounds : PolicyBounds capacity refill interval maxCost)
    (valid : b.balance.Valid) (first : Int64) (times : List Int64) :
    times.foldl (refillBucket · capacity refill interval ·)
        (refillBucket b capacity refill interval first) =
      refillBucket b capacity refill interval (times.foldl max first) := by
  induction times generalizing first with
  | nil => rfl
  | cons second rest ih =>
      rw [List.foldl_cons, List.foldl_cons, refillBucket_twice bounds valid, ih]

/-- What a decision does to a bucket at one time for one cost. -/
def attempt (capacity refill interval : Int64) (b : TokenBucketState) (poll : Int64 × Int64) :
    TokenBucketState × Bool × Int64 :=
  spend (refillBucket b capacity refill interval poll.1) poll.2 refill interval

theorem spend_denied {cost : Int64} (denied : (spend b cost refill interval).2.1 = false) :
    (spend b cost refill interval).1 = b := by
  unfold spend at denied ⊢
  simp only at denied ⊢
  split
  · rename_i enough
    rw [if_pos enough] at denied
    cases denied
  · split <;> rfl

theorem attempt_foldl (polls : List (Int64 × Int64))
    (denied : ∀ before poll after, polls = before ++ poll :: after →
      (attempt capacity refill interval
        (before.foldl (attempt capacity refill interval · · |>.1) b) poll).2.1 = false) :
    polls.foldl (attempt capacity refill interval · · |>.1) b =
      (polls.map Prod.fst).foldl (refillBucket · capacity refill interval ·) b := by
  induction polls generalizing b with
  | nil => rfl
  | cons poll rest ih =>
      have refused := denied [] poll rest rfl
      rw [List.foldl_nil] at refused
      have first : (attempt capacity refill interval b poll).1 =
          refillBucket b capacity refill interval poll.1 := spend_denied refused
      rw [List.foldl_cons, List.map_cons, List.foldl_cons, ← first]
      apply ih
      intro before other after split
      have whole : poll :: rest = (poll :: before) ++ other :: after := by
        rw [split, List.cons_append]
      have later := denied (poll :: before) other after whole
      rwa [List.foldl_cons] at later

/-- Refilling at each of several times, in any order, is refilling once at the latest of
them, also where some of the refills reach the capacity or overflow; and so is trying to
spend at each of them, as long as every try is denied. -/
theorem refill_path_independent (b : TokenBucketState) (capacity refill interval maxCost : Int64)
    (accepted : validatePolicyFields capacity refill interval maxCost = .ok ())
    (tokens : 0 ≤ b.tokensMilli.toInt) (remainder : 0 ≤ b.refillRemainder.toInt)
    (last : 0 ≤ b.lastRefillMS.toInt) (times : List Int64) (latest : Int64)
    (greatest : times.max? = some latest) :
    times.foldl (refillBucket · capacity refill interval ·) b =
        refillBucket b capacity refill interval latest ∧
      ∀ polls : List (Int64 × Int64), polls.map Prod.fst = times →
        (∀ before poll after, polls = before ++ poll :: after →
          (attempt capacity refill interval
            (before.foldl (attempt capacity refill interval · · |>.1) b) poll).2.1 = false) →
        polls.foldl (attempt capacity refill interval · · |>.1) b =
          refillBucket b capacity refill interval latest := by
  have once : times.foldl (refillBucket · capacity refill interval ·) b =
      refillBucket b capacity refill interval latest := by
    cases times with
    | nil => cases greatest
    | cons first rest =>
        rw [List.max?_cons'] at greatest
        cases greatest
        exact refillBucket_foldl (validatePolicyFields_ok accepted) ⟨tokens, remainder, last⟩
          first rest
  refine ⟨once, ?_⟩
  intro polls named denied
  rw [attempt_foldl polls denied, named, once]

def sampleEmptied : TokenBucketState := ⟨1, "orders", "alice", 0, 1000, 0, 1, 3⟩

theorem refill_path_independent_sample :
    [2500, 700, 4000, 1100].foldl (refillBucket · 10 3 1000 ·) sampleEmptied =
        refillBucket sampleEmptied 10 3 1000 4000 ∧
      (refillBucket sampleEmptied 10 3 1000 4000).tokensMilli = 9000 :=
  ⟨(refill_path_independent sampleEmptied 10 3 1000 10 rfl (by decide) (by decide) (by decide)
    [2500, 700, 4000, 1100] 4000 (by decide)).1, by decide⟩

end Buckets

section Waiting

variable {b : TokenBucketState} {capacity refill interval maxCost cost : Int64}

theorem deficit_fits (bounds : PolicyBounds capacity refill interval maxCost)
    (tokens : 0 ≤ b.tokensMilli.toInt) (low : 0 ≤ cost.toInt) (high : cost.toInt ≤ maxCost.toInt)
    (short : b.tokensMilli.toInt < cost.toInt * 1000) :
    ∃ num, checkedMul (cost * milliPerToken - b.tokensMilli) interval = some num ∧
      num.toInt = (cost.toInt * 1000 - b.tokensMilli.toInt) * interval.toInt ∧
      num.toInt ≤ 1000000000 * 86400000 := by
  have most : cost.toInt ≤ 1000000 := by linarith [bounds.costHigh, bounds.capacityHigh]
  have price := toInt_milli low most
  have missing : (cost * milliPerToken - b.tokensMilli).toInt =
      cost.toInt * 1000 - b.tokensMilli.toInt := by
    rw [toInt_sub_fits (by omega) (by omega), price]
  have period : 0 ≤ interval.toInt := by linarith [bounds.intervalLow]
  have room : (cost.toInt * 1000 - b.tokensMilli.toInt) * interval.toInt ≤ 1000000000 * 86400000 :=
    mul_le_mul (by omega) bounds.intervalHigh period (by norm_num)
  rcases checkedMul_spec (show 0 ≤ (cost * milliPerToken - b.tokensMilli).toInt by omega) period with
    ⟨_, num, found, value⟩ | ⟨wraps, _⟩
  · rw [missing] at value
    exact ⟨num, found, value, value ▸ room⟩
  · rw [missing] at wraps
    omega

theorem spend_retry (bounds : PolicyBounds capacity refill interval maxCost)
    (tokens : 0 ≤ b.tokensMilli.toInt) (low : 0 ≤ cost.toInt) (high : cost.toInt ≤ maxCost.toInt)
    (short : b.tokensMilli.toInt < cost.toInt * 1000) :
    (spend b cost refill interval).2.2.toInt =
      wait ((cost.toInt * 1000 - b.tokensMilli.toInt) * interval.toInt) (refill.toInt * 1000) := by
  obtain ⟨num, found, value, room⟩ := deficit_fits bounds tokens low high short
  have most : cost.toInt ≤ 1000000 := by linarith [bounds.costHigh, bounds.capacityHigh]
  have rate := toInt_milli (show 0 ≤ refill.toInt by linarith [bounds.refillLow]) bounds.refillHigh
  have speed : 0 < refill.toInt * 1000 := by linarith [bounds.refillLow]
  have slow : refill.toInt * 1000 ≤ 1000000000 := by linarith [bounds.refillHigh]
  have one : (1 : Int64).toInt = 1 := rfl
  have positive : 0 < num.toInt := by
    rw [value]
    exact mul_pos (by omega) (by linarith [bounds.intervalLow])
  have denied : ¬b.tokensMilli ≥ cost * milliPerToken := by
    rw [ge_iff_le, Int64.le_iff_toInt_le, toInt_milli low most]
    omega
  have sum : (num + refill * milliPerToken).toInt = num.toInt + refill.toInt * 1000 := by
    rw [toInt_add_fits (by omega) (by omega), rate]
  have above : (num + refill * milliPerToken - 1).toInt = num.toInt + refill.toInt * 1000 - 1 := by
    rw [toInt_sub_fits (by omega) (by omega), sum, one]
  have quotient : ((num + refill * milliPerToken - 1) / (refill * milliPerToken)).toInt =
      wait num.toInt (refill.toInt * 1000) := by
    rw [toInt_div_nonneg (by omega) (by omega), above, rate]
    rfl
  have kept : ¬(num + refill * milliPerToken - 1) / (refill * milliPerToken) ≤ 0 := by
    have later := wait_pos speed positive
    rw [Int64.le_iff_toInt_le, quotient, not_le]
    exact later
  unfold spend
  simp only [if_neg denied, found, if_neg kept]
  rw [quotient, value]

theorem covered_after (bounds : PolicyBounds capacity refill interval maxCost)
    (valid : b.balance.Valid) (low : 0 ≤ cost.toInt) (high : cost.toInt ≤ maxCost.toInt)
    (time : Int) (early : 0 ≤ time) (fits : b.lastRefillMS.toInt + time < 2 ^ 63) :
    (spend (refillBucket b capacity refill interval (Int64.ofInt (b.lastRefillMS.toInt + time))) cost
        refill interval).2.1 = true ↔
      wait ((cost.toInt * 1000 - b.tokensMilli.toInt) * interval.toInt - b.refillRemainder.toInt)
        (refill.toInt * 1000) ≤ time := by
  have last : 0 ≤ b.lastRefillMS.toInt := valid.last
  have now : (Int64.ofInt (b.lastRefillMS.toInt + time)).toInt = b.lastRefillMS.toInt + time :=
    Int64.toInt_ofInt_of_le (by omega) (by omega)
  have balance := refillBucket_balance bounds valid (Int64.ofInt (b.lastRefillMS.toInt + time))
  have kept := refillBucket_nonneg bounds valid (Int64.ofInt (b.lastRefillMS.toInt + time))
  generalize refillBucket b capacity refill interval _ = refilled at balance kept ⊢
  have held : refilled.tokensMilli.toInt = (b.balance.refill capacity.toInt refill.toInt
      interval.toInt (b.lastRefillMS.toInt + time)).tokens := by
    rw [← now, ← balance]
    rfl
  have passed : max (b.lastRefillMS.toInt + time) b.balance.last - b.balance.last = time := by
    change max (b.lastRefillMS.toInt + time) b.lastRefillMS.toInt - b.lastRefillMS.toInt = time
    omega
  have worth := Balance.covered_iff b.balance refill.toInt (b.lastRefillMS.toInt + time)
    (show 0 < interval.toInt by linarith [bounds.intervalLow])
    (show cost.toInt ≤ capacity.toInt by linarith [bounds.costHigh])
  rw [passed, ← held] at worth
  rw [wait_le_iff (show 0 < refill.toInt * 1000 by linarith [bounds.refillLow])]
  refine Iff.trans ?_ worth
  rcases spend_spec refilled cost refill interval kept.tokens low
    (by linarith [bounds.costHigh, bounds.capacityHigh]) with ⟨yes, enough, _⟩ | ⟨no, short, _⟩
  · exact iff_of_true yes enough
  · exact iff_of_false (by rw [no]; exact Bool.false_ne_true) (not_le.mpr short)

/-- The estimate of a denied request is never less than the least wait on the bucket's own
clock after which the same cost is allowed, and at most the time of one milli-token more;
its multiplication never overflows. -/
theorem retry_estimate_tight (b : TokenBucketState)
    (capacity refill interval maxCost cost retryAfter : Int64)
    (accepted : validatePolicyFields capacity refill interval maxCost = .ok ())
    (tokens : 0 ≤ b.tokensMilli.toInt)
    (remainder : 0 ≤ b.refillRemainder.toInt ∧ b.refillRemainder.toInt < interval.toInt)
    (last : Timestamp b.lastRefillMS) (price : 1 ≤ cost.toInt ∧ cost.toInt ≤ maxCost.toInt)
    (denied : (spend b cost refill interval).2 = (false, retryAfter)) :
    (∃ least : Nat,
      IsLeast {time : Nat | (spend (refillBucket b capacity refill interval
        (Int64.ofInt (b.lastRefillMS.toInt + time))) cost refill interval).2.1 = true} least ∧
      least ≤ retryAfter.toInt ∧
      retryAfter.toInt ≤ least + wait interval.toInt (refill.toInt * 1000)) ∧
    1 ≤ retryAfter.toInt ∧ checkedMul (cost * milliPerToken - b.tokensMilli) interval ≠ none := by
  have bounds := validatePolicyFields_ok accepted
  have valid : b.balance.Valid := ⟨tokens, remainder.1, last.1⟩
  have low : 0 ≤ cost.toInt := by omega
  have speed : 0 < refill.toInt * 1000 := by linarith [bounds.refillLow]
  have period : 0 < interval.toInt := by linarith [bounds.intervalLow]
  have short : b.tokensMilli.toInt < cost.toInt * 1000 := by
    rcases spend_spec b cost refill interval tokens low
      (by linarith [bounds.costHigh, bounds.capacityHigh]) with ⟨yes, _⟩ | ⟨_, short, _⟩
    · rw [denied] at yes
      cases yes
    · exact short
  obtain ⟨num, found, value, room⟩ := deficit_fits bounds tokens low price.2 short
  have retry := spend_retry bounds tokens low price.2 short
  rw [denied, ← value] at retry
  -- the deficit is at least one milli-token, more than any remainder
  have deficit : interval.toInt ≤ num.toInt := by
    rw [value]
    exact le_mul_of_one_le_left (le_of_lt period) (by omega)
  have covered := covered_after bounds valid low price.2
  rw [← value] at covered
  generalize least : wait (num.toInt - b.refillRemainder.toInt) (refill.toInt * 1000) = time at covered
  have positive : 0 < time := least ▸ wait_pos speed (by omega)
  have bounded : time ≤ 1000000000 * 86400000 := by
    rw [← least, wait_le_iff speed]
    exact le_trans (by omega) (le_mul_of_one_le_left (by norm_num) (by omega))
  have under : time ≤ retryAfter.toInt := by
    rw [retry, ← least]
    exact wait_mono speed (by omega)
  have near : retryAfter.toInt ≤ time + wait interval.toInt (refill.toInt * 1000) := by
    rw [retry, ← least]
    refine le_trans (wait_mono speed ?_) (wait_add_le speed _ _)
    omega
  have clock : b.lastRefillMS.toInt ≤ 2 ^ 62 := last.2
  refine ⟨⟨time.toNat, ⟨?_, ?_⟩, ?_, ?_⟩, by omega, by rw [found]; simp⟩
  · exact (covered _ (by omega) (by omega)).mpr (by omega)
  · intro other allowed
    by_contra less
    have enough := (covered other (by omega) (by omega)).mp allowed
    omega
  · omega
  · omega

theorem retry_estimate_tight_sample : (spend sampleEmptied 4 3 1000).2 = (false, 1334) ∧
    ∃ least : Nat,
      IsLeast {time : Nat | (spend (refillBucket sampleEmptied 10 3 1000
        (Int64.ofInt (1000 + time))) 4 3 1000).2.1 = true} least ∧
      (least : Int) ≤ 1334 ∧ 1334 ≤ (least : Int) + 1 := by
  have denied : (spend sampleEmptied 4 3 1000).2 = (false, 1334) := by decide
  exact ⟨denied, (retry_estimate_tight sampleEmptied 10 3 1000 10 4 1334 rfl (by decide)
    ⟨by decide, by decide⟩ ⟨by decide, by decide⟩ ⟨by decide, by decide⟩ denied).1⟩

end Waiting

end QuorumLimiter.Limiter
